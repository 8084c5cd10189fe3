import LanguageRelay.Text.Bytes
namespace LanguageRelay.Shell.Format

def isOctal (c : Char) : Bool := '0' ≤ c && c ≤ '7'

def octal (digits : List Char) : UInt8 :=
  (digits.foldl (fun n c => n * 8 + (c.toNat - '0'.toNat)) 0).toUInt8

def named? : Char → Option UInt8
  | 'a' => some 7
  | 'b' => some 8
  | 't' => some 9
  | 'n' => some 10
  | 'v' => some 11
  | 'f' => some 12
  | 'r' => some 13
  | '\\' => some 92
  | _ => none

-- The bytes of an escape whose backslash has been read, and what follows it. One that is not known
-- stands for itself.
def escaped (cs : List Char) : Bytes × List Char :=
  match cs with
  | [] => ([92], [])
  | c :: rest =>
    match named? c with
    | some byte => ([byte], rest)
    | none =>
      let digits := (cs.take 3).takeWhile isOctal
      if digits = [] then ([92], cs) else ([octal digits], cs.drop digits.length)

def unescape : Nat → List Char → Bytes × Bool
  | 0, _ | _, [] => ([], false)
  | _, '\\' :: 'c' :: _ => ([], true)
  | n + 1, '\\' :: '0' :: rest =>
    let digits := (rest.take 3).takeWhile isOctal
    let (bytes, stops) := unescape n (rest.drop digits.length)
    (octal digits :: bytes, stops)
  | n + 1, '\\' :: rest =>
    let (first, rest) := escaped rest
    let (bytes, stops) := unescape n rest
    (first ++ bytes, stops)
  | n + 1, c :: rest =>
    let (bytes, stops) := unescape n rest
    (Text.utf8 (String.singleton c) ++ bytes, stops)

def echo (arguments : List String) : Bytes :=
  let (ends, arguments) := match arguments with
    | "-n" :: rest => (false, rest)
    | arguments => (true, arguments)
  let text := " ".intercalate arguments
  let (bytes, stops) := unescape text.length text.toList
  if ends && !stops then bytes ++ [10] else bytes

structure Conversion where
  left : Bool
  zero : Bool
  width : Nat
  precision : Option Nat
  kind : Char
deriving DecidableEq, Repr

def conversion? (cs : List Char) : Option (Conversion × List Char) :=
  let isFlag (c : Char) : Bool := c ∈ ['-', '0', '+', ' ', '#']
  let flags := cs.takeWhile isFlag
  let number (cs : List Char) : Nat := ((String.ofList (cs.takeWhile Char.isDigit)).toNat?).getD 0
  let wide := cs.dropWhile isFlag
  let afterWidth := wide.dropWhile Char.isDigit
  let (precision, rest) := match afterWidth with
    | '.' :: rest => (some (number rest), rest.dropWhile Char.isDigit)
    | rest => (none, rest)
  match rest with
  | kind :: rest => some (⟨flags.contains '-', flags.contains '0', number wide, precision, kind⟩, rest)
  | [] => none

-- The number that an argument gives; a quote gives the code of the character after it.
def numberOf (argument : String) : Int :=
  match argument.toList with
  | '\'' :: c :: _ | '"' :: c :: _ => c.toNat
  | _ => argument.toInt?.getD 0

def digits (base : Nat) (value : Int) : String := String.ofList (Nat.toDigits base value.toNat)

def Conversion.apply (conversion : Conversion) (argument : String) : Bytes × Bool :=
  let pad (bytes : Bytes) : Bytes :=
    let missing := conversion.width - bytes.length
    if conversion.left then bytes ++ List.replicate missing 32
    else
      match conversion.zero, conversion.kind == 's', bytes with
      | true, false, 45 :: rest => 45 :: List.replicate missing 48 ++ rest
      | true, false, bytes => List.replicate missing 48 ++ bytes
      | _, _, bytes => List.replicate missing 32 ++ bytes
  let text (text : String) : Bytes × Bool := (pad (Text.utf8 text), false)
  match conversion.kind with
  | 'b' =>
    let (bytes, stops) := unescape argument.length argument.toList
    (pad bytes, stops)
  | 'c' => text (String.ofList (argument.toList.take 1))
  | 'd' | 'i' | 'u' => text (toString (numberOf argument))
  | 'o' => text (digits 8 (numberOf argument))
  | 'x' => text (digits 16 (numberOf argument))
  | 'X' => text (digits 16 (numberOf argument)).toUpper
  | _ =>
    let bytes := Text.utf8 argument
    (pad (match conversion.precision with
      | some count => bytes.take count
      | none => bytes), false)

def once : Nat → List Char → List String → Bytes × List String × Bool
  | 0, _, arguments | _, [], arguments => ([], arguments, false)
  | n + 1, '\\' :: rest, arguments =>
    let (first, rest) := escaped rest
    let (bytes, left, stops) := once n rest arguments
    (first ++ bytes, left, stops)
  | n + 1, '%' :: '%' :: rest, arguments =>
    let (bytes, left, stops) := once n rest arguments
    (37 :: bytes, left, stops)
  | n + 1, '%' :: rest, arguments =>
    match conversion? rest with
    | none => ([37], arguments, true)
    | some (conversion, rest) =>
      let (first, stops) := conversion.apply (arguments.head?.getD "")
      if stops then (first, arguments.tail, true)
      else
        let (bytes, left, stops) := once n rest arguments.tail
        (first ++ bytes, left, stops)
  | n + 1, c :: rest, arguments =>
    let (bytes, left, stops) := once n rest arguments
    (Text.utf8 (String.singleton c) ++ bytes, left, stops)

def repeated : Nat → List Char → List String → Bytes
  | 0, _, _ => []
  | n + 1, format, arguments =>
    let (bytes, left, stops) := once format.length format arguments
    if stops ∨ left = [] ∨ left.length = arguments.length then bytes
    else bytes ++ repeated n format left

def printf (arguments : List String) : Bytes :=
  let arguments := if arguments.head? = some "--" then arguments.tail else arguments
  match arguments with
  | [] => []
  | format :: arguments => repeated (arguments.length + 1) format.toList arguments

end LanguageRelay.Shell.Format
