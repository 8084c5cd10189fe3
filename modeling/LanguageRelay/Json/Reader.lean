import LanguageRelay.Json.Number
import LanguageRelay.Json.Syntax
namespace LanguageRelay.Json

def isHighSurrogate (code : Nat) : Bool := 0xD800 ≤ code && code < 0xDC00

def isLowSurrogate (code : Nat) : Bool := 0xDC00 ≤ code && code < 0xE000

def joinSurrogates (high low : Nat) : Char :=
  Char.ofNat (0x10000 + (high - 0xD800) * 0x400 + (low - 0xDC00))

def charsOfCodes? : List Char → Codes → Option (List Char)
  | found, [] => some found.reverse
  | found, [code] => if isHighSurrogate code || isLowSurrogate code then none
      else some (Char.ofNat code :: found).reverse
  | found, code :: next :: rest =>
    if isHighSurrogate code then
      if isLowSurrogate next then charsOfCodes? (joinSurrogates code next :: found) rest else none
    else if isLowSurrogate code then none
    else charsOfCodes? (Char.ofNat code :: found) (next :: rest)

def textOfCodes? (codes : Codes) : Option String := (charsOfCodes? [] codes).map String.ofList

def greatestDepth : Nat := 127

mutual
def Value.ofSyntax? (depth : Nat) : Syntax → Option Value
  | .null => some .null
  | .bool b => some (.bool b)
  | .number l => (Number.ofLiteral? l).map .number
  | .text codes => (textOfCodes? codes).map .text
  | .list items =>
    match depth with
    | 0 => none
    | inner + 1 => (valuesOfSyntax? inner items).map .list
  | .object members =>
    match depth with
    | 0 => none
    | inner + 1 => (membersOfSyntax? inner members).map Value.ofMembers
def valuesOfSyntax? (depth : Nat) : List Syntax → Option (List Value)
  | [] => some []
  | item :: rest =>
    match Value.ofSyntax? depth item with
    | some v => (valuesOfSyntax? depth rest).map (v :: ·)
    | none => none
def membersOfSyntax? (depth : Nat) : List (Codes × Syntax) → Option (List (String × Value))
  | [] => some []
  | (key, item) :: rest =>
    match textOfCodes? key, Value.ofSyntax? depth item with
    | some k, some v => (membersOfSyntax? depth rest).map ((k, v) :: ·)
    | _, _ => none
end

def Value.read? (text : String) : Option Value :=
  (Syntax.read? text).bind (Value.ofSyntax? greatestDepth)

end LanguageRelay.Json
