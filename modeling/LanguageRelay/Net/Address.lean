import LanguageRelay.Text.Natural
namespace LanguageRelay.Net

inductive HostAddress where
  | dotted (numbers : List Nat)
  | grouped (groups : List Nat) (scope : Nat)
deriving DecidableEq, Repr, Inhabited

structure Address where
  host : HostAddress
  service : Nat
deriving DecidableEq, Repr, Inhabited

abbrev Reader (α : Type) := List Char → Option (α × List Char)

def digitValue? (base : Nat) (c : Char) : Option Nat :=
  let value := if c.isDigit then c.toNat - '0'.toNat
    else if 'a' ≤ c ∧ c ≤ 'f' then c.toNat - 'a'.toNat + 10
    else if 'A' ≤ c ∧ c ≤ 'F' then c.toNat - 'A'.toNat + 10
    else base
  if value < base then some value else none

def number? (base bound : Nat) : Reader Nat := fun chars =>
  let digits := chars.takeWhile fun c => (digitValue? base c).isSome
  let value := (digits.filterMap (digitValue? base)).foldl (fun n d => n * base + d) 0
  if digits = [] ∨ bound < value then none else some (value, chars.drop digits.length)

def group? : Reader Nat := fun chars =>
  (number? 16 0xFFFF chars).filter fun r => chars.length ≤ r.2.length + 4

def octet? : Reader Nat := fun chars =>
  (number? 10 255 chars).filter fun r =>
    chars.length ≤ r.2.length + (if chars.head? = some '0' then 1 else 3)

def behind? (c : Char) : List Char → Option (List Char)
  | first :: rest => if first = c then some rest else none
  | [] => none

def dotted? : Reader (List Nat) := fun chars => do
  let (a, rest) ← octet? chars
  let (b, rest) ← octet? (← behind? '.' rest)
  let (c, rest) ← octet? (← behind? '.' rest)
  let (d, rest) ← octet? (← behind? '.' rest)
  return ([a, b, c, d], rest)

def groupsOfNumbers (numbers : List Nat) : List Nat :=
  match numbers with
  | [a, b, c, d] => [a * 256 + b, c * 256 + d]
  | _ => []

def groups : Nat → List Nat → List Char → List Nat × Bool × List Char
  | 0, found, chars => (found, false, chars)
  | limit + 1, found, chars =>
    let start := if found = [] then some chars else behind? ':' chars
    match start with
    | none => (found, false, chars)
    | some start =>
      match if limit = 0 then none else dotted? start with
      | some (numbers, rest) => (found ++ groupsOfNumbers numbers, true, rest)
      | none =>
        match group? start with
        | none => (found, false, chars)
        | some (g, rest) => groups limit (found ++ [g]) rest

def grouped? : Reader (List Nat) := fun chars =>
  let (head, ended, rest) := groups 8 [] chars
  if head.length = 8 then some (head, rest)
  else if ended then none
  else do
    let rest ← behind? ':' (← behind? ':' rest)
    let (tail, _, rest) := groups (7 - head.length) [] rest
    return (head ++ List.replicate (8 - head.length - tail.length) 0 ++ tail, rest)

def serviceAtEnd? (chars : List Char) : Option Nat := do
  let (service, rest) ← number? 10 0xFFFF (← behind? ':' chars)
  if rest = [] then some service else none

def scope (chars : List Char) : Nat × List Char :=
  match (behind? '%' chars).bind (number? 10 Text.greatest32) with
  | some result => result
  | none => (0, chars)

def Address.read? (text : String) : Option Address :=
  match text.toList with
  | '[' :: chars => do
    let (found, rest) ← grouped? chars
    let (scope, rest) := scope rest
    let service ← serviceAtEnd? (← behind? ']' rest)
    return ⟨.grouped found scope, service⟩
  | chars => do
    let (numbers, rest) ← dotted? chars
    let service ← serviceAtEnd? rest
    return ⟨.dotted numbers, service⟩

def zeroRun (groups : List Nat) : Nat := (groups.takeWhile (· == 0)).length

def longestZeroRun : Nat → List Nat → Nat × Nat
  | _, [] => (0, 0)
  | place, g :: rest =>
    let (start, length) := longestZeroRun (place + 1) rest
    if length ≤ zeroRun (g :: rest) then (place, zeroRun (g :: rest)) else (start, length)

def hexText (n : Nat) : String := String.ofList (Nat.toDigits 16 n)

def joinGroups (groups : List Nat) : String := ":".intercalate (groups.map hexText)

def joinNumbers (numbers : List Nat) : String := ".".intercalate (numbers.map toString)

-- The groups as text. The first of the longest runs of at least two zeros is left out.
def groupsText (groups : List Nat) : String :=
  match groups with
  | [0, 0, 0, 0, 0, 0xFFFF, a, b] => "::ffff:" ++ joinNumbers [a / 256, a % 256, b / 256, b % 256]
  | _ =>
    let (start, length) := longestZeroRun 0 groups
    if length ≤ 1 then joinGroups groups
    else joinGroups (groups.take start) ++ "::" ++ joinGroups (groups.drop (start + length))

def Address.text (address : Address) : String :=
  match address.host with
  | .dotted numbers => joinNumbers numbers ++ ":" ++ toString address.service
  | .grouped groups scope =>
    let mark := if scope = 0 then "" else "%" ++ toString scope
    "[" ++ groupsText groups ++ mark ++ "]:" ++ toString address.service

end LanguageRelay.Net
