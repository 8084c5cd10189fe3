namespace LanguageRelay.Text

def digitsValue? (chars : List Char) : Option Nat :=
  if chars ≠ [] ∧ chars.all Char.isDigit then
    some (chars.foldl (fun n c => n * 10 + (c.toNat - '0'.toNat)) 0)
  else none

def unsigned? (bound : Nat) (text : String) : Option Nat :=
  let digits := match text.toList with
    | '+' :: rest => rest
    | chars => chars
  (digitsValue? digits).filter (· ≤ bound)

def greatest64 : Nat := 0xFFFFFFFFFFFFFFFF

def greatest32 : Nat := 0xFFFFFFFF

end LanguageRelay.Text
