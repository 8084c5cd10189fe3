import LanguageRelay.Shell.Token
namespace LanguageRelay.Shell.Arithmetic

inductive Sign where
  | number (value : Int)
  | operator (sign : Char)
deriving DecidableEq, Repr

-- Reads the signs of an expression. A name stands for its value, which is zero unless it is a
-- number; a dollar sign in front of a name says nothing.
def signs (valueOf : String → Option String) : Nat → List Char → List Sign
  | 0, _ | _, [] => []
  | n + 1, c :: rest =>
    if c.isDigit then
      let digits := c :: rest.takeWhile Char.isDigit
      .number ((String.ofList digits).toInt?.getD 0) ::
        signs valueOf n (rest.dropWhile Char.isDigit)
    else if Token.isNameStart c then
      let name := String.ofList (c :: rest.takeWhile Token.isNameChar)
      .number (((valueOf name).bind String.toInt?).getD 0) ::
        signs valueOf n (rest.dropWhile Token.isNameChar)
    else if c ∈ ['+', '-', '*', '/', '%', '(', ')'] then .operator c :: signs valueOf n rest
    else signs valueOf n rest

def combine? (sign : Char) (a b : Int) : Option Int :=
  match sign with
  | '+' => some (a + b)
  | '-' => some (a - b)
  | '*' => some (a * b)
  | '/' => if b = 0 then none else some (a.tdiv b)
  | '%' => if b = 0 then none else some (a.tmod b)
  | _ => none

mutual

def sum? (n : Nat) (signs : List Sign) : Option (Int × List Sign) :=
  match n with
  | 0 => none
  | n + 1 => do
    let (first, rest) ← product? n signs
    sumTo? n first rest

def sumTo? (n : Nat) (first : Int) (signs : List Sign) : Option (Int × List Sign) :=
  match n, signs with
  | 0, _ => none
  | n + 1, .operator sign :: rest =>
    if sign = '+' ∨ sign = '-' then do
      let (second, rest) ← product? n rest
      sumTo? n (← combine? sign first second) rest
    else some (first, .operator sign :: rest)
  | _, signs => some (first, signs)

def product? (n : Nat) (signs : List Sign) : Option (Int × List Sign) :=
  match n with
  | 0 => none
  | n + 1 => do
    let (first, rest) ← factor? n signs
    productTo? n first rest

def productTo? (n : Nat) (first : Int) (signs : List Sign) : Option (Int × List Sign) :=
  match n, signs with
  | 0, _ => none
  | n + 1, .operator sign :: rest =>
    if sign = '*' ∨ sign = '/' ∨ sign = '%' then do
      let (second, rest) ← factor? n rest
      productTo? n (← combine? sign first second) rest
    else some (first, .operator sign :: rest)
  | _, signs => some (first, signs)

def factor? (n : Nat) (signs : List Sign) : Option (Int × List Sign) :=
  match n, signs with
  | _, .number value :: rest => some (value, rest)
  | n + 1, .operator '-' :: rest => (factor? n rest).map fun (value, rest) => (-value, rest)
  | n + 1, .operator '+' :: rest => factor? n rest
  | n + 1, .operator '(' :: rest => do
    match ← sum? n rest with
    | (value, .operator ')' :: rest) => return (value, rest)
    | _ => none
  | _, _ => none

end

-- The value of an expression. One that makes no sense counts as zero.
def evaluate (valueOf : String → Option String) (expression : String) : Int :=
  let found := signs valueOf expression.length expression.toList
  match sum? (4 * found.length + 4) found with
  | some (value, []) => value
  | _ => 0

end LanguageRelay.Shell.Arithmetic
