import LanguageRelay.Decimal.Binary64
namespace LanguageRelay.Decimal

-- Significant digits and the place of the decimal point: the value is `0.d₁d₂… · 10 ^ point`.
structure Digits where
  digits : List Nat
  point : Int
deriving DecidableEq, Repr

def digitsOf (n : Nat) : List Nat := (Nat.toDigits 10 n).map fun c => c.toNat - '0'.toNat

def dropTrailingZeros (digits : List Nat) : List Nat := (digits.reverse.dropWhile (· == 0)).reverse

-- The values that round to a double, between `low / unit` and `high / unit`; the ends themselves
-- round to it when the mantissa is even.
structure Interval where
  low : Nat
  value : Nat
  high : Nat
  unit : Nat
  closed : Bool

def Interval.of (x : Binary64) : Interval :=
  let low := if x.mantissa = Nat.pow 2 52 ∧ x.exponent ≠ Binary64.leastExponent
    then 4 * x.mantissa - 1 else 4 * x.mantissa - 2
  let up := Nat.pow 2 x.exponent.toNat
  ⟨low * up, 4 * x.mantissa * up, (4 * x.mantissa + 2) * up, 4 * Nat.pow 2 (-x.exponent).toNat,
    x.mantissa % 2 == 0⟩

def Interval.holds (i : Interval) (num den : Nat) : Bool :=
  if i.closed then i.low * den ≤ num * i.unit && num * i.unit ≤ i.high * den
  else i.low * den < num * i.unit && num * i.unit < i.high * den

-- The power of ten just above a positive ratio: `10 ^ (p - 1) ≤ num / den < 10 ^ p`.
def magnitude (num den : Nat) : Int :=
  if den ≤ num then (digitsOf (num / den)).length
  else
    match (List.range 400).find? fun j => decide (den ≤ num * Nat.pow 10 j) with
    | some j => 1 - (j : Int)
    | none => 0

def Interval.onGrid (i : Interval) (top : Int) (count : Nat) : Option (Nat × Int) :=
  let place := top - count
  let (num, den) :=
    if 0 ≤ place then (i.value, i.unit * Nat.pow 10 place.toNat)
    else (i.value * Nat.pow 10 (-place).toNat, i.unit)
  let low := num / den
  let rest := num % den
  let fits (n : Nat) : Bool :=
    if 0 ≤ place then i.holds (n * Nat.pow 10 place.toNat) 1
    else i.holds n (Nat.pow 10 (-place).toNat)
  let highFirst := den < 2 * rest || (2 * rest == den && low % 2 == 1)
  let (first, second) := if highFirst then (low + 1, low) else (low, low + 1)
  if fits first then some (first, place) else if fits second then some (second, place) else none

-- The first grid of one, two, … seventeen digits on which a neighbour of `x` rounds to `x`, and the
-- nearer of two such neighbours.
def shortest (x : Binary64) : Digits :=
  let i := Interval.of x
  let top := magnitude i.value i.unit
  match (List.range 17).findSome? fun k => i.onGrid top (k + 1) with
  | some (n, place) =>
    let digits := digitsOf n
    ⟨dropTrailingZeros digits, place + digits.length⟩
  | none => ⟨[], 0⟩

-- How digits are written: positional for the exponents from `leastPlain` to below `plainLimit`,
-- otherwise as one digit, a fraction if there is one, and a signed exponent.
structure Layout where
  leastPlain : Int
  plainLimit : Int
  positiveSign : List Char

def digitChar (d : Nat) : Char := Char.ofNat ('0'.toNat + d)

def Layout.exponent (layout : Layout) (e : Int) : List Char :=
  'e' :: (if e < 0 then ['-'] else layout.positiveSign) ++ Nat.toDigits 10 e.natAbs

def Layout.write (layout : Layout) (d : Digits) : List Char :=
  let chars := d.digits.map digitChar
  let count := chars.length
  let e := d.point - 1
  if layout.leastPlain ≤ e ∧ e < layout.plainLimit then
    if d.point ≤ 0 then '0' :: '.' :: List.replicate (-d.point).toNat '0' ++ chars
    else if count ≤ d.point.toNat then
      chars ++ List.replicate (d.point.toNat - count) '0' ++ ['.', '0']
    else chars.take d.point.toNat ++ '.' :: chars.drop d.point.toNat
  else
    match chars with
    | [] => []
    | [c] => c :: layout.exponent e
    | c :: rest => c :: '.' :: rest ++ layout.exponent e

def Layout.render (layout : Layout) (x : Binary64) : List Char :=
  let sign := if x.negative then ['-'] else []
  if x.mantissa = 0 then sign ++ ['0', '.', '0'] else sign ++ layout.write (shortest x)

end LanguageRelay.Decimal
