namespace LanguageRelay.Decimal

-- The double `± mantissa · 2 ^ exponent`. Built by `round`, the mantissa has 53 bits unless the
-- exponent is the least one.
structure Binary64 where
  negative : Bool
  mantissa : Nat
  exponent : Int
deriving DecidableEq, Repr, Inhabited

namespace Binary64

def leastExponent : Int := -1074

def greatestExponent : Int := 971

def zero (negative : Bool) : Binary64 := ⟨negative, 0, leastExponent⟩

def roundQuotient (num den : Nat) : Nat :=
  let quotient := num / den
  let rest := num % den
  if den < 2 * rest || (2 * rest == den && quotient % 2 == 1) then quotient + 1 else quotient

def scaled (num den : Nat) (shift : Int) : Nat × Nat :=
  if 0 ≤ shift then (num, den * Nat.pow 2 shift.toNat) else (num * Nat.pow 2 (-shift).toNat, den)

def round (negative : Bool) (num den : Nat) : Option Binary64 :=
  if num = 0 then some (zero negative)
  else
    let guess : Int := (num.log2 : Int) - (den.log2 : Int) - 53
    let (gn, gd) := scaled num den guess
    let fitted := if gn / gd < Nat.pow 2 53 then guess else guess + 1
    let exponent := max fitted leastExponent
    let (n, d) := scaled num den exponent
    let mantissa := roundQuotient n d
    let (mantissa, exponent) :=
      if mantissa = Nat.pow 2 53 then (Nat.pow 2 52, exponent + 1) else (mantissa, exponent)
    if greatestExponent < exponent then none else some ⟨negative, mantissa, exponent⟩

def ofNat (n : Nat) : Option Binary64 := round false n 1

def ratio (x : Binary64) : Nat × Nat := scaled x.mantissa 1 (-x.exponent)

def mul (x y : Binary64) : Option Binary64 :=
  let (a, b) := x.ratio
  let (c, d) := y.ratio
  round (x.negative != y.negative) (a * c) (b * d)

def div (x y : Binary64) : Option Binary64 :=
  if y.mantissa = 0 then none
  else
    let (a, b) := x.ratio
    let (c, d) := y.ratio
    round (x.negative != y.negative) (a * d) (b * c)

def neg (x : Binary64) : Binary64 := { x with negative := !x.negative }

end Binary64

def greatestPower : Nat := 308

-- Scaling a double by a power of ten, one rounded factor at a time: a positive power is one factor
-- and has no result beyond the greatest power, a negative one divides by the greatest power until
-- the rest fits. Zero stays zero under any power.
def scaleByTen (x : Binary64) (power : Int) : Option Binary64 :=
  if 0 ≤ power then
    if power.toNat ≤ greatestPower then (Binary64.ofNat (Nat.pow 10 power.toNat)).bind x.mul
    else if x.mantissa = 0 then some x else none
  else shrink ((-power).toNat / greatestPower + 1) x (-power).toNat
where
  shrink : Nat → Binary64 → Nat → Option Binary64
    | 0, x, _ => some x
    | rounds + 1, x, places =>
      if places ≤ greatestPower then (Binary64.ofNat (Nat.pow 10 places)).bind x.div
      else if x.mantissa = 0 then some x
      else
        match (Binary64.ofNat (Nat.pow 10 greatestPower)).bind x.div with
        | some y => shrink rounds y (places - greatestPower)
        | none => none

end LanguageRelay.Decimal
