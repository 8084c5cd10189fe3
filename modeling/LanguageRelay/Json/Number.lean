import LanguageRelay.Json.Token
import LanguageRelay.Json.Value
namespace LanguageRelay.Json
open LanguageRelay.Decimal

-- Adds digits to a significand as long as it fits 64 bits. Also gives the digits left over.
def Literal.absorb : Nat → List Nat → Nat × List Nat
  | s, [] => (s, [])
  | s, d :: rest => if s * 10 + d < 0x10000000000000000 then absorb (s * 10 + d) rest else (s, d :: rest)

def Literal.hugePower : Nat := 0x80000000

def Literal.natOf (digits : List Nat) : Nat := digits.foldl (fun n d => n * 10 + d) 0

def Literal.scaled (negative : Bool) (significand : Nat) (power : Int) : Option Number :=
  ((Binary64.ofNat significand).bind (scaleByTen · power)).map fun x =>
    .double { x with negative := negative }

-- The integer of a sign and a significand. What 64 signed bits do not hold, and a negative zero, is
-- a double.
def Literal.integer (negative : Bool) (significand : Nat) : Option Number :=
  if !negative then some (.integer significand)
  else if 0 < significand ∧ significand ≤ 0x8000000000000000 then some (.integer (-(significand : Int)))
  else scaled true significand 0

-- A literal that is no integer is its first digits as a double, scaled by its power of ten. Digits that do
-- not fit move the power when they stand before the point.
def Number.ofLiteral? (l : Literal) : Option Number :=
  let (whole, beyond) := Literal.absorb 0 l.whole
  if beyond = [] ∧ l.fraction = [] ∧ l.exponent = none then Literal.integer l.negative whole
  else
    let (significand, lost) := Literal.absorb whole l.fraction
    let power : Int := beyond.length - (l.fraction.length - lost.length : Nat)
    match l.exponent with
    | none => Literal.scaled l.negative significand power
    | some (down, digits) =>
      let size := Literal.natOf digits
      if size < Literal.hugePower then
        Literal.scaled l.negative significand (if down then power - size else power + size)
      else if down ∨ significand = 0 then some (.double (Binary64.zero l.negative))
      else none

end LanguageRelay.Json
