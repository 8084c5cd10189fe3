import LanguageRelay.Pattern.Classes
import LanguageRelay.Text.Blank
import LanguageRelay.Text.Property
namespace LanguageRelay
namespace Pattern

inductive CharSet where
  | range (low high : Nat)
  | folded (low high : Nat)
  | word
  | digit
  | blank
  | category (group : Char) (kind : Option Char)
  | property (p : Text.Property)
  | listed (spans : List (Nat × Nat))
  | caseless (s : CharSet)
  | none
  | not (s : CharSet)
  | union (a b : CharSet)
  | inter (a b : CharSet)
deriving Repr, Inhabited

def CharSet.contains (c : Char) : CharSet → Bool
  | .range low high => low ≤ c.toNat && c.toNat ≤ high
  | .folded low high => (caseVariants c.toNat).any fun n => low ≤ n && n ≤ high
  | .word => isWord c
  | .digit => isDigit c
  | .blank => Text.isBlank c
  | .category group kind =>
    (Text.category c).1 == group && (kind.isNone || kind == some (Text.category c).2)
  | .property p => p.holds c
  | .listed spans => Text.inRuns spans c.toNat
  | .caseless s => (caseVariants c.toNat).any fun n => s.contains (Char.ofNat n)
  | .none => false
  | .not s => !s.contains c
  | .union a b => a.contains c || b.contains c
  | .inter a b => a.contains c && b.contains c

inductive Anchor where
  | textStart
  | textEnd
  | lineStart (carriage : Bool)
  | lineEnd (carriage : Bool)
  | wordBoundary
  | notWordBoundary
  | wordStart
  | wordEnd
  | wordStartHalf
  | wordEndHalf
deriving DecidableEq, Repr

end Pattern

-- A pattern. `many` repeats at least `least` times and, if `most` is set, at most so many times.
inductive Pattern where
  | empty
  | set (s : Pattern.CharSet)
  | anchor (a : Pattern.Anchor)
  | seq (p q : Pattern)
  | alt (p q : Pattern)
  | many (p : Pattern) (least : Nat) (most : Option Nat)
deriving Repr, Inhabited

namespace Pattern

abbrev Places := List Nat

def Places.merge : Places → Places → Places
  | [], ys => ys
  | xs, [] => xs
  | x :: xs, y :: ys =>
    if x < y then x :: merge xs (y :: ys)
    else if y < x then y :: merge (x :: xs) ys
    else x :: merge xs ys

def Places.times (step : Places → Places) : Nat → Places → Places
  | 0, places => places
  | count + 1, places =>
    let next := step places
    if next = places then places else times step count next

def Places.upTo (step : Places → Places) : Nat → Places → Places
  | 0, places => places
  | count + 1, places =>
    let more := merge places (step places)
    if more = places then places else upTo step count more

def wordAround (text : Array Char) (place : Nat) : Bool × Bool :=
  let at? (i : Nat) : Bool := (text[i]?.map isWord).getD false
  (place != 0 && at? (place - 1), at? place)

def Anchor.holds (text : Array Char) (place : Nat) : Anchor → Bool
  | .textStart => place == 0
  | .textEnd => place == text.size
  | .lineStart carriage =>
    place == 0 || text[place - 1]? == some '\n'
      || (carriage && text[place - 1]? == some '\r' && text[place]? != some '\n')
  | .lineEnd carriage =>
    place == text.size
      || (text[place]? == some '\n' && !(carriage && place != 0 && text[place - 1]? == some '\r'))
      || (carriage && text[place]? == some '\r')
  | .wordBoundary => let (a, b) := wordAround text place; a != b
  | .notWordBoundary => let (a, b) := wordAround text place; a == b
  | .wordStart => let (a, b) := wordAround text place; !a && b
  | .wordEnd => let (a, b) := wordAround text place; a && !b
  | .wordStartHalf => !(wordAround text place).1
  | .wordEndHalf => !(wordAround text place).2

-- Moves the places where a match may begin to the places where it may end. So the answer depends on no
-- order of search.
def advance (text : Array Char) : Pattern → Places → Places
  | .empty, places => places
  | .set s, places =>
    places.filterMap fun i =>
      match text[i]? with
      | some c => if s.contains c then some (i + 1) else none
      | none => none
  | .anchor a, places => places.filter fun i => a.holds text i
  | .seq p q, places => advance text q (advance text p places)
  | .alt p q, places => Places.merge (advance text p places) (advance text q places)
  | .many p least most, places =>
    let started := Places.times (advance text p) least places
    Places.upTo (advance text p)
      (match most with
        | some most => most - least
        | none => text.size + 1)
      started

def matchesIn (p : Pattern) (text : String) : Bool :=
  let chars := text.toList.toArray
  p.advance chars (List.range (chars.size + 1)) != []

def stepSize : Nat := 32

def sizeLimit : Nat := 10 * 1024 * 1024

def CharSet.steps : CharSet → Nat
  | .range _ _ => 1
  | .folded _ _ => 1
  | .word => 1600
  | .digit => 250
  | .blank => 20
  | .category _ _ => 1500
  | .property _ => 1600
  | .listed spans => 4 * spans.length
  | .caseless s => 2 * s.steps
  | .none => 1
  | .not s => s.steps + 4
  | .union a b => a.steps + b.steps
  | .inter a b => a.steps + b.steps

def steps : Pattern → Nat
  | .empty => 1
  | .set s => s.steps
  | .anchor _ => 1
  | .seq p q => p.steps + q.steps
  | .alt p q => p.steps + q.steps + 1
  | .many p least most =>
    match most with
    | some most => p.steps * most + (most - least)
    | none => p.steps * max least 1 + 2

def fits (p : Pattern) : Bool := p.steps * stepSize ≤ sizeLimit

end Pattern
end LanguageRelay
