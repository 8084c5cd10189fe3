import LanguageRelay.Datum.Basic
import LanguageRelay.Text.Split
import LanguageRelay.Text.Units
namespace LanguageRelay.Document

structure Position where
  line : Nat
  character : Nat
deriving DecidableEq, Repr, Inhabited

structure Range where
  start : Position
  stop : Position
deriving DecidableEq, Repr, Inhabited

def Position.read? : Datum.Reader Position := fun d => do
  let fields ← Datum.record? ["line", "character"] false d
  let line ← fields.need "line" (Datum.natural? Text.greatest32)
  let character ← fields.need "character" (Datum.natural? Text.greatest32)
  return ⟨line, character⟩

def Range.read? : Datum.Reader Range := fun d => do
  let fields ← Datum.record? ["start", "end"] false d
  let start ← fields.need "start" Position.read?
  let stop ← fields.need "end" Position.read?
  return ⟨start, stop⟩

def lineStart? : Nat → List Char → Option Nat
  | 0, _ => some 0
  | _ + 1, [] => none
  | line + 1, c :: rest =>
    (if c = '\n' then lineStart? line rest else lineStart? (line + 1) rest).map (· + 1)

def column : Nat → List Char → Nat
  | _, [] => 0
  | units, c :: rest => if units = 0 ∨ c = '\n' then 0 else column (units - Text.units c) rest + 1

-- A line past the last one is the end of the text, a column past the end of its line the end of that line,
-- and a column inside a character its end.
def offset (text : List Char) (position : Position) : Nat :=
  match lineStart? position.line text with
  | none => text.length
  | some start => start + column position.character (text.drop start)

def lines (text : List Char) : List (List Char) := Text.splitOn '\n' text

def wrap (n : Nat) : Nat := n % 0x100000000

def fullRange (text : List Char) : Range :=
  let all := lines text
  ⟨⟨0, 0⟩, ⟨wrap (all.length - 1), wrap (Text.unitCount (all.getLast?.getD []))⟩⟩

end LanguageRelay.Document
