import LanguageRelay.Document.Position
namespace LanguageRelay.Document

structure Change where
  text : String
  range : Option Range
deriving DecidableEq, Repr, Inhabited

def Change.read? : Datum.Reader Change := fun d => do
  let fields ← Datum.record? ["text", "range"] false d
  let text ← fields.need "text" Datum.text?
  let range ← fields.orElse "range" none (Datum.optional? Range.read?)
  return ⟨text, range⟩

-- When the second place comes first, nothing is taken out.
def splice (text new : List Char) (start stop : Nat) : List Char :=
  text.take start ++ new ++ text.drop (max start stop)

def applyChange (text : List Char) (change : Change) : List Char :=
  match change.range with
  | none => change.text.toList
  | some range => splice text change.text.toList (offset text range.start) (offset text range.stop)

def applyChanges (text : List Char) (changes : List Change) : List Char :=
  changes.foldl applyChange text

end LanguageRelay.Document
