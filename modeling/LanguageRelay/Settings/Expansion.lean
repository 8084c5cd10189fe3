import LanguageRelay.Datum.Basic
import LanguageRelay.Host.Environment
namespace LanguageRelay.Settings

def closing? : List Char → Option (List Char × List Char)
  | [] => none
  | c :: rest =>
    if c = '\x7d' then some ([], rest) else (closing? rest).map fun r => (c :: r.1, r.2)

theorem closing?_length {chars name rest : List Char} (h : closing? chars = some (name, rest)) :
    rest.length < chars.length := by
  induction chars generalizing name with
  | nil => simp [closing?] at h
  | cons c cs ih =>
    unfold closing? at h
    split at h
    · simp only [Option.some.injEq, Prod.mk.injEq] at h
      simp [← h.2]
    · obtain ⟨r, hr, h⟩ := Option.map_eq_some_iff.1 h
      simp only [Prod.mk.injEq] at h
      have := @ih r.1 (by rw [hr, ← h.2])
      simp; omega

-- What has been put in is not looked at again, and a reference that is not closed stays as it is.
def expandChars (value : List Char → List Char) : List Char → List Char
  | [] => []
  | '$' :: '\x7b' :: rest =>
    match _closed : closing? rest with
    | none => '$' :: '\x7b' :: rest
    | some (name, after) => value name ++ expandChars value after
  | c :: rest => c :: expandChars value rest
termination_by chars => chars.length
decreasing_by
  · have := closing?_length _closed
    simp; omega
  · simp

-- The value that a reference stands for. A variable that is not set stands for nothing.
def valueOf (host : Host) (name : List Char) : List Char :=
  ((host.valueOf? (String.ofList name)).getD "").toList

def expand (host : Host) (text : String) : String :=
  String.ofList (expandChars (valueOf host) text.toList)

mutual
-- A datum with every text in it changed. Keys stay as they are.
def mapTexts (f : String → String) : Datum → Datum
  | .text s => .text (f s)
  | .list items => .list (mapItems f items)
  | .table pairs => .table (mapPairs f pairs)
  | d => d

def mapItems (f : String → String) : List Datum → List Datum
  | [] => []
  | d :: rest => mapTexts f d :: mapItems f rest

def mapPairs (f : String → String) : List (String × Datum) → List (String × Datum)
  | [] => []
  | (key, d) :: rest => (key, mapTexts f d) :: mapPairs f rest
end

end LanguageRelay.Settings
