namespace LanguageRelay

-- Finite maps as pairs in the order of their keys, so that maps with the same bindings are equal.
abbrev Keyed (α : Type) := List (String × α)

namespace Keyed
variable {α β : Type}

def insert (key : String) (value : α) : Keyed α → Keyed α
  | [] => [(key, value)]
  | (k, v) :: rest =>
    if key < k then (key, value) :: (k, v) :: rest
    else if key = k then (key, value) :: rest
    else (k, v) :: insert key value rest

def erase (key : String) (map : Keyed α) : Keyed α := map.filter fun e => e.1 != key

def find? (key : String) : Keyed α → Option α
  | [] => none
  | (k, v) :: rest => if k = key then some v else find? key rest

def ofList (bindings : List (String × α)) : Keyed α :=
  bindings.foldl (fun map e => insert e.1 e.2 map) []

def override (map later : Keyed α) : Keyed α := later.foldl (fun m e => insert e.1 e.2 m) map

def keys (map : Keyed α) : List String := map.map Prod.fst

def mapValues (f : α → β) (map : Keyed α) : Keyed β := map.map fun e => (e.1, f e.2)

theorem find?_insert (key other : String) (value : α) (map : Keyed α) :
    find? other (insert key value map) = if key = other then some value else find? other map := by
  induction map with
  | nil => simp [insert, find?]
  | cons entry rest ih =>
    obtain ⟨k, v⟩ := entry
    by_cases before : key < k
    · simp only [insert, before, if_true, find?]
    · by_cases same : key = k
      · subst same
        simp only [insert, before, if_true, if_false, find?]
        split <;> rfl
      · simp only [insert, before, same, if_false, find?, ih]
        by_cases here : k = other
        · subst here
          simp [same]
        · simp [here]

end Keyed
end LanguageRelay
