import LanguageRelay.Datum.Json
namespace LanguageRelay

namespace Datum

variable {α : Type} {names : List String} {closed : Bool} {found pairs : Fields}

def Fields.Distinct (pairs : Fields) : Prop := pairs.Pairwise fun earlier later => earlier.1 ≠ later.1

theorem fieldsOfPairs?_eq (known : ∀ p ∈ pairs, p.1 ∈ names)
    (apart : pairs.Distinct)
    (fresh : ∀ p ∈ pairs, found.lookup p.1 = none) :
    fieldsOfPairs? names closed found pairs = some (pairs.reverse ++ found) := by
  induction pairs generalizing found with
  | nil => rfl
  | cons pair rest ih =>
    obtain ⟨key, d⟩ := pair
    obtain ⟨first, later⟩ := List.pairwise_cons.1 apart
    have here : key ∈ names := known (key, d) List.mem_cons_self
    have new : found.lookup key = none := fresh (key, d) List.mem_cons_self
    have fresh : ∀ p ∈ rest, List.lookup p.1 ((key, d) :: found) = none := by
      intro p member
      have other : (p.1 == key) = false := beq_eq_false_iff_ne.2 (first p member).symm
      rw [List.lookup_cons, other]
      exact fresh p (List.mem_cons_of_mem _ member)
    rw [fieldsOfPairs?, if_pos here, new, Option.isSome_none, if_neg Bool.false_ne_true,
      ih (fun p member => known p (List.mem_cons_of_mem _ member)) later fresh]
    simp

theorem record?_table (known : ∀ p ∈ pairs, p.1 ∈ names)
    (apart : pairs.Distinct) :
    record? names closed (.table pairs) = some pairs.reverse := by
  rw [record?, fieldsOfPairs?_eq known apart fun _ _ => rfl, List.append_nil]

theorem lookup_reverse_of_mem (apart : pairs.Distinct)
    {name : String} {d : Datum} (member : (name, d) ∈ pairs) : pairs.reverse.lookup name = some d := by
  induction pairs with
  | nil => cases member
  | cons pair rest ih =>
    obtain ⟨first, later⟩ := List.pairwise_cons.1 apart
    rw [List.reverse_cons, List.lookup_append]
    rcases List.mem_cons.1 member with rfl | inside
    · have gone : rest.reverse.lookup name = none := List.lookup_eq_none_iff.2 fun p listed =>
        bne_iff_ne.2 (first p (List.mem_reverse.1 listed))
      simp [gone]
    · rw [ih later inside, Option.some_or]

theorem need_of_mem {read : Reader α} (apart : pairs.Distinct)
    {name : String} {d : Datum} (member : (name, d) ∈ pairs) :
    Fields.need pairs.reverse name read = read d := by
  rw [Fields.need, lookup_reverse_of_mem apart member, Option.bind_some]

theorem orElse_of_mem {read : Reader α} {default : α}
    (apart : pairs.Distinct)
    {name : String} {d : Datum} (member : (name, d) ∈ pairs) :
    Fields.orElse pairs.reverse name default read = read d := by
  rw [Fields.orElse, lookup_reverse_of_mem apart member]

theorem orElse_of_missing {read : Reader α} {default : α} {name : String}
    (missing : ∀ p ∈ pairs, p.1 ≠ name) : Fields.orElse pairs.reverse name default read = some default := by
  have gone : pairs.reverse.lookup name = none := List.lookup_eq_none_iff.2 fun p listed =>
    bne_iff_ne.2 (missing p (List.mem_reverse.1 listed)).symm
  rw [Fields.orElse, gone]

theorem list?_map {read : Reader α} (write : α → Datum) {items : List α}
    (back : ∀ x ∈ items, read (write x) = some x) : list? read (.list (items.map write)) = some items := by
  rw [list?]
  induction items with
  | nil => rfl
  | cons x rest ih =>
    rw [List.map_cons, List.mapM_cons, back x List.mem_cons_self,
      ih fun y member => back y (List.mem_cons_of_mem _ member)]
    rfl

theorem table?_map {read : Reader α} (write : α → Datum) {bindings : List (String × α)}
    (back : ∀ e ∈ bindings, read (write e.2) = some e.2) :
    table? read (.table (bindings.map fun e => (e.1, write e.2))) = some bindings := by
  rw [table?]
  induction bindings with
  | nil => rfl
  | cons e rest ih =>
    rw [List.map_cons, List.mapM_cons, back e List.mem_cons_self,
      ih fun other member => back other (List.mem_cons_of_mem _ member)]
    rfl

theorem ofValues_eq (items : List Json.Value) : ofValues items = items.map ofValue := by
  induction items with
  | nil => rfl
  | cons v rest ih => rw [ofValues, ih, List.map_cons]

theorem ofMembers_eq (members : List (String × Json.Value)) :
    ofMembers members = members.map fun e => (e.1, ofValue e.2) := by
  induction members with
  | nil => rfl
  | cons e rest ih => rw [ofMembers, ih, List.map_cons]

end Datum

end LanguageRelay
