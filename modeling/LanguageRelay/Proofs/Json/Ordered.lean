import LanguageRelay.Json.Reader
import LanguageRelay.Proofs.Keyed
namespace LanguageRelay.Json

-- Every object in a value has its members in the order of their keys.
inductive Value.Ordered : Value → Prop where
  | null : Ordered .null
  | bool (b : Bool) : Ordered (.bool b)
  | number (n : Number) : Ordered (.number n)
  | text (s : String) : Ordered (.text s)
  | list {items : List Value} : (∀ v ∈ items, Ordered v) → Ordered (.list items)
  | object {members : Keyed Value} : members.Ascends → (∀ e ∈ members, Ordered e.2) →
    Ordered (.object members)

theorem Value.Ordered.ascends {members : Keyed Value} (ordered : Ordered (.object members)) :
    members.Ascends := by
  cases ordered with
  | object ascends _ => exact ascends

theorem Value.Ordered.of_find? {members : Keyed Value} {key : String} {member : Value}
    (ordered : Ordered (.object members)) (found : Keyed.find? key members = some member) :
    member.Ordered := by
  cases ordered with
  | object _ below => exact below _ (Keyed.mem_of_find? found)

mutual
theorem Value.ordered_of_ofSyntax? : ∀ (depth : Nat) (tree : Syntax) {v : Value},
    Value.ofSyntax? depth tree = some v → v.Ordered
  | _, .null, _, read => by cases read; exact .null
  | _, .bool b, _, read => by cases read; exact .bool b
  | _, .number _, _, read => by
    obtain ⟨n, -, rfl⟩ := Option.map_eq_some_iff.1 read
    exact .number n
  | _, .text _, _, read => by
    obtain ⟨s, -, rfl⟩ := Option.map_eq_some_iff.1 read
    exact .text s
  | 0, .list _, _, read => nomatch read
  | inner + 1, .list items, _, read => by
    obtain ⟨values, some, rfl⟩ := Option.map_eq_some_iff.1 read
    exact .list (ordered_of_valuesOfSyntax? inner items some)
  | 0, .object _, _, read => nomatch read
  | inner + 1, .object members, _, read => by
    obtain ⟨bindings, some, rfl⟩ := Option.map_eq_some_iff.1 read
    have below := ordered_of_membersOfSyntax? inner members some
    exact .object (Keyed.ascends_ofList bindings) fun e member => below e (Keyed.mem_of_mem_ofList member)
theorem Value.ordered_of_valuesOfSyntax? : ∀ (depth : Nat) (items : List Syntax) {values : List Value},
    valuesOfSyntax? depth items = some values → ∀ v ∈ values, v.Ordered
  | _, [], _, read => by cases read; exact fun _ member => nomatch member
  | depth, item :: rest, _, read => by
    rw [valuesOfSyntax?] at read
    split at read
    case h_1 v first =>
      obtain ⟨others, later, rfl⟩ := Option.map_eq_some_iff.1 read
      intro w member
      rcases List.mem_cons.1 member with rfl | member
      · exact ordered_of_ofSyntax? depth item first
      · exact ordered_of_valuesOfSyntax? depth rest later w member
    case h_2 => cases read
theorem Value.ordered_of_membersOfSyntax? : ∀ (depth : Nat) (members : List (Codes × Syntax))
    {bindings : List (String × Value)}, membersOfSyntax? depth members = some bindings →
    ∀ e ∈ bindings, e.2.Ordered
  | _, [], _, read => by cases read; exact fun _ member => nomatch member
  | depth, (key, item) :: rest, _, read => by
    rw [membersOfSyntax?] at read
    split at read
    case h_1 k v _ first =>
      obtain ⟨others, later, rfl⟩ := Option.map_eq_some_iff.1 read
      intro e member
      rcases List.mem_cons.1 member with rfl | member
      · exact ordered_of_ofSyntax? depth item first
      · exact ordered_of_membersOfSyntax? depth rest later e member
    case h_2 => cases read
end

theorem Value.ordered_of_read? {text : String} {v : Value} (read : Value.read? text = some v) :
    v.Ordered := by
  obtain ⟨tree, -, built⟩ := Option.bind_eq_some_iff.1 read
  exact ordered_of_ofSyntax? greatestDepth tree built

end LanguageRelay.Json
