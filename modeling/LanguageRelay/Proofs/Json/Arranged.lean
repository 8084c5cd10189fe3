import LanguageRelay.Json.Reader
import LanguageRelay.Proofs.Json.ReadBack
namespace LanguageRelay.Json

-- The value with the members of every object as a map.
mutual
def Value.arranged : Value → Value
  | .list items => .list (arrangedItems items)
  | .object members => .ofMembers (arrangedMembers members)
  | v => v
def arrangedItems : List Value → List Value
  | [] => []
  | v :: rest => v.arranged :: arrangedItems rest
def arrangedMembers : List (String × Value) → List (String × Value)
  | [] => []
  | (k, v) :: rest => (k, v.arranged) :: arrangedMembers rest
end

-- The value has no more lists and objects within each other than `depth`.
mutual
def Value.nestsWithin (depth : Nat) : Value → Bool
  | .list items =>
    match depth with
    | 0 => false
    | inner + 1 => itemsNestWithin inner items
  | .object members =>
    match depth with
    | 0 => false
    | inner + 1 => membersNestWithin inner members
  | _ => true
def itemsNestWithin (depth : Nat) : List Value → Bool
  | [] => true
  | v :: rest => v.nestsWithin depth && itemsNestWithin depth rest
def membersNestWithin (depth : Nat) : List (String × Value) → Bool
  | [] => true
  | (_, v) :: rest => v.nestsWithin depth && membersNestWithin depth rest
end

mutual
theorem ofSyntax?_tree : ∀ (depth : Nat) (v : Value), v.isIntegral → v.nestsWithin depth →
    Value.ofSyntax? depth v.tree = some v.arranged
  | _, .null, _, _ => rfl
  | _, .bool _, _, _ => rfl
  | _, .number (.integer n), integral, _ => by
    have range : -0x8000000000000000 ≤ n ∧ n < 0x10000000000000000 := by
      simpa [Value.isIntegral] using integral
    rw [Value.tree, Value.ofSyntax?, ofLiteral?_literal range.1 range.2]
    rfl
  | _, .text s, _, _ => by
    rw [Value.tree, Value.ofSyntax?, textOfCodes?_codesOf]
    rfl
  | inner + 1, .list items, integral, nests => by
    rw [Value.tree, Value.ofSyntax?, valuesOfSyntax?_trees inner items integral nests]
    rfl
  | inner + 1, .object members, integral, nests => by
    rw [Value.tree, Value.ofSyntax?, membersOfSyntax?_trees inner members integral nests]
    rfl
theorem valuesOfSyntax?_trees : ∀ (depth : Nat) (items : List Value), areIntegral items →
    itemsNestWithin depth items → valuesOfSyntax? depth (treesOf items) = some (arrangedItems items)
  | _, [], _, _ => rfl
  | depth, v :: rest, integral, nests => by
    have integral : v.isIntegral ∧ areIntegral rest := by
      simpa only [areIntegral, Bool.and_eq_true] using integral
    have nests : v.nestsWithin depth ∧ itemsNestWithin depth rest := by
      simpa only [itemsNestWithin, Bool.and_eq_true] using nests
    rw [treesOf, valuesOfSyntax?, ofSyntax?_tree depth v integral.1 nests.1,
      valuesOfSyntax?_trees depth rest integral.2 nests.2]
    rfl
theorem membersOfSyntax?_trees : ∀ (depth : Nat) (members : List (String × Value)),
    membersAreIntegral members → membersNestWithin depth members →
    membersOfSyntax? depth (memberTrees members) = some (arrangedMembers members)
  | _, [], _, _ => rfl
  | depth, (k, v) :: rest, integral, nests => by
    have integral : v.isIntegral ∧ membersAreIntegral rest := by
      simpa only [membersAreIntegral, Bool.and_eq_true] using integral
    have nests : v.nestsWithin depth ∧ membersNestWithin depth rest := by
      simpa only [membersNestWithin, Bool.and_eq_true] using nests
    rw [memberTrees, membersOfSyntax?, textOfCodes?_codesOf, ofSyntax?_tree depth v integral.1 nests.1,
      membersOfSyntax?_trees depth rest integral.2 nests.2]
    rfl
end

theorem Value.read?_render {v : Value} (integral : v.isIntegral) (nests : v.nestsWithin greatestDepth) :
    Value.read? v.render = some v.arranged := by
  rw [Value.read?, Syntax.read?_render integral, Option.bind_some, ofSyntax?_tree _ v integral nests]

end LanguageRelay.Json
