import LanguageRelay.Datum.Json
import LanguageRelay.Proofs.Json.Scanning
namespace LanguageRelay.Json
open Text

namespace Syntax

variable {stack : List Frame} {first second : List Token}

theorem Reader.run_append {r : Reader} :
    r.run (first ++ second) = (r.run first).bind (Reader.run · second) := by
  induction first generalizing r with
  | nil => rfl
  | cons token rest ih =>
    simp only [List.cons_append, Reader.run]
    cases r.push token with
    | none => rfl
    | some next => exact ih

-- No tree begins with the end of a list, so behind an opening bracket it is read as anywhere else.
theorem Reader.run_itemOrClose (tree : Syntax) {items : List Syntax} :
    Reader.run ⟨.list items :: stack, .itemOrClose⟩ (tree.tokens ++ second) =
      Reader.run ⟨.list items :: stack, .value⟩ (tree.tokens ++ second) := by
  cases tree <;> rfl

theorem Reader.run_key {done : List (Codes × Syntax)} {key : Codes} :
    Reader.run ⟨stack, .key done⟩ (.text key :: .colon :: second) =
      Reader.run ⟨.object done key :: stack, .value⟩ second := rfl

theorem Reader.run_comma_item {done : List Syntax} {item : Syntax} :
    Reader.run (Reader.deliver (.list done :: stack) item) (.comma :: second) =
      Reader.run ⟨.list (item :: done) :: stack, .value⟩ second := rfl

theorem Reader.run_comma_member {done : List (Codes × Syntax)} {key : Codes} {item : Syntax} :
    Reader.run (Reader.deliver (.object done key :: stack) item) (.comma :: second) =
      Reader.run ⟨stack, .key ((key, item) :: done)⟩ second := rfl

theorem Reader.run_closeList {done : List Syntax} {item : Syntax} :
    Reader.run (Reader.deliver (.list done :: stack) item) [.closeList] =
      some (Reader.deliver stack (.list (item :: done).reverse)) := rfl

theorem Reader.run_closeObject {done : List (Codes × Syntax)} {key : Codes} {item : Syntax} :
    Reader.run (Reader.deliver (.object done key :: stack) item) [.closeObject] =
      some (Reader.deliver stack (.object ((key, item) :: done).reverse)) := rfl

theorem itemsTokens_cons {item next : Syntax} {rest : List Syntax} :
    itemsTokens (item :: next :: rest) = item.tokens ++ .comma :: itemsTokens (next :: rest) := rfl

theorem membersTokens_cons {key : Codes} {item : Syntax} {next : Codes × Syntax}
    {rest : List (Codes × Syntax)} : membersTokens ((key, item) :: next :: rest) =
      .text key :: .colon :: (item.tokens ++ .comma :: membersTokens (next :: rest)) := rfl

mutual
theorem Reader.run_tokens : ∀ (stack : List Frame) (tree : Syntax),
    Reader.run ⟨stack, .value⟩ tree.tokens = some (Reader.deliver stack tree)
  | _, .null => rfl
  | _, .bool _ => rfl
  | _, .number _ => rfl
  | _, .text _ => rfl
  | _, .list [] => rfl
  | stack, .list (item :: rest) => by
    have opens : Reader.run ⟨stack, .value⟩ (Syntax.list (item :: rest)).tokens =
        Reader.run ⟨.list [] :: stack, .itemOrClose⟩ (itemsTokens (item :: rest) ++ [.closeList]) := rfl
    rw [opens]
    refine Eq.trans ?_ (Reader.run_items stack [] (item :: rest) (by simp))
    cases rest with
    | nil => exact Reader.run_itemOrClose item
    | cons next rest =>
      rw [itemsTokens_cons, List.append_assoc]
      exact Reader.run_itemOrClose item
  | _, .object [] => rfl
  | stack, .object ((key, item) :: rest) => by
    have opens : Reader.run ⟨stack, .value⟩ (Syntax.object ((key, item) :: rest)).tokens =
        Reader.run ⟨stack, .keyOrClose⟩ (membersTokens ((key, item) :: rest) ++ [.closeObject]) := rfl
    rw [opens]
    refine Eq.trans ?_ (Reader.run_members stack [] ((key, item) :: rest) (by simp))
    cases rest <;> rfl
theorem Reader.run_items : ∀ (stack : List Frame) (done items : List Syntax), items ≠ [] →
    Reader.run ⟨.list done :: stack, .value⟩ (itemsTokens items ++ [.closeList]) =
      some (Reader.deliver stack (.list (done.reverse ++ items)))
  | _, _, [], filled => absurd rfl filled
  | stack, done, [item], _ => by
    rw [itemsTokens, Reader.run_append, Reader.run_tokens, Option.bind_some, Reader.run_closeList,
      List.reverse_cons]
  | stack, done, item :: next :: rest, _ => by
    rw [itemsTokens_cons, List.append_assoc, Reader.run_append, Reader.run_tokens, Option.bind_some,
      List.cons_append, Reader.run_comma_item,
      Reader.run_items stack (item :: done) (next :: rest) (by simp), List.reverse_cons,
      List.append_assoc, List.singleton_append]
theorem Reader.run_members : ∀ (stack : List Frame) (done members : List (Codes × Syntax)), members ≠ [] →
    Reader.run ⟨stack, .key done⟩ (membersTokens members ++ [.closeObject]) =
      some (Reader.deliver stack (.object (done.reverse ++ members)))
  | _, _, [], filled => absurd rfl filled
  | stack, done, [(key, item)], _ => by
    rw [membersTokens, List.cons_append, List.cons_append, Reader.run_key, Reader.run_append,
      Reader.run_tokens, Option.bind_some, Reader.run_closeObject, List.reverse_cons]
  | stack, done, (key, item) :: next :: rest, _ => by
    rw [membersTokens_cons, List.cons_append, List.cons_append, Reader.run_key, List.append_assoc,
      Reader.run_append, Reader.run_tokens, Option.bind_some, List.cons_append, Reader.run_comma_member,
      Reader.run_members stack ((key, item) :: done) (next :: rest) (by simp), List.reverse_cons,
      List.append_assoc, List.singleton_append]
end

theorem ofTokens?_tokens (tree : Syntax) : ofTokens? tree.tokens = some tree := by
  have run : Reader.start.run tree.tokens = some (Reader.deliver [] tree) := Reader.run_tokens [] tree
  rw [ofTokens?, run]
  rfl

theorem read?_render {v : Value} (integral : v.isIntegral) : read? v.render = some v.tree := by
  rw [read?, Value.render, String.toList_ofList, tokens?_chars integral, Option.bind_some, ofTokens?_tokens]

end Syntax

theorem Literal.le_foldl (s : Nat) (digits : List Nat) : s ≤ digits.foldl (fun n d => n * 10 + d) s := by
  induction digits generalizing s with
  | nil => exact Nat.le_refl s
  | cons d rest ih => exact Nat.le_trans (by omega) (ih (s * 10 + d))

theorem Literal.absorb_of_lt {s : Nat} {digits : List Nat}
    (fits : digits.foldl (fun n d => n * 10 + d) s < 0x10000000000000000) :
    absorb s digits = (digits.foldl (fun n d => n * 10 + d) s, []) := by
  induction digits generalizing s with
  | nil => rfl
  | cons d rest ih =>
    have below : s * 10 + d < 0x10000000000000000 := Nat.lt_of_le_of_lt (le_foldl _ rest) fits
    rw [absorb, if_pos below, List.foldl_cons]
    exact ih fits

theorem Literal.natOf_decimal (n : Nat) : natOf (decimal n) = n := by
  have value := Nat.ofDigitChars_ten_toDigits (n := n)
  rw [Nat.ofDigitChars_eq_foldl] at value
  simpa [natOf, decimal, List.foldl_map, Nat.mul_comm] using value

theorem ofLiteral?_literal {n : Int} (low : -0x8000000000000000 ≤ n) (high : n < 0x10000000000000000) :
    Number.ofLiteral? (literal n) = some (.integer n) := by
  have value := Literal.natOf_decimal n.natAbs
  have fits : Literal.natOf (decimal n.natAbs) < 0x10000000000000000 := by omega
  have whole : Literal.absorb 0 (decimal n.natAbs) = (n.natAbs, []) := by
    rw [Literal.absorb_of_lt fits]
    exact congrArg (·, []) value
  simp only [Number.ofLiteral?, literal, whole, and_self, if_true, Literal.integer]
  by_cases below : n < 0
  · have range : 0 < n.natAbs ∧ n.natAbs ≤ 0x8000000000000000 := by omega
    have value : -(n.natAbs : Int) = n := by omega
    rw [decide_eq_true below, Bool.not_true, if_neg Bool.false_ne_true, if_pos range, value]
  · have value : (n.natAbs : Int) = n := by omega
    rw [decide_eq_false below, Bool.not_false, if_pos rfl, value]

theorem no_surrogate (c : Char) : isHighSurrogate c.toNat = false ∧ isLowSurrogate c.toNat = false := by
  have valid := c.valid
  simp only [isHighSurrogate, isLowSurrogate, Bool.and_eq_false_iff, decide_eq_false_iff_not]
  have cases : c.toNat < 0xD800 ∨ 0xDFFF < c.toNat ∧ c.toNat < 0x110000 := valid
  omega

theorem charsOfCodes?_map (found chars : List Char) :
    charsOfCodes? found (chars.map Char.toNat) = some (found.reverse ++ chars) := by
  induction chars generalizing found with
  | nil => simp [charsOfCodes?]
  | cons c rest ih =>
    obtain ⟨high, low⟩ := no_surrogate c
    cases rest with
    | nil => simp [charsOfCodes?, high, low]
    | cons next rest =>
      have later := ih (c :: found)
      simp only [List.map_cons] at later ⊢
      rw [charsOfCodes?, high, low, if_neg (by simp), if_neg (by simp), Char.ofNat_toNat, later]
      simp

theorem textOfCodes?_codesOf (s : String) : textOfCodes? (codesOf s) = some s := by
  simp [textOfCodes?, codesOf, charsOfCodes?_map]

mutual
theorem ofSyntax_tree : ∀ v : Value, v.isIntegral → Datum.ofSyntax v.tree = Datum.ofValue v
  | .null, _ => rfl
  | .bool _, _ => rfl
  | .number (.integer n), integral => by
    have range : -0x8000000000000000 ≤ n ∧ n < 0x10000000000000000 := by
      simpa [Value.isIntegral] using integral
    rw [Value.tree, Datum.ofSyntax, ofLiteral?_literal range.1 range.2, Datum.ofValue]
  | .text s, _ => by rw [Value.tree, Datum.ofSyntax, textOfCodes?_codesOf, Datum.ofValue]
  | .list items, integral => by
    rw [Value.tree, Datum.ofSyntax, ofSyntaxItems_trees items integral, Datum.ofValue]
  | .object members, integral => by
    rw [Value.tree, Datum.ofSyntax, ofSyntaxMembers_trees members integral, Datum.ofValue]
theorem ofSyntaxItems_trees : ∀ items : List Value, areIntegral items →
    Datum.ofSyntaxItems (treesOf items) = Datum.ofValues items
  | [], _ => rfl
  | v :: rest, integral => by
    have integral : v.isIntegral ∧ areIntegral rest := by
      simpa only [areIntegral, Bool.and_eq_true] using integral
    rw [treesOf, Datum.ofSyntaxItems, ofSyntax_tree v integral.1, ofSyntaxItems_trees rest integral.2,
      Datum.ofValues]
theorem ofSyntaxMembers_trees : ∀ members : List (String × Value), membersAreIntegral members →
    Datum.ofSyntaxMembers (memberTrees members) = some (Datum.ofMembers members)
  | [], _ => rfl
  | (k, v) :: rest, integral => by
    have integral : v.isIntegral ∧ membersAreIntegral rest := by
      simpa only [membersAreIntegral, Bool.and_eq_true] using integral
    rw [memberTrees, Datum.ofSyntaxMembers, textOfCodes?_codesOf, ofSyntax_tree v integral.1,
      ofSyntaxMembers_trees rest integral.2, Datum.ofMembers]
    rfl
end

theorem readJson?_render {α : Type} (read : Datum.Reader α) {v : Value} (integral : v.isIntegral) :
    Datum.readJson? read v.render = read (Datum.ofValue v) := by
  rw [Datum.readJson?, Syntax.read?_render integral, Option.map_some, Option.bind_some,
    ofSyntax_tree v integral]

end LanguageRelay.Json
