import LanguageRelay.Json.Printer
import LanguageRelay.Json.Syntax
import LanguageRelay.Proofs.Text.Plain
namespace LanguageRelay.Json
open Token Text

def decimal (n : Nat) : List Nat := (Nat.toDigits 10 n).map fun c => c.toNat - '0'.toNat

def literal (n : Int) : Literal := ⟨n < 0, decimal n.natAbs, [], none⟩

def codesOf (s : String) : Codes := s.toList.map Char.toNat

-- The tokens of a tree, as they are written.
mutual
def Syntax.tokens : Syntax → List Token
  | .null => [.null]
  | .bool b => [.bool b]
  | .number l => [.number l]
  | .text codes => [.text codes]
  | .list items => .openList :: itemsTokens items ++ [.closeList]
  | .object members => .openObject :: membersTokens members ++ [.closeObject]
def itemsTokens : List Syntax → List Token
  | [] => []
  | [item] => item.tokens
  | item :: rest => item.tokens ++ .comma :: itemsTokens rest
def membersTokens : List (Codes × Syntax) → List Token
  | [] => []
  | [(key, item)] => .text key :: .colon :: item.tokens
  | (key, item) :: rest => .text key :: .colon :: item.tokens ++ .comma :: membersTokens rest
end

-- No number of the value is a double, and all integers are within 64 bits, signed or unsigned.
mutual
def Value.isIntegral : Value → Bool
  | .number (.integer n) => -0x8000000000000000 ≤ n ∧ n < 0x10000000000000000
  | .number (.double _) => false
  | .list items => areIntegral items
  | .object members => membersAreIntegral members
  | _ => true
def areIntegral : List Value → Bool
  | [] => true
  | v :: rest => v.isIntegral && areIntegral rest
def membersAreIntegral : List (String × Value) → Bool
  | [] => true
  | (_, v) :: rest => v.isIntegral && membersAreIntegral rest
end

theorem areIntegral_iff (items : List Value) : areIntegral items ↔ ∀ v ∈ items, v.isIntegral := by
  induction items with
  | nil => simp [areIntegral]
  | cons v rest ih => simp [areIntegral, ih]

theorem membersAreIntegral_iff (members : List (String × Value)) :
    membersAreIntegral members ↔ ∀ e ∈ members, e.2.isIntegral := by
  induction members with
  | nil => simp [membersAreIntegral]
  | cons e rest ih => simp [membersAreIntegral, ih]

-- The tree of an integral value. Of a double nothing is said here.
mutual
def Value.tree : Value → Syntax
  | .null => .null
  | .bool b => .bool b
  | .number (.integer n) => .number (literal n)
  | .number (.double _) => .null
  | .text s => .text (codesOf s)
  | .list items => .list (treesOf items)
  | .object members => .object (memberTrees members)
def treesOf : List Value → List Syntax
  | [] => []
  | v :: rest => v.tree :: treesOf rest
def memberTrees : List (String × Value) → List (Codes × Syntax)
  | [] => []
  | (k, v) :: rest => (codesOf k, v.tree) :: memberTrees rest
end

namespace Token

variable {found : List Token} {codes : Codes} {c : Char} {s : Scan} {first second : List Char}

theorem Scan.run_append : Scan.run s (first ++ second) = (Scan.run s first).bind (Scan.run · second) := by
  induction first generalizing s with
  | nil => rfl
  | cons c rest ih =>
    simp only [List.cons_append, Scan.run]
    cases s.push c with
    | none => rfl
    | some next => exact ih

theorem Scan.run_cons : Scan.run s (c :: second) = (s.push c).bind (Scan.run · second) := by
  simp only [Scan.run]
  cases s.push c <;> rfl

-- What has been read can be taken for the tokens: at the end of the text, and before a comma or the end
-- of a container.
structure Scan.Stands (s : Scan) (found : List Token) : Prop where
  finish : s.finish = some found.reverse
  push : ∀ c ∈ [',', ']', '\x7d'], s.push c = Scan.between found c

theorem Scan.stands_between : Scan.Stands ⟨.between, found⟩ found := ⟨rfl, fun _ _ => rfl⟩

theorem hexDigit?_hexChar : ∀ d < 16, hexDigit? (hexChar d) = some d := by decide

theorem run_control (small : c.toNat < 0x20) :
    Scan.run ⟨.string codes, found⟩
      ['\\', 'u', '0', '0', hexChar (c.toNat / 16), hexChar (c.toNat % 16)] =
        some ⟨.string (c.toNat :: codes), found⟩ := by
  have high := hexDigit?_hexChar (c.toNat / 16) (by omega)
  have low := hexDigit?_hexChar (c.toNat % 16) (by omega)
  have zero : hexDigit? '0' = some 0 := rfl
  simp [Scan.run, Scan.push, zero, high, low]
  omega

-- However a character is written in a string, it is read as itself.
theorem run_escapeChar (c : Char) :
    Scan.run ⟨.string codes, found⟩ (escapeChar c) = some ⟨.string (c.toNat :: codes), found⟩ := by
  unfold escapeChar
  split
  · rfl
  · rfl
  · rfl
  · rfl
  · rfl
  · rfl
  · rfl
  · rename_i quote backslash _ _ _ _ _
    split
    · rename_i small
      exact run_control small
    · rename_i large
      have quote : c ≠ '"' := quote
      have backslash : c ≠ '\\' := backslash
      simp only [Scan.run, Scan.push, quote, backslash, large, if_false]

theorem run_escaped (chars : List Char) :
    Scan.run ⟨.string codes, found⟩ (chars.flatMap escapeChar) =
      some ⟨.string ((chars.map Char.toNat).reverse ++ codes), found⟩ := by
  induction chars generalizing codes with
  | nil => rfl
  | cons c rest ih =>
    rw [List.flatMap_cons, Scan.run_append, run_escapeChar, Option.bind_some, ih]
    simp

theorem run_quote (s : String) :
    Scan.run ⟨.between, found⟩ (quote s) = some ⟨.between, .text (codesOf s) :: found⟩ := by
  have opens : Scan.push ⟨.between, found⟩ '"' = some ⟨.string [], found⟩ := rfl
  rw [quote, List.cons_append, Scan.run_cons, opens, Option.bind_some, Scan.run_append, run_escaped,
    Option.bind_some]
  simp [Scan.run, Scan.push, codesOf]

theorem toDigits_cons (n : Nat) :
    ∃ first rest, Nat.toDigits 10 n = first :: rest ∧ first.isDigit ∧ (∀ d ∈ rest, d.isDigit) ∧
      (first = '0' → n = 0 ∧ rest = []) := by
  have digits : ∀ c ∈ Nat.toDigits 10 n, c.isDigit := fun c member => isDigit_of_mem member
  obtain ⟨first, rest, split⟩ := List.exists_cons_of_ne_nil (Nat.toDigits_ne_nil (n := n) (b := 10))
  rw [split] at digits
  refine ⟨first, rest, split, digits first List.mem_cons_self,
    fun d member => digits d (List.mem_cons_of_mem _ member), ?_⟩
  induction n using Nat.strongRecOn generalizing rest with
  | ind n ih =>
    rcases Nat.lt_or_ge n 10 with small | large
    · rw [Nat.toDigits_of_lt_base small] at split
      obtain ⟨rfl, rfl⟩ := List.cons.inj split
      have zero : ∀ n < 10, Nat.digitChar n = '0' → n = 0 := by decide
      exact fun same => ⟨zero n small same, rfl⟩
    · rw [Nat.toDigits_of_base_le (by decide) large] at split
      obtain ⟨head, tail, front⟩ :=
        List.exists_cons_of_ne_nil (Nat.toDigits_ne_nil (n := n / 10) (b := 10))
      rw [front, List.cons_append] at split
      obtain ⟨rfl, rfl⟩ := List.cons.inj split
      intro zero
      have within : ∀ c ∈ head :: tail, c.isDigit := fun c member => isDigit_of_mem (front ▸ member)
      have below := ih (n / 10) (by omega) tail within front zero
      omega

theorem between_digit (digit : c.isDigit) :
    Scan.between found c = some
      ⟨.number (if c = '0' then .zero else .whole) ⟨false, [c.toNat - '0'.toNat], [], none⟩, found⟩ := by
  have range : 48 ≤ c.toNat ∧ c.toNat ≤ 57 := by
    simpa [Char.isDigit, UInt32.le_iff_toNat_le] using digit
  have other : ∀ d : Char, d.toNat < 48 ∨ 57 < d.toNat → c ≠ d := by
    rintro d outside rfl
    omega
  have upper : c.isLower = false := by
    have lower : c.isLower = (decide ('a' ≤ c) && decide (c ≤ 'z')) := rfl
    have below : ¬ 'a' ≤ c := by
      rw [Char.le_def, UInt32.le_iff_toNat_le]
      show ¬ 97 ≤ c.toNat
      omega
    rw [lower, decide_eq_false below, Bool.false_and]
  have zero : c.toNat - '0'.toNat = 0 ↔ c = '0' := by
    rw [← Char.toNat_inj]
    show c.toNat - 48 = 0 ↔ c.toNat = 48
    omega
  have blank : isBlank c = false := by
    simp [isBlank, other ' ' (by decide), other '\t' (by decide), other '\n' (by decide),
      other '\r' (by decide)]
  simp only [Scan.between, blank, other '\x7b' (by decide), other '\x7d' (by decide),
    other '[' (by decide), other ']' (by decide), other ',' (by decide), other ':' (by decide),
    other '"' (by decide), other '-' (by decide), upper, digit?, digit, if_true, if_false,
    Option.map_some, zero]
  simp

theorem run_digits {l : Literal} {digits : List Char} (all : ∀ d ∈ digits, d.isDigit) :
    Scan.run ⟨.number .whole l, found⟩ digits = some ⟨.number .whole
      { l with whole := (digits.map fun c => c.toNat - '0'.toNat).reverse ++ l.whole }, found⟩ := by
  induction digits generalizing l with
  | nil => rfl
  | cons d rest ih =>
    have digit : d.isDigit := all d List.mem_cons_self
    have step : Scan.push ⟨.number .whole l, found⟩ d =
        some ⟨.number .whole { l with whole := (d.toNat - '0'.toNat) :: l.whole }, found⟩ := by
      simp [Scan.push, Literal.Part.next?, digit, Literal.push, Literal.addDigit]
    rw [Scan.run_cons, step, Option.bind_some, ih fun e member => all e (List.mem_cons_of_mem _ member)]
    simp

theorem stands_number {part : Literal.Part} {l : Literal} (whole : part = .zero ∨ part = .whole) :
    Scan.Stands ⟨.number part l, found⟩ (.number l.inOrder :: found) := by
  refine ⟨?_, fun c member => ?_⟩
  · rcases whole with rfl | rfl <;> rfl
  · simp only [List.mem_cons, List.not_mem_nil, or_false] at member
    rcases whole with rfl | rfl <;> rcases member with rfl | rfl | rfl <;> rfl

-- Where a digit begins a number, a decimal is read to its end.
theorem run_decimal {negative : Bool} (n : Nat)
    (begins : ∀ c : Char, c.isDigit → s.push c = some
      ⟨.number (if c = '0' then .zero else .whole) ⟨negative, [c.toNat - '0'.toNat], [], none⟩, found⟩) :
    ∃ t, Scan.run s (Nat.toDigits 10 n) = some t ∧
      t.Stands (.number ⟨negative, decimal n, [], none⟩ :: found) := by
  obtain ⟨first, rest, split, digit, digits, zero⟩ := toDigits_cons n
  rw [decimal, split, Scan.run_cons, begins first digit, Option.bind_some]
  by_cases zeroed : first = '0'
  · obtain ⟨-, rfl⟩ := zero zeroed
    rw [if_pos zeroed]
    exact ⟨_, rfl, stands_number (.inl rfl)⟩
  · rw [if_neg zeroed, run_digits digits]
    refine ⟨_, rfl, ?_⟩
    have stands : Scan.Stands ⟨.number .whole ⟨negative, (rest.map fun c => c.toNat - '0'.toNat).reverse ++
        [first.toNat - '0'.toNat], [], none⟩, found⟩ _ := stands_number (.inr rfl)
    simpa [Literal.inOrder] using stands

-- Wherever these characters begin, they are these tokens when they end.
def Reads (chars : List Char) (tokens : List Token) : Prop :=
  ∀ found, ∃ s, Scan.run ⟨.between, found⟩ chars = some s ∧ s.Stands (tokens.reverse ++ found)

theorem stands_word {letters : List Char} {word : Token} (known : ofWord letters = some word) :
    Scan.Stands ⟨.word letters, found⟩ (word :: found) := by
  refine ⟨by simp [Scan.finish, known], fun c member => ?_⟩
  have upper : c.isLower = false := by
    simp only [List.mem_cons, List.not_mem_nil, or_false] at member
    rcases member with rfl | rfl | rfl <;> rfl
  simp [Scan.push, upper, known]

theorem Reads.nil : Reads [] [] := fun _ => ⟨_, rfl, Scan.stands_between⟩

theorem Reads.mark {mark : Token} {tokens : List Token}
    (single : ∀ found, Scan.between found c = some ⟨.between, mark :: found⟩)
    (rest : Reads second tokens) : Reads (c :: second) (mark :: tokens) := by
  intro found
  obtain ⟨s, run, stands⟩ := rest (mark :: found)
  refine ⟨s, ?_, by simpa using stands⟩
  have step : Scan.push ⟨.between, found⟩ c = some ⟨.between, mark :: found⟩ := single found
  rw [Scan.run_cons, step, Option.bind_some, run]

theorem Reads.append {mark : Token} {before after : List Token} (ends : c ∈ [',', ']', '\x7d'])
    (single : ∀ found, Scan.between found c = some ⟨.between, mark :: found⟩)
    (front : Reads first before) (rest : Reads second after) :
    Reads (first ++ c :: second) (before ++ mark :: after) := by
  intro found
  obtain ⟨s, run, stands⟩ := front found
  obtain ⟨t, runs, stand⟩ := rest (mark :: (before.reverse ++ found))
  refine ⟨t, ?_, by simpa using stand⟩
  rw [Scan.run_append, run, Option.bind_some, Scan.run_cons, stands.push c ends, single,
    Option.bind_some, runs]

theorem Reads.quoted (s : String) {tokens : List Token} (rest : Reads second tokens) :
    Reads (quote s ++ second) (.text (codesOf s) :: tokens) := by
  intro found
  obtain ⟨t, runs, stands⟩ := rest (.text (codesOf s) :: found)
  refine ⟨t, ?_, by simpa using stands⟩
  rw [Scan.run_append, run_quote, Option.bind_some, runs]

theorem Reads.integer (n : Int) : Reads (Number.integer n).chars [.number (literal n)] := by
  intro found
  by_cases below : n < 0
  · have sign : Scan.push ⟨.between, found⟩ '-' = some ⟨.number .sign ⟨true, [], [], none⟩, found⟩ := rfl
    have chars : (Number.integer n).chars = '-' :: Nat.toDigits 10 n.natAbs := if_pos below
    have value : literal n = ⟨true, decimal n.natAbs, [], none⟩ := by simp [literal, below]
    rw [chars, value, Scan.run_cons, sign, Option.bind_some]
    refine run_decimal n.natAbs fun c digit => ?_
    by_cases zero : c = '0' <;>
      simp [Scan.push, Literal.Part.next?, zero, digit, Literal.push, Literal.addDigit]
  · have chars : (Number.integer n).chars = Nat.toDigits 10 n.natAbs := if_neg below
    have value : literal n = ⟨false, decimal n.natAbs, [], none⟩ := by simp [literal, below]
    rw [chars, value]
    exact run_decimal n.natAbs fun c digit => between_digit digit

mutual
theorem Reads.value : ∀ v : Value, v.isIntegral → Reads v.chars v.tree.tokens
  | .null, _ => fun found => ⟨⟨.word ['l', 'l', 'u', 'n'], found⟩, rfl, stands_word rfl⟩
  | .bool true, _ => fun found => ⟨⟨.word ['e', 'u', 'r', 't'], found⟩, rfl, stands_word rfl⟩
  | .bool false, _ => fun found => ⟨⟨.word ['e', 's', 'l', 'a', 'f'], found⟩, rfl, stands_word rfl⟩
  | .number (.integer n), _ => Reads.integer n
  | .text s, _ => by
    rw [Value.chars, Value.tree, Syntax.tokens, ← List.append_nil (quote s)]
    exact .quoted s .nil
  | .list items, integral =>
    .mark (fun _ => rfl) (.append (by decide) (fun _ => rfl) (Reads.items items integral) .nil)
  | .object members, integral =>
    .mark (fun _ => rfl) (.append (by decide) (fun _ => rfl) (Reads.members members integral) .nil)
theorem Reads.items : ∀ items : List Value, areIntegral items →
    Reads (itemsChars items) (itemsTokens (treesOf items))
  | [], _ => .nil
  | [v], integral => Reads.value v (by simpa [areIntegral] using integral)
  | v :: w :: rest, integral => by
    have integral : v.isIntegral ∧ areIntegral (w :: rest) := by
      simpa only [areIntegral, Bool.and_eq_true] using integral
    exact .append (by decide) (fun _ => rfl) (Reads.value v integral.1) (Reads.items (w :: rest) integral.2)
theorem Reads.members : ∀ members : List (String × Value), membersAreIntegral members →
    Reads (membersChars members) (membersTokens (memberTrees members))
  | [], _ => .nil
  | [(k, v)], integral =>
    .quoted k (.mark (fun _ => rfl) (Reads.value v (by simpa [membersAreIntegral] using integral)))
  | (k, v) :: next :: rest, integral => by
    have integral : v.isIntegral ∧ membersAreIntegral (next :: rest) := by
      simpa only [membersAreIntegral, Bool.and_eq_true] using integral
    have front : Reads (quote k ++ ':' :: v.chars) (.text (codesOf k) :: .colon :: v.tree.tokens) :=
      .quoted k (.mark (fun _ => rfl) (Reads.value v integral.1))
    exact .append (by decide) (fun _ => rfl) front (Reads.members (next :: rest) integral.2)
end

end Token

theorem tokens?_chars {v : Value} (integral : v.isIntegral) : tokens? v.chars = some v.tree.tokens := by
  obtain ⟨s, run, stands⟩ := Token.Reads.value v integral []
  have start : Token.Scan.start.run v.chars = some s := run
  rw [tokens?, start, Option.bind_some, stands.finish]
  simp

end LanguageRelay.Json
