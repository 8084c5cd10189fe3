import Mathlib.Data.List.TakeWhile
import LanguageRelay.Text.Blank
import LanguageRelay.Text.Bytes
import LanguageRelay.Text.Natural
namespace LanguageRelay.Text

theorem length_utf8 (text : String) : (utf8 text).length = byteLength text := by
  simp [utf8, byteLength, String.toUTF8]

theorem utf8_eq_flatMap (text : String) : utf8 text = text.toList.flatMap String.utf8EncodeChar := by
  have encoded := String.utf8Encode_toList (b := text)
  simp only [utf8, String.toUTF8, ← encoded, List.utf8Encode]
  simp

def IsPlain (chars : List Char) : Prop := ∀ c ∈ chars, c.toNat < 128

instance (chars : List Char) : Decidable (IsPlain chars) :=
  List.decidableBAll _ chars

theorem IsPlain.append {first second : List Char} (front : IsPlain first) (back : IsPlain second) :
    IsPlain (first ++ second) := by
  intro c member
  rcases List.mem_append.1 member with inside | inside
  · exact front c inside
  · exact back c inside

theorem utf8EncodeChar_of_lt {c : Char} (plain : c.toNat < 128) :
    String.utf8EncodeChar c = [c.toNat.toUInt8] := by
  have one : c.utf8Size = 1 := by
    have small : c.val ≤ 0x7f := by
      rw [UInt32.le_iff_toNat_le]; exact Nat.le_of_lt_succ plain
    simp [Char.utf8Size, small]
  rw [String.utf8EncodeChar_eq_singleton one]
  rfl

theorem utf8_ofList {chars : List Char} (plain : IsPlain chars) :
    utf8 (String.ofList chars) = chars.map fun c => c.toNat.toUInt8 := by
  rw [utf8_eq_flatMap, String.toList_ofList]
  induction chars with
  | nil => rfl
  | cons c rest ih =>
    rw [List.flatMap_cons, utf8EncodeChar_of_lt (plain c List.mem_cons_self),
      ih fun d member => plain d (List.mem_cons_of_mem _ member)]
    rfl

theorem toNat_ofNat_byte (byte : UInt8) : (Char.ofNat byte.toNat).toNat = byte.toNat := by
  have small : byte.toNat < 256 := byte.toNat_lt
  have valid : byte.toNat.isValidChar := .inl (by omega)
  rw [Char.ofNat, dif_pos valid]
  rfl

theorem toUInt8_inj {c d : Char} (first : c.toNat < 128) (second : d.toNat < 128)
    (same : c.toNat.toUInt8 = d.toNat.toUInt8) : c = d := by
  have values := congrArg UInt8.toNat same
  simp only [Nat.toUInt8_eq, UInt8.toNat_ofNat'] at values
  exact Char.toNat_inj.1 (by omega)

theorem toNat_toUInt8 {c : Char} (plain : c.toNat < 128) : c.toNat.toUInt8.toNat = c.toNat := by
  simp only [Nat.toUInt8_eq, UInt8.toNat_ofNat']
  omega

theorem le_of_mem_utf8EncodeChar {c : Char} {byte : UInt8} (long : 0x80 ≤ c.toNat)
    (member : byte ∈ String.utf8EncodeChar c) : 0x80 ≤ byte.toNat := by
  have large : ¬ c.val.toNat ≤ 0x7f := by rw [Char.toNat] at long; omega
  have valid := c.valid
  simp only [String.utf8EncodeChar, large, if_false] at member
  split at member
  · simp only [List.mem_cons, List.not_mem_nil, or_false] at member
    rcases member with rfl | rfl <;> simp <;> omega
  · split at member
    · simp only [List.mem_cons, List.not_mem_nil, or_false] at member
      rcases member with rfl | rfl | rfl <;> simp <;> omega
    · simp only [List.mem_cons, List.not_mem_nil, or_false] at member
      rcases member with rfl | rfl | rfl | rfl <;> simp <;> omega

theorem utf8_split {chars : List Char} {front back : Bytes} {byte : UInt8} (plain : byte.toNat < 0x80)
    (whole : utf8 (String.ofList chars) = front ++ byte :: back) :
    ∃ first rest, chars = first ++ Char.ofNat byte.toNat :: rest ∧
      utf8 (String.ofList first) = front ∧ utf8 (String.ofList rest) = back := by
  simp only [utf8_eq_flatMap, String.toList_ofList] at whole ⊢
  induction chars generalizing front with
  | nil => cases front <;> cases whole
  | cons c chars ih =>
    rw [List.flatMap_cons] at whole
    rcases List.append_eq_append_iff.1 whole with ⟨more, before, after⟩ | ⟨more, before, after⟩
    · obtain ⟨first, rest, rfl, led, rfl⟩ := ih after
      exact ⟨c :: first, rest, rfl, by rw [List.flatMap_cons, led, before], rfl⟩
    · cases more with
      | nil =>
        have whole : chars.flatMap String.utf8EncodeChar = [] ++ byte :: back := after.symm
        obtain ⟨first, rest, rfl, led, rfl⟩ := ih whole
        refine ⟨c :: first, rest, rfl, ?_, rfl⟩
        rw [List.flatMap_cons, led, before, List.append_nil, List.append_nil]
      | cons other more =>
        cases after
        have short : c.toNat < 0x80 := by
          refine Nat.lt_of_not_le fun long => ?_
          have inside : byte ∈ String.utf8EncodeChar c := by simp [before]
          exact absurd (le_of_mem_utf8EncodeChar long inside) (Nat.not_le.2 plain)
        rw [utf8EncodeChar_of_lt short] at before
        obtain ⟨rfl, before⟩ | ⟨front, rfl, before⟩ := List.cons_eq_append_iff.1 before
        · cases before
          refine ⟨[], chars, ?_, rfl, rfl⟩
          rw [toNat_toUInt8 short, Char.ofNat_toNat]
          rfl
        · exact absurd before (by simp)

theorem utf8_inj {first second : String} (same : utf8 first = utf8 second) : first = second := by
  have read := utf8Decode?_utf8 first
  rw [same, utf8Decode?_utf8] at read
  exact (Option.some.inj read).symm

theorem chars_of_utf8 {chars word : List Char} {back : Bytes} (plain : IsPlain word)
    (whole : utf8 (String.ofList chars) = (word.map fun c => c.toNat.toUInt8) ++ back) :
    ∃ rest, chars = word ++ rest ∧ utf8 (String.ofList rest) = back := by
  induction word generalizing chars with
  | nil => exact ⟨chars, rfl, whole⟩
  | cons c word ih =>
    have small : c.toNat < 128 := plain c List.mem_cons_self
    have value := toNat_toUInt8 small
    have begins : utf8 (String.ofList chars) =
        [] ++ c.toNat.toUInt8 :: ((word.map fun c => c.toNat.toUInt8) ++ back) := whole
    obtain ⟨first, rest, rfl, none, later⟩ := utf8_split (by omega) begins
    obtain ⟨rest, rfl, last⟩ := ih (fun d member => plain d (List.mem_cons_of_mem _ member)) later
    have empty : first = [] := String.ofList_injective (utf8_inj none)
    refine ⟨rest, ?_, last⟩
    rw [empty, value, Char.ofNat_toNat]
    rfl

theorem isInfix_of_utf8 {c : Char} {word chars : List Char} (plain : IsPlain (c :: word))
    (inside : ((c :: word).map fun c => c.toNat.toUInt8) <:+: utf8 (String.ofList chars)) :
    c :: word <:+: chars := by
  obtain ⟨front, back, whole⟩ := inside
  have value := toNat_toUInt8 (plain c List.mem_cons_self)
  have cut : utf8 (String.ofList chars) =
      front ++ c.toNat.toUInt8 :: ((word.map fun c => c.toNat.toUInt8) ++ back) := by
    rw [← whole, List.append_assoc]
    rfl
  obtain ⟨first, rest, rfl, -, later⟩ := utf8_split (by rw [value]; exact plain c List.mem_cons_self) cut
  obtain ⟨last, rfl, -⟩ := chars_of_utf8 (fun d member => plain d (List.mem_cons_of_mem _ member)) later
  rw [value, Char.ofNat_toNat]
  exact ⟨first, last, by rw [List.append_assoc]; rfl⟩

theorem lineFeed_mem_utf8 {text : String} : (10 : UInt8) ∈ utf8 text ↔ '\n' ∈ text.toList := by
  constructor
  · intro member
    obtain ⟨front, back, whole⟩ := List.append_of_mem member
    rw [← String.ofList_toList (s := text)] at whole
    obtain ⟨first, rest, chars, -, -⟩ := utf8_split (by decide) whole
    rw [chars]
    exact List.mem_append_right _ List.mem_cons_self
  · intro member
    rw [utf8_eq_flatMap]
    exact List.mem_flatMap.2 ⟨'\n', member, by decide⟩

theorem utf8_append (first second : String) : utf8 (first ++ second) = utf8 first ++ utf8 second := by
  simp only [utf8_eq_flatMap, String.toList_append, List.flatMap_append]

theorem dropBlanks_of_not_blank {c : Char} {rest : List Char} (kept : isBlank c = false) :
    dropBlanks (c :: rest) = c :: rest := by
  simp [dropBlanks, kept]

theorem dropBlanks_append {blanks rest : List Char} (blank : blanks.all isBlank) :
    dropBlanks (blanks ++ rest) = dropBlanks rest := by
  induction blanks with
  | nil => rfl
  | cons c blanks ih =>
    simp only [List.all_cons, Bool.and_eq_true] at blank
    simp only [dropBlanks, List.cons_append, List.dropWhile_cons, blank.1, if_true]
    exact ih blank.2

theorem trimChars_of_all_blank {chars : List Char} (blank : chars.all isBlank) :
    trimChars chars = [] := by
  have none : dropBlanks chars = [] := by
    have dropped : dropBlanks (chars ++ []) = dropBlanks [] := dropBlanks_append blank
    rwa [List.append_nil] at dropped
  rw [trimChars, none]; rfl

theorem trimChars_append {chars blanks : List Char} {first last : Char}
    (head : chars.head? = some first) (begins : isBlank first = false)
    (tail : chars.getLast? = some last) (ends : isBlank last = false)
    (blank : blanks.all isBlank) : trimChars (chars ++ blanks) = chars := by
  obtain ⟨rest, rfl⟩ := List.head?_eq_some_iff.1 head
  obtain ⟨front, whole⟩ := List.getLast?_eq_some_iff.1 tail
  rw [trimChars, List.cons_append, dropBlanks_of_not_blank begins, ← List.cons_append,
    List.reverse_append, dropBlanks_append (by simpa using blank), whole, List.reverse_append,
    List.reverse_singleton, List.singleton_append, dropBlanks_of_not_blank ends]
  simp

theorem trimChars_append_blanks {chars blanks : List Char} (blank : blanks.all isBlank) :
    trimChars (chars ++ blanks) = trimChars chars := by
  have none : dropBlanks blanks = [] := by
    rw [← List.append_nil blanks, dropBlanks_append blank]
    rfl
  by_cases all : (dropBlanks chars).isEmpty
  · have empty : dropBlanks chars = [] := List.isEmpty_iff.1 all
    have whole : dropBlanks (chars ++ blanks) = [] :=
      List.dropWhile_append.trans ((if_pos all).trans none)
    rw [trimChars, trimChars, whole, empty]
  · have whole : dropBlanks (chars ++ blanks) = dropBlanks chars ++ blanks :=
      List.dropWhile_append.trans (if_neg all)
    rw [trimChars, whole, List.reverse_append, dropBlanks_append (by simpa using blank)]
    rfl

theorem trimChars_ne_nil {c : Char} {chars : List Char} (kept : isBlank c = false) :
    trimChars (c :: chars) ≠ [] := by
  intro none
  rw [trimChars, dropBlanks_of_not_blank kept, List.reverse_eq_nil_iff] at none
  have all := List.dropWhile_eq_nil_iff.1 none c (by simp)
  rw [kept] at all; cases all

theorem isBlank_of_isDigit {c : Char} (digit : c.isDigit) : isBlank c = false := by
  have range : 48 ≤ c.toNat ∧ c.toNat ≤ 57 := by
    simpa [Char.isDigit, UInt32.le_iff_toNat_le] using digit
  simp only [isBlank, Bool.or_eq_false_iff, Bool.and_eq_false_iff, beq_eq_false_iff_ne,
    decide_eq_false_iff_not]
  omega

theorem lt_of_isDigit {c : Char} (digit : c.isDigit) : c.toNat < 128 := by
  have range : 48 ≤ c.toNat ∧ c.toNat ≤ 57 := by
    simpa [Char.isDigit, UInt32.le_iff_toNat_le] using digit
  omega

theorem isDigit_of_mem {n : Nat} {c : Char} (member : c ∈ Nat.toDigits 10 n) : c.isDigit :=
  Nat.isDigit_of_mem_toDigits (by decide) (by decide) member

theorem digitsValue?_toDigits (n : Nat) : digitsValue? (Nat.toDigits 10 n) = some n := by
  have digits : (Nat.toDigits 10 n).all Char.isDigit :=
    List.all_eq_true.2 fun c member => isDigit_of_mem member
  have value := Nat.ofDigitChars_ten_toDigits (n := n)
  rw [Nat.ofDigitChars_eq_foldl] at value
  rw [digitsValue?, if_pos ⟨Nat.toDigits_ne_nil, digits⟩]
  simp only [Nat.mul_comm _ 10]
  rw [value]

theorem unsigned?_toDigits {n bound : Nat} (small : n ≤ bound) :
    unsigned? bound (String.ofList (Nat.toDigits 10 n)) = some n := by
  rw [unsigned?, String.toList_ofList]
  split
  · rename_i rest same
    have digit : '+'.isDigit := isDigit_of_mem (same ▸ List.mem_cons_self)
    exact absurd digit (by decide)
  · rw [digitsValue?_toDigits]
    simp [small]

-- A decimal number up to a bound: digits, after a plus sign or not.
def IsNumeral (bound : Nat) (chars : List Char) (n : Nat) : Prop :=
  ∃ digits, (chars = digits ∨ chars = '+' :: digits) ∧ digits ≠ [] ∧ (∀ c ∈ digits, c.isDigit) ∧
    Nat.ofDigitChars 10 digits 0 = n ∧ n ≤ bound

theorem digitsValue?_eq_some_iff {chars : List Char} {n : Nat} : digitsValue? chars = some n ↔
    chars ≠ [] ∧ (∀ c ∈ chars, c.isDigit) ∧ Nat.ofDigitChars 10 chars 0 = n := by
  rw [Nat.ofDigitChars_eq_foldl, digitsValue?]
  simp only [Nat.mul_comm 10, List.all_eq_true]
  split
  · next digits => rw [Option.some.injEq, and_iff_right digits.1, and_iff_right digits.2]
  · next digits =>
    exact iff_of_false (fun none => by cases none) fun all => digits ⟨all.1, all.2.1⟩

theorem unsigned?_eq_some_iff {bound n : Nat} {chars : List Char} :
    unsigned? bound (String.ofList chars) = some n ↔ IsNumeral bound chars n := by
  rw [unsigned?, String.toList_ofList]
  simp only [Option.filter_eq_some_iff, digitsValue?_eq_some_iff, decide_eq_true_iff]
  split
  · next rest =>
    constructor
    · rintro ⟨⟨present, digits, value⟩, small⟩
      exact ⟨rest, .inr rfl, present, digits, value, small⟩
    · rintro ⟨digits, rfl | same, present, all, value, small⟩
      · have plus : '+'.isDigit := all '+' List.mem_cons_self
        exact absurd plus (by decide)
      · cases same
        exact ⟨⟨present, all, value⟩, small⟩
  · next plain =>
    constructor
    · rintro ⟨⟨present, digits, value⟩, small⟩
      exact ⟨chars, .inl rfl, present, digits, value, small⟩
    · rintro ⟨digits, rfl | same, present, all, value, small⟩
      · exact ⟨⟨present, all, value⟩, small⟩
      · exact absurd same (plain digits)

end LanguageRelay.Text
