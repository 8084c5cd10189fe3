import LanguageRelay.Path.Bytes
import LanguageRelay.Proofs.Text.Plain
namespace LanguageRelay.Path
open Text
variable {bytes front back : Bytes} {byte : UInt8} {c : Char} {left : Nat}

theorem isStray_of_lt (plain : c.toNat < 0x80) : isStray c = false :=
  decide_eq_false (by omega)

theorem encoded_ofNat (plain : byte.toNat < 0x80) :
    String.utf8EncodeChar (Char.ofNat byte.toNat) = [byte] := by
  have value := toNat_ofNat_byte byte
  rw [utf8EncodeChar_of_lt (by omega), value, Nat.toUInt8_eq, UInt8.ofNat_toNat]

theorem isStray_strayChar (long : 0x80 ≤ byte.toNat) : isStray (strayChar byte) ∧
    bytesOf (strayChar byte) = [byte] := by
  have small : byte.toNat < 256 := byte.toNat_lt
  have valid : (0x10FF00 + byte.toNat).isValidChar := .inr ⟨by omega, by omega⟩
  have value : (strayChar byte).toNat = 0x10FF00 + byte.toNat := by
    rw [strayChar, Char.ofNat, dif_pos valid]
    rfl
  have stray : isStray (strayChar byte) := decide_eq_true (by omega)
  refine ⟨stray, ?_⟩
  rw [bytesOf, if_pos stray, value, Nat.add_sub_cancel_left, Nat.toUInt8_eq, UInt8.ofNat_toNat]

-- The character at the front is the one whose bytes stand there.
theorem front?_eq_some_iff :
    front? bytes = some c ↔ String.utf8EncodeChar c <+: bytes ∧ isStray c = false := by
  have short : (String.utf8EncodeChar c).length ≤ 4 := by
    rw [String.length_utf8EncodeChar]
    exact c.utf8Size_le_four
  rw [front?, Option.filter_eq_some_iff, Bool.not_eq_true']
  refine and_congr_left fun _ => ⟨fun read => ?_, fun stands => ?_⟩
  · obtain ⟨later, whole⟩ := ByteArray.exists_of_utf8DecodeChar?_eq_some read
    have parts := congrArg (fun array => array.data.toList) whole
    simp only [ByteArray.data_append, List.data_toByteArray, Array.toList_append] at parts
    have stands : String.utf8EncodeChar c <+: bytes.take 4 := ⟨_, parts.symm⟩
    exact stands.trans (List.take_prefix 4 bytes)
  · obtain ⟨later, whole⟩ := List.prefix_take_iff.2 ⟨stands, short⟩
    rw [← whole, List.toByteArray_append]
    exact ByteArray.utf8DecodeChar?_utf8EncodeChar_append

theorem front?_of_plain (plain : byte.toNat < 0x80) (rest : Bytes) :
    front? (byte :: rest) = some (Char.ofNat byte.toNat) := by
  have value := toNat_ofNat_byte byte
  refine front?_eq_some_iff.2 ⟨?_, isStray_of_lt (by omega)⟩
  rw [encoded_ofNat plain]
  exact ⟨rest, rfl⟩

theorem prefix_of_prefix_append (plain : byte.toNat < 0x80) (present : front ≠ [])
    (stands : String.utf8EncodeChar c <+: front ++ byte :: back) : String.utf8EncodeChar c <+: front := by
  rcases List.prefix_or_prefix_of_prefix stands (List.prefix_append front _) with inside | ⟨more, whole⟩
  · exact inside
  · cases more with
    | nil =>
      have same : front = String.utf8EncodeChar c := (List.append_nil _).symm.trans whole
      exact same ▸ List.prefix_rfl
    | cons other more =>
      rw [← whole, List.prefix_append_right_inj] at stands
      obtain ⟨_, same⟩ := stands
      obtain ⟨rfl, _⟩ := List.cons.inj same
      have inside : other ∈ String.utf8EncodeChar c := by simp [← whole]
      by_cases short : c.toNat < 0x80
      · rw [utf8EncodeChar_of_lt short] at whole
        obtain ⟨empty, -⟩ | ⟨_, -, none⟩ := List.append_eq_cons_iff.1 whole
        · exact absurd empty present
        · exact absurd none (by simp)
      · exact absurd (le_of_mem_utf8EncodeChar (Nat.le_of_not_lt short) inside) (Nat.not_le.2 plain)

theorem front?_append (plain : byte.toNat < 0x80) (present : front ≠ []) (back : Bytes) :
    front? (front ++ byte :: back) = front? front := by
  refine Option.ext fun c => ?_
  rw [front?_eq_some_iff, front?_eq_some_iff]
  refine and_congr_left fun _ => ⟨prefix_of_prefix_append plain present, fun stands => ?_⟩
  exact stands.trans (List.prefix_append _ _)

theorem append_of_front? {rest : Bytes} (begins : front? (byte :: rest) = some c) :
    byte :: rest = String.utf8EncodeChar c ++ rest.drop (c.utf8Size - 1) ∧
      c.utf8Size - 1 ≤ rest.length := by
  obtain ⟨⟨later, whole⟩, -⟩ := front?_eq_some_iff.1 begins
  have length := String.length_utf8EncodeChar c
  cases encoded : String.utf8EncodeChar c with
  | nil => rw [encoded] at length; exact absurd length.symm (Nat.ne_of_gt c.utf8Size_pos)
  | cons first others =>
    rw [encoded, List.length_cons] at length
    rw [encoded, List.cons_append] at whole
    obtain ⟨rfl, rfl⟩ := List.cons.inj whole
    have size : c.utf8Size - 1 = others.length := by omega
    rw [size, List.drop_left, List.length_append]
    exact ⟨rfl, Nat.le_add_right _ _⟩

theorem flatMap_charsOf (inside : left ≤ bytes.length) :
    (charsOf left bytes).flatMap bytesOf = bytes.drop left := by
  induction bytes generalizing left with
  | nil => cases left <;> rfl
  | cons byte rest ih =>
    cases left with
    | succ left => exact ih (Nat.le_of_succ_le_succ inside)
    | zero =>
      rw [charsOf]
      cases begins : front? (byte :: rest) with
      | some c =>
        obtain ⟨whole, within⟩ := append_of_front? begins
        have plain := (front?_eq_some_iff.1 begins).2
        simp only [List.flatMap_cons, ih within, List.drop_zero]
        rw [whole, bytesOf, if_neg (by simp [plain])]
      | none =>
        have long : 0x80 ≤ byte.toNat := Nat.le_of_not_lt fun plain => by
          rw [front?_of_plain plain] at begins
          cases begins
        simp only [List.flatMap_cons, (isStray_strayChar long).2, ih (Nat.zero_le _)]
        rfl

theorem toBytes_ofBytes (bytes : Bytes) : toBytes (ofBytes bytes) = bytes := by
  rw [toBytes, ofBytes, String.toList_ofList, flatMap_charsOf (Nat.zero_le _)]
  rfl

theorem ofBytes_injective : Function.Injective ofBytes :=
  Function.LeftInverse.injective toBytes_ofBytes

theorem charsOf_skip (front back : Bytes) : charsOf front.length (front ++ back) = charsOf 0 back := by
  induction front with
  | nil => rfl
  | cons byte front ih => exact ih

theorem charsOf_encoded (proper : isStray c = false) (rest : Bytes) :
    charsOf 0 (String.utf8EncodeChar c ++ rest) = c :: charsOf 0 rest := by
  have length := String.length_utf8EncodeChar c
  have begins : front? (String.utf8EncodeChar c ++ rest) = some c :=
    front?_eq_some_iff.2 ⟨List.prefix_append _ _, proper⟩
  cases encoded : String.utf8EncodeChar c with
  | nil => rw [encoded] at length; exact absurd length.symm (Nat.ne_of_gt c.utf8Size_pos)
  | cons first others =>
    rw [encoded] at length begins
    have size : c.utf8Size - 1 = others.length := by rw [← length, List.length_cons, Nat.add_sub_cancel]
    rw [List.cons_append] at begins ⊢
    simp only [charsOf, begins, size, charsOf_skip]

theorem ofText_of_proper {text : String} (proper : ∀ c ∈ text.toList, isStray c = false) :
    ofText text = text := by
  have read : ∀ chars : List Char, (∀ c ∈ chars, isStray c = false) →
      charsOf 0 (chars.flatMap String.utf8EncodeChar) = chars := by
    intro chars proper
    induction chars with
    | nil => rfl
    | cons c rest ih =>
      rw [List.flatMap_cons, charsOf_encoded (proper c List.mem_cons_self),
        ih fun d member => proper d (List.mem_cons_of_mem _ member)]
  rw [ofText, ofBytes, utf8_eq_flatMap, read _ proper, String.ofList_toList]

theorem charsOf_append (plain : byte.toNat < 0x80) (inside : left ≤ front.length) (back : Bytes) :
    charsOf left (front ++ byte :: back) =
      charsOf left front ++ Char.ofNat byte.toNat :: charsOf 0 back := by
  induction front generalizing left with
  | nil =>
    obtain rfl := Nat.le_zero.1 inside
    have value := toNat_ofNat_byte byte
    have encoded := encoded_ofNat plain
    have whole := charsOf_encoded (isStray_of_lt (c := Char.ofNat byte.toNat) (by omega)) back
    rwa [encoded] at whole
  | cons first front ih =>
    cases left with
    | succ left => exact ih (Nat.le_of_succ_le_succ inside)
    | zero =>
      have same := front?_append plain (List.cons_ne_nil first front) back
      rw [List.cons_append] at same ⊢
      rw [charsOf, charsOf, same]
      cases begins : front? (first :: front) with
      | some c => exact congrArg (c :: ·) (ih (append_of_front? begins).2)
      | none => exact congrArg (strayChar first :: ·) (ih (Nat.zero_le _))

theorem bytesOf_of_lt (plain : c.toNat < 0x80) : bytesOf c = [c.toNat.toUInt8] := by
  rw [bytesOf, if_neg (by simp [isStray_of_lt plain]), utf8EncodeChar_of_lt plain]

theorem mem_of_mem_charsOf (plain : c.toNat < 0x80) (member : c ∈ charsOf 0 bytes) :
    c.toNat.toUInt8 ∈ bytes := by
  have whole := flatMap_charsOf (Nat.zero_le bytes.length)
  rw [List.drop_zero] at whole
  rw [← whole]
  refine List.mem_flatMap.2 ⟨c, member, ?_⟩
  rw [bytesOf_of_lt plain]
  exact List.mem_singleton_self _

theorem flatMap_bytesOf {chars : List Char} (plain : IsPlain chars) :
    chars.flatMap bytesOf = chars.map fun c => c.toNat.toUInt8 := by
  induction chars with
  | nil => rfl
  | cons c rest ih =>
    rw [List.flatMap_cons, bytesOf_of_lt (plain c List.mem_cons_self),
      ih fun d member => plain d (List.mem_cons_of_mem _ member)]
    rfl

theorem bytes_of_isPlain (plain : IsPlain (charsOf 0 bytes)) :
    bytes = (charsOf 0 bytes).map fun c => c.toNat.toUInt8 := by
  have whole := flatMap_charsOf (Nat.zero_le bytes.length)
  rw [List.drop_zero] at whole
  exact whole.symm.trans (flatMap_bytesOf plain)

end LanguageRelay.Path
