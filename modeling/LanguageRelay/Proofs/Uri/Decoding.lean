import Mathlib.Data.List.Induction
import LanguageRelay.Proofs.Path.Bytes
import LanguageRelay.Proofs.Path.Lexical
import LanguageRelay.Proofs.Text.Plain
import LanguageRelay.Proofs.Uri.Segments
import LanguageRelay.Uri.FilePath
namespace LanguageRelay.Uri
open LanguageRelay.Path LanguageRelay.Text
variable {a b : UInt8} {bytes : Bytes}

theorem hexDigit?_cases {c : Char} {digit : Nat} (found : hexDigit? c = some digit) :
    digit < 10 ∧ c.toNat = 48 + digit ∨
      10 ≤ digit ∧ digit < 16 ∧ (c.toNat = 87 + digit ∨ c.toNat = 55 + digit) := by
  unfold hexDigit? at found
  split at found
  · rename_i decimal
    cases found
    simp [Char.isDigit, UInt32.le_iff_toNat_le] at decimal
    have zero : '0'.toNat = 48 := rfl
    omega
  · split at found
    · rename_i range
      cases found
      simp [Char.le_def, UInt32.le_iff_toNat_le] at range
      have small : 'a'.toNat = 97 := rfl
      omega
    · split at found
      · rename_i range
        cases found
        simp [Char.le_def, UInt32.le_iff_toNat_le] at range
        have large : 'A'.toNat = 65 := rfl
        omega
      · cases found

theorem digits_of_byte {x y low : Nat} (first : hexDigit? (Char.ofNat a.toNat) = some x)
    (second : hexDigit? (Char.ofNat b.toNat) = some y) (value : (x * 16 + y).toUInt8.toNat = 32 + low)
    (letter : 10 ≤ low) (digit : low < 16) :
    a.toNat = 50 ∧ (b.toNat = 87 + low ∨ b.toNat = 55 + low) := by
  have high := hexDigit?_cases first
  have last := hexDigit?_cases second
  rw [toNat_ofNat_byte] at high last
  simp only [Nat.toUInt8_eq, UInt8.toNat_ofNat'] at value
  omega

def HoldsSlash (bytes : Bytes) : Prop :=
  0x2F ∈ bytes ∨ [0x25, 0x32, 0x66] <:+: bytes ∨ [0x25, 0x32, 0x46] <:+: bytes

theorem HoldsSlash.of_suffix {part : Bytes} (inside : part <:+ bytes) (holds : HoldsSlash part) :
    HoldsSlash bytes := by
  rcases holds with plain | small | large
  · exact .inl (inside.subset plain)
  · exact .inr (.inl (small.trans inside.isInfix))
  · exact .inr (.inr (large.trans inside.isInfix))

theorem holdsSlash_of_percentDecode (member : 0x2F ∈ percentDecode bytes) : HoldsSlash bytes := by
  fun_induction percentDecode bytes with
  | case1 a b rest x y second first ih =>
    rcases List.mem_cons.1 member with here | later
    · have value : (x * 16 + y).toUInt8.toNat = 32 + 15 := by rw [← here]; rfl
      obtain ⟨two, low⟩ := digits_of_byte first second value (by decide) (by decide)
      obtain rfl : a = 0x32 := UInt8.toNat_inj.1 two
      rcases low with small | large
      · obtain rfl : b = 0x66 := UInt8.toNat_inj.1 small
        exact .inr (.inl ⟨[], rest, rfl⟩)
      · obtain rfl : b = 0x46 := UInt8.toNat_inj.1 large
        exact .inr (.inr ⟨[], rest, rfl⟩)
    · exact (ih later).of_suffix ⟨[0x25, a, b], rfl⟩
  | case2 a b rest other ih =>
    rcases List.mem_cons.1 member with here | later
    · cases here
    · exact (ih later).of_suffix (List.suffix_cons _ _)
  | case3 c rest other ih =>
    rcases List.mem_cons.1 member with rfl | later
    · exact .inl List.mem_cons_self
    · exact (ih later).of_suffix (List.suffix_cons _ _)
  | case4 => cases member

theorem encodedSlash_of_percentDecode {segment : List Char} (noSlash : '/' ∉ segment)
    (member : 0x2F ∈ percentDecode (utf8 (String.ofList segment))) : EncodedSlash segment := by
  rcases holdsSlash_of_percentDecode member with plain | small | large
  · have inside : ['/'] <:+: segment :=
      isInfix_of_utf8 (by decide) ((List.singleton_infix_iff _ _).2 plain)
    exact absurd (inside.subset List.mem_cons_self) noSlash
  · exact .inl (isInfix_of_utf8 (by decide) small)
  · exact .inr (isInfix_of_utf8 (by decide) large)

-- The ways to write a dot.
def dots : List (List Char) := [['.'], ['%', '2', 'e'], ['%', '2', 'E']]

theorem dot_of_percentDecode {rest : Bytes} (decoded : percentDecode bytes = 0x2E :: rest) :
    ∃ dot ∈ dots, ∃ more, bytes = (dot.map fun c => c.toNat.toUInt8) ++ more ∧
      percentDecode more = rest := by
  fun_induction percentDecode bytes with
  | case1 a b more x y second first _ =>
    obtain ⟨here, last⟩ := List.cons.inj decoded
    have value : (x * 16 + y).toUInt8.toNat = 32 + 14 := by rw [here]; rfl
    obtain ⟨two, low⟩ := digits_of_byte first second value (by decide) (by decide)
    obtain rfl : a = 0x32 := UInt8.toNat_inj.1 two
    rcases low with small | large
    · obtain rfl : b = 0x65 := UInt8.toNat_inj.1 small
      exact ⟨['%', '2', 'e'], by decide, more, rfl, last⟩
    · obtain rfl : b = 0x45 := UInt8.toNat_inj.1 large
      exact ⟨['%', '2', 'E'], by decide, more, rfl, last⟩
  | case2 a b more other _ => cases (List.cons.inj decoded).1
  | case3 c more other _ =>
    obtain ⟨rfl, last⟩ := List.cons.inj decoded
    exact ⟨['.'], by decide, more, rfl, last⟩
  | case4 => cases decoded

theorem percentDecode_eq_nil (decoded : percentDecode bytes = []) : bytes = [] := by
  fun_induction percentDecode bytes with
  | case1 => cases decoded
  | case2 => cases decoded
  | case3 => cases decoded
  | case4 => rfl

theorem plainDots_of_percentDecode {segment : List Char}
    (decoded : percentDecode (utf8 (String.ofList segment)) = [0x2E, 0x2E]) :
    plainDots segment = ['.', '.'] := by
  have plain : ∀ dot ∈ dots, IsPlain dot := by decide
  have pairs : ∀ first ∈ dots, ∀ second ∈ dots, plainDots (first ++ second) = ['.', '.'] := by decide
  obtain ⟨first, one, more, whole, later⟩ := dot_of_percentDecode decoded
  obtain ⟨rest, rfl, following⟩ := chars_of_utf8 (plain first one) whole
  rw [← following] at later
  obtain ⟨second, two, more, whole, later⟩ := dot_of_percentDecode later
  obtain rfl := percentDecode_eq_nil later
  obtain ⟨last, rfl, none⟩ := chars_of_utf8 (plain second two) whole
  have empty : last = [] := String.ofList_injective (utf8_inj none)
  rw [empty, List.append_nil]
  exact pairs first one second two

theorem parts_of_segments (segments : List (List Char)) (decode : List Char → Bytes) :
    splitOn '/' (charsOf 0 (segments.flatMap fun s => 0x2F :: decode s)) =
      [] :: segments.flatMap fun s => splitOn '/' (charsOf 0 (decode s)) := by
  induction segments using List.reverseRecOn with
  | nil => rfl
  | append_singleton segments last ih =>
    have slash : Char.ofNat (0x2F : UInt8).toNat = '/' := rfl
    rw [List.flatMap_append, List.flatMap_singleton, charsOf_append (by decide) (Nat.zero_le _), slash,
      splitOn_append, ih, List.flatMap_append, List.flatMap_singleton]
    rfl

theorem isAbsolute_of_filePath? {text path : String} (found : filePath? text = some path)
    (present : path ≠ "") : Path.isAbsolute path := by
  have starts : ∀ rest, Path.isAbsolute (ofBytes (0x2F :: rest)) := by
    intro rest
    rw [ofBytes, charsOf, front?_of_plain (by decide), Path.isAbsolute, String.toList_ofList]
    rfl
  obtain ⟨bytes, read, rfl⟩ := Option.map_eq_some_iff.1 found
  obtain ⟨location, -, there⟩ := Option.bind_eq_some_iff.1 read
  rw [Location.pathBytes?] at there
  split at there
  · cases whole : location.segments with
    | nil =>
      rw [whole] at there
      cases there
      exact absurd rfl present
    | cons first others =>
      rw [whole, List.flatMap_cons, List.cons_append] at there
      dsimp only at there
      split at there <;> cases there
      · exact starts _
      · exact starts _
  · cases there

theorem encodedSlash_of_part {text segment : List Char} (tame : Tame text segment)
    (part : ['.', '.'] ∈ splitOn '/' (charsOf 0 (percentDecode (utf8 (String.ofList segment))))) :
    EncodedSlash segment := by
  by_cases decoded : 0x2F ∈ percentDecode (utf8 (String.ofList segment))
  · exact encodedSlash_of_percentDecode tame.noSlash decoded
  · have whole : '/' ∉ charsOf 0 (percentDecode (utf8 (String.ofList segment))) :=
      fun member => decoded (mem_of_mem_charsOf (by decide) member)
    rw [splitOn_of_not_mem whole, List.mem_singleton] at part
    have plain : IsPlain ['.', '.'] := by decide
    have bytes := bytes_of_isPlain (part ▸ plain)
    rw [← part] at bytes
    exact absurd (plainDots_of_percentDecode bytes) tame.noParent

theorem encodedSlash_of_parent {text path : String} (found : filePath? text = some path)
    (parent : Path.Component.parent ∈ Path.components path) : EncodedSlash (clean text.toList) := by
  obtain ⟨bytes, there, rfl⟩ := Option.map_eq_some_iff.1 found
  obtain ⟨location, read, there⟩ := Option.bind_eq_some_iff.1 there
  have part := Path.mem_splitOn_of_parent parent
  have split := parts_of_segments location.segments fun s => percentDecode (utf8 (String.ofList s))
  have among : ['.', '.'] ∈ ([] : List Char) :: location.segments.flatMap fun s =>
      splitOn '/' (charsOf 0 (percentDecode (utf8 (String.ofList s)))) := by
    rw [← split]
    simp only [Location.pathBytes?] at there
    split at there
    · cases there
      rw [ofBytes, String.toList_ofList] at part
      split at part
      · rw [charsOf_append (by decide) (Nat.zero_le _)] at part
        have slash : Char.ofNat (0x2F : UInt8).toNat = '/' := rfl
        rw [slash, splitOn_append] at part
        exact (List.mem_append.1 part).resolve_right (by decide)
      · exact part
    · cases there
  have found := (List.mem_cons.1 among).resolve_left (List.cons_ne_nil _ _)
  obtain ⟨segment, member, part⟩ := List.mem_flatMap.1 found
  have tame := tame_of_mem_segments read member
  exact tame.traced (encodedSlash_of_part tame part)

end LanguageRelay.Uri
