import LanguageRelay.Proofs.Document.Splicing
namespace LanguageRelay.Document
open Text
variable {text front back line : List Char} {above : List (List Char)} {first second : Position}

def positionAfter (front : List Char) : Position :=
  ⟨(lines front).length - 1, unitCount ((lines front).getLast?.getD [])⟩

-- A text whose positions can be sent.
structure Fits (text : List Char) : Prop where
  few : (lines text).length < 0x100000000
  narrow : ∀ line ∈ lines text, unitCount line < 0x100000000

structure Position.Fits (position : Position) : Prop where
  line : position.line < 0x100000000
  character : position.character < 0x100000000

instance : LE Position :=
  ⟨fun p q => p.line < q.line ∨ p.line = q.line ∧ p.character ≤ q.character⟩

theorem exists_last (front : List Char) : ∃ above line, front = ended above ++ line ∧
    lines front = above ++ [line] ∧
    ∀ back, ∃ more below, lines (front ++ back) = above ++ (line ++ more) :: below := by
  obtain ⟨above, line, cut⟩ := (List.eq_nil_or_concat (lines front)).resolve_left (lines_ne_nil front)
  rw [List.concat_eq_append] at cut
  obtain ⟨tail, rfl, last⟩ := exists_tail cut (List.cons_ne_nil _ _)
  obtain ⟨-, rfl⟩ | ⟨below, -, none⟩ := lines_cases last
  case inr => exact absurd none (lines_ne_nil below)
  have single : ∀ other ∈ above, '\n' ∉ other := fun other member =>
    lineFeed_not_mem (by rw [cut]; exact List.mem_append_left _ member)
  refine ⟨above, tail, rfl, cut, fun back => ?_⟩
  have plain : '\n' ∉ tail := lineFeed_not_mem (by rw [last]; exact List.mem_singleton_self _)
  obtain ⟨more, below, -, goes⟩ := lines_line_append plain back
  exact ⟨more, below, by rw [List.append_assoc, lines_ended single, goes]⟩

theorem positionAfter_of_last (cut : lines front = above ++ [line]) :
    positionAfter front = ⟨above.length, unitCount line⟩ := by
  rw [positionAfter, cut, List.length_append, List.getLast?_concat]
  rfl

theorem offset_positionAfter (front back : List Char) :
    offset (front ++ back) (positionAfter front) = front.length := by
  obtain ⟨above, line, parts, cut, goes⟩ := exists_last front
  obtain ⟨more, below, whole⟩ := goes back
  have single : '\n' ∉ line := by
    apply @lineFeed_not_mem front
    rw [cut]
    exact List.mem_append_right _ (List.mem_singleton_self _)
  have here : (lines (front ++ back))[above.length]? = some (line ++ more) := by
    rw [whole, List.getElem?_append_right (Nat.le_refl _), Nat.sub_self]
    rfl
  rw [positionAfter_of_last cut, offset_line here, whole, List.take_left, column_unitCount single,
    ← List.length_append, ← parts]

theorem Fits.behind (fits : Fits (front ++ back)) : (positionAfter front).Fits := by
  obtain ⟨above, line, -, cut, goes⟩ := exists_last front
  obtain ⟨more, below, whole⟩ := goes back
  rw [positionAfter_of_last cut]
  constructor
  · have few := fits.few
    rw [whole, List.length_append, List.length_cons] at few
    show above.length < _
    omega
  · have member : line ++ more ∈ lines (front ++ back) := by
      rw [whole]
      exact List.mem_append_right _ List.mem_cons_self
    have narrow := fits.narrow _ member
    rw [unitCount_append] at narrow
    show unitCount line < _
    omega

-- The numbers of a range are cut to 32 bits, which those of such a text have.
theorem Fits.fullRange_eq (fits : Fits text) : fullRange text = ⟨positionAfter [], positionAfter text⟩ := by
  obtain ⟨line, character⟩ : (positionAfter text).Fits := by
    rw [← List.append_nil text] at fits
    exact fits.behind
  have last : (⟨wrap (positionAfter text).line, wrap (positionAfter text).character⟩ : Position) =
      positionAfter text := by
    rw [wrap, wrap, Nat.mod_eq_of_lt line, Nat.mod_eq_of_lt character]
  exact congrArg (Range.mk ⟨0, 0⟩) last

theorem offset_le (text : List Char) (position : Position) : offset text position ≤ text.length := by
  cases here : (lines text)[position.line]? with
  | none => exact Nat.le_of_eq (offset_beyond (List.getElem?_eq_none_iff.1 here))
  | some line =>
    obtain ⟨tail, later, whole, cut⟩ := lines_split here
    have inside := (column_le position.character line).trans (isPrefix_of_lines cut).length_le
    have total := congrArg List.length whole
    rw [List.length_append] at total
    rw [offset_line here]
    omega

theorem offset_mono (text : List Char) (le : first ≤ second) : offset text first ≤ offset text second := by
  cases here : (lines text)[second.line]? with
  | none =>
    rw [offset_beyond (List.getElem?_eq_none_iff.1 here)]
    exact offset_le text first
  | some line =>
    rcases le with above | ⟨same, le⟩
    · obtain ⟨bound, -⟩ := List.getElem?_eq_some_iff.1 here
      obtain ⟨upper, here'⟩ : ∃ upper, (lines text)[first.line]? = some upper :=
        ⟨_, List.getElem?_eq_getElem (above.trans bound)⟩
      -- All of the earlier line and its line feed are above the later line.
      have next : (lines text).take (first.line + 1) = (lines text).take first.line ++ [upper] := by
        rw [List.take_add_one, here']
        rfl
      obtain ⟨between, whole⟩ := List.take_prefix_take_left above (l := lines text)
      rw [next] at whole
      rw [offset_line here, offset_line here', ← whole]
      have inside := column_le first.character upper
      simp only [ended_append, ended_cons, List.length_append, List.length_cons]
      omega
    · rw [offset_line here, offset_line (same ▸ here), same]
      exact Nat.add_le_add_left (column_mono le line) _

theorem applyChange_fullRange (fits : Fits text) (new : String) :
    applyChange text ⟨new, some (fullRange text)⟩ = new.toList := by
  have start : offset text (positionAfter []) = 0 := offset_positionAfter [] text
  have stop := offset_positionAfter text []
  rw [List.append_nil] at stop
  simp only [applyChange, splice, fits.fullRange_eq, start, stop]
  rw [List.take_zero, List.nil_append, Nat.max_eq_right (Nat.zero_le _), List.drop_length,
    List.append_nil]

-- The boundaries of a text are the ends of its first parts, and such an end is found again by its position.
theorem positions_and_offsets (file : TextFile) (fits : Fits file.text.toList) :
    (∀ front back, file.text.toList = front ++ back →
      (positionAfter front).Fits ∧ offset file.text.toList (positionAfter front) = front.length ∧
      byteOffset? file.text (positionAfter front) = some (size front)) ∧
    (∀ first second : Position, first ≤ second →
      offset file.text.toList first ≤ offset file.text.toList second ∧
      ∃ start stop, byteOffset? file.text first = some start ∧
        byteOffset? file.text second = some stop ∧ start ≤ stop) ∧
    ∀ new, file.change [⟨new, some (fullRange file.text.toList)⟩] = file.change [⟨new, none⟩] := by
  refine ⟨fun front back parts => ?_, fun first second le => ?_, fun new => ?_⟩
  · have again := offset_positionAfter front back
    rw [← parts] at again
    rw [parts] at fits
    refine ⟨fits.behind, again, ?_⟩
    rw [byteOffset?_eq, again, parts, List.take_left]
  · have le := offset_mono file.text.toList le
    exact ⟨le, _, _, byteOffset?_eq _ _, byteOffset?_eq _ _, size_take_mono le _⟩
  · have whole := applyChange_fullRange fits new
    exact congrArg (fun chars => { file with text := String.ofList chars }) whole

theorem positions_and_offsets_astral :
    Fits "é😀\n".toList ∧ byteOffset? "é😀\n" ⟨0, 3⟩ = some 6 ∧
    (⟨"notes", "é😀\n"⟩ : TextFile).change [⟨"new", some ⟨⟨0, 0⟩, ⟨1, 0⟩⟩⟩] = ⟨"notes", "new"⟩ := by
  have fits : Fits "é😀\n".toList := ⟨by decide, by decide⟩
  obtain ⟨again, -, whole⟩ := positions_and_offsets ⟨"notes", "é😀\n"⟩ fits
  exact ⟨fits, (again ['é', '😀'] ['\n'] rfl).2.2, whole "new"⟩

end LanguageRelay.Document
