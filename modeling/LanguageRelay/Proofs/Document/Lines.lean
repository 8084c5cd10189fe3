import LanguageRelay.Document.Position
import LanguageRelay.Proofs.Text.Split
namespace LanguageRelay.Document
open Text
variable {text line front tail : List Char} {above later : List (List Char)} {number units : Nat}
  {position : Position}

def ended (above : List (List Char)) : List Char := above.flatMap (· ++ ['\n'])

@[simp] theorem ended_cons (line : List Char) (above : List (List Char)) :
    ended (line :: above) = line ++ '\n' :: ended above := by
  simp only [ended, List.flatMap_cons, List.append_assoc, List.singleton_append]

@[simp] theorem ended_append (above later : List (List Char)) :
    ended (above ++ later) = ended above ++ ended later := List.flatMap_append

theorem lines_ne_nil (text : List Char) : lines text ≠ [] := by
  cases text with
  | nil => exact List.cons_ne_nil _ _
  | cons c rest =>
    by_cases feed : c = '\n'
    · rw [lines, splitOn, if_pos feed]
      exact List.cons_ne_nil _ _
    · obtain ⟨first, others, -, whole⟩ := splitOn_cons_of_ne feed rest
      rw [lines, whole]
      exact List.cons_ne_nil _ _

theorem lines_cases (cut : lines text = line :: later) :
    (later = [] ∧ text = line) ∨ ∃ below, text = line ++ '\n' :: below ∧ lines below = later := by
  induction text generalizing line with
  | nil => cases cut; exact .inl ⟨rfl, rfl⟩
  | cons c rest ih =>
    by_cases feed : c = '\n'
    · rw [lines, splitOn, if_pos feed] at cut
      cases cut
      exact .inr ⟨rest, by rw [feed]; rfl, rfl⟩
    · obtain ⟨first, others, parts, whole⟩ := splitOn_cons_of_ne feed rest
      rw [lines, whole] at cut
      cases cut
      rcases ih parts with ⟨last, rfl⟩ | ⟨below, rfl, follow⟩
      · exact .inl ⟨last, rfl⟩
      · exact .inr ⟨below, rfl, follow⟩

theorem exists_tail (cut : lines text = above ++ later) (more : later ≠ []) :
    ∃ tail, text = ended above ++ tail ∧ lines tail = later := by
  induction above generalizing text with
  | nil => exact ⟨text, rfl, cut⟩
  | cons line above ih =>
    rcases lines_cases cut with ⟨last, -⟩ | ⟨below, rfl, follow⟩
    · exact absurd (List.append_eq_nil_iff.1 last).2 more
    · obtain ⟨tail, rfl, lasts⟩ := ih follow
      exact ⟨tail, by rw [ended_cons, List.append_assoc, List.cons_append], lasts⟩

theorem lines_ended (single : ∀ line ∈ above, '\n' ∉ line) (tail : List Char) :
    lines (ended above ++ tail) = above ++ lines tail := by
  induction above with
  | nil => rfl
  | cons line above ih =>
    rw [ended_cons, List.append_assoc, List.cons_append, lines, splitOn_append,
      splitOn_of_not_mem (single line List.mem_cons_self)]
    exact congrArg (line :: ·) (ih fun line member => single line (List.mem_cons_of_mem _ member))

theorem lines_line_append (single : '\n' ∉ line) (tail : List Char) :
    ∃ first others, lines tail = first :: others ∧ lines (line ++ tail) = (line ++ first) :: others := by
  induction line with
  | nil =>
    obtain ⟨first, others, parts⟩ := List.exists_cons_of_ne_nil (lines_ne_nil tail)
    exact ⟨first, others, parts, parts⟩
  | cons c line ih =>
    rw [List.mem_cons, not_or] at single
    obtain ⟨first, others, parts, whole⟩ := ih single.2
    obtain ⟨first', others', parts', whole'⟩ := splitOn_cons_of_ne (Ne.symm single.1) (line ++ tail)
    rw [show splitOn '\n' (line ++ tail) = lines (line ++ tail) from rfl, whole] at parts'
    cases parts'
    exact ⟨first, others, parts, whole'⟩

theorem lineFeed_not_mem (member : line ∈ lines text) : '\n' ∉ line := not_mem_of_mem_splitOn member

theorem lines_split (here : (lines text)[number]? = some line) :
    ∃ tail later, text = ended ((lines text).take number) ++ tail ∧ lines tail = line :: later := by
  have cut : lines text = (lines text).take number ++ (lines text).drop number :=
    (List.take_append_drop number _).symm
  obtain ⟨bound, found⟩ := List.getElem?_eq_some_iff.1 here
  have rest : (lines text).drop number = line :: (lines text).drop (number + 1) := by
    rw [List.drop_eq_getElem_cons bound, found]
  obtain ⟨tail, whole, parts⟩ := exists_tail cut (by rw [rest]; exact List.cons_ne_nil _ _)
  exact ⟨tail, _, whole, parts.trans rest⟩

theorem lineStart?_line (single : '\n' ∉ line) (below : List Char) :
    lineStart? (number + 1) (line ++ '\n' :: below) =
      (lineStart? number below).map (· + (line.length + 1)) := by
  induction line with
  | nil => rfl
  | cons c line ih =>
    rw [List.mem_cons, not_or] at single
    rw [List.cons_append, lineStart?, if_neg (Ne.symm single.1), ih single.2, Option.map_map]
    rfl

theorem lineStart?_of_not_mem (single : '\n' ∉ line) : lineStart? (number + 1) line = none := by
  induction line with
  | nil => rfl
  | cons c line ih =>
    rw [List.mem_cons, not_or] at single
    rw [lineStart?, if_neg (Ne.symm single.1), ih single.2, Option.map_none]

theorem lineStart?_ended (single : ∀ line ∈ above, '\n' ∉ line) (tail : List Char) :
    lineStart? above.length (ended above ++ tail) = some (ended above).length := by
  induction above with
  | nil => cases tail <;> rfl
  | cons line above ih =>
    have below := ih fun line member => single line (List.mem_cons_of_mem _ member)
    rw [ended_cons, List.append_assoc, List.cons_append, List.length_cons,
      lineStart?_line (single line List.mem_cons_self), below, Option.map_some, List.length_append,
      List.length_cons]
    exact congrArg some (by omega)

theorem lineStart?_beyond (beyond : (lines text).length ≤ number) : lineStart? number text = none := by
  induction number generalizing text with
  | zero => exact absurd (List.eq_nil_of_length_eq_zero (Nat.le_zero.1 beyond)) (lines_ne_nil text)
  | succ number ih =>
    obtain ⟨line, later, cut⟩ := List.exists_cons_of_ne_nil (lines_ne_nil text)
    have single : '\n' ∉ line := lineFeed_not_mem (by rw [cut]; exact List.mem_cons_self)
    rcases lines_cases cut with ⟨-, rfl⟩ | ⟨below, rfl, follow⟩
    · exact lineStart?_of_not_mem single
    · rw [cut, List.length_cons, Nat.succ_le_succ_iff, ← follow] at beyond
      rw [lineStart?_line single, ih beyond, Option.map_none]

theorem isPrefix_of_lines (cut : lines text = line :: later) : line <+: text := by
  rcases lines_cases cut with ⟨-, rfl⟩ | ⟨below, rfl, -⟩
  · exact List.prefix_rfl
  · exact List.prefix_append _ _

-- A column is looked for in its line only.
theorem column_line (cut : lines text = line :: later) : column units text = column units line := by
  rcases lines_cases cut with ⟨-, rfl⟩ | ⟨below, rfl, -⟩
  · rfl
  · clear cut
    induction line generalizing units with
    | nil => simp [column]
    | cons c line ih => rw [List.cons_append, column, column, ih]

theorem column_le (units : Nat) (line : List Char) : column units line ≤ line.length := by
  induction line generalizing units with
  | nil => exact Nat.le_refl _
  | cons c line ih =>
    rw [column]
    split
    · exact Nat.zero_le _
    · exact Nat.succ_le_succ (ih _)

theorem column_mono {fewer : Nat} (le : fewer ≤ units) (line : List Char) :
    column fewer line ≤ column units line := by
  induction line generalizing fewer units with
  | nil => exact Nat.le_refl _
  | cons c line ih =>
    rw [column, column]
    by_cases none : units = 0 ∨ c = '\n'
    · rw [if_pos (none.imp_left fun zero => Nat.le_zero.1 (zero ▸ le)), if_pos none]
    · rw [if_neg none]
      split
      · exact Nat.zero_le _
      · exact Nat.succ_le_succ (ih (Nat.sub_le_sub_right le _))

theorem column_unitCount (single : '\n' ∉ front) (tail : List Char) :
    column (unitCount front) (front ++ tail) = front.length := by
  induction front with
  | nil => cases tail <;> simp [column]
  | cons c front ih =>
    rw [List.mem_cons, not_or] at single
    have positive := units_pos c
    have some : ¬ (unitCount (c :: front) = 0 ∨ c = '\n') := by
      rw [unitCount_cons]
      exact not_or.2 ⟨by omega, Ne.symm single.1⟩
    rw [List.cons_append, column, if_neg some, unitCount_cons, Nat.add_sub_cancel_left, ih single.2,
      List.length_cons]

theorem lineStart?_at (here : (lines text)[number]? = some line) :
    lineStart? number text = some (ended ((lines text).take number)).length := by
  obtain ⟨tail, later, whole, -⟩ := lines_split here
  have bound : number ≤ (lines text).length := Nat.le_of_lt (List.getElem?_eq_some_iff.1 here).1
  have single : ∀ line ∈ (lines text).take number, '\n' ∉ line := fun line member =>
    lineFeed_not_mem (List.mem_of_mem_take member)
  have start := lineStart?_ended single tail
  rwa [List.length_take, Nat.min_eq_left bound, ← whole] at start

theorem offset_line (here : (lines text)[position.line]? = some line) :
    offset text position =
      (ended ((lines text).take position.line)).length + column position.character line := by
  obtain ⟨tail, later, whole, parts⟩ := lines_split here
  have rest : text.drop (ended ((lines text).take position.line)).length = tail := by
    conv => lhs; arg 2; rw [whole]
    exact List.drop_left
  rw [offset, lineStart?_at here]
  show _ + column position.character (text.drop _) = _
  rw [rest, column_line parts]

theorem take_offset (here : (lines text)[position.line]? = some line) :
    text.take (offset text position) =
      ended ((lines text).take position.line) ++ line.take (column position.character line) := by
  obtain ⟨tail, later, whole, parts⟩ := lines_split here
  obtain ⟨rest, rfl⟩ := isPrefix_of_lines parts
  rw [offset_line here]
  conv => lhs; arg 2; rw [whole]
  rw [List.take_length_add_append, List.take_append_of_le_length (column_le _ _)]

theorem offset_beyond (beyond : (lines text).length ≤ position.line) :
    offset text position = text.length := by
  rw [offset, lineStart?_beyond beyond]

end LanguageRelay.Document
