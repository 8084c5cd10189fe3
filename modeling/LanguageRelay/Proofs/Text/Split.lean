import Mathlib.Data.List.Infix
import LanguageRelay.Text.Split
namespace LanguageRelay.Text
variable {separator : Char} {chars part : List Char}

theorem splitOn_cons_of_ne {c : Char} (other : c ≠ separator) (rest : List Char) :
    ∃ first others, splitOn separator rest = first :: others ∧
      splitOn separator (c :: rest) = (c :: first) :: others := by
  rw [splitOn, if_neg other]
  cases rest with
  | nil => exact ⟨[], [], rfl, rfl⟩
  | cons d rest =>
    rw [splitOn]
    split
    · exact ⟨_, _, rfl, rfl⟩
    · split <;> exact ⟨_, _, rfl, rfl⟩

theorem splitOn_append (separator : Char) (front back : List Char) :
    splitOn separator (front ++ separator :: back) =
      splitOn separator front ++ splitOn separator back := by
  induction front with
  | nil =>
    show splitOn separator (separator :: back) = [] :: splitOn separator back
    rw [splitOn, if_pos rfl]
  | cons c front ih =>
    by_cases same : c = separator
    · rw [List.cons_append, splitOn, if_pos same, splitOn, if_pos same, ih]
      rfl
    · obtain ⟨first, others, parts, whole⟩ := splitOn_cons_of_ne same front
      rw [List.cons_append, splitOn, if_neg same, ih, parts, whole]
      rfl

theorem splitOn_of_not_mem (absent : separator ∉ chars) : splitOn separator chars = [chars] := by
  induction chars with
  | nil => rfl
  | cons c chars ih =>
    rw [List.mem_cons, not_or] at absent
    rw [splitOn, if_neg (Ne.symm absent.1), ih absent.2]

theorem not_mem_of_mem_splitOn (member : part ∈ splitOn separator chars) : separator ∉ part := by
  induction chars generalizing part with
  | nil => rw [List.mem_singleton.1 member]; exact List.not_mem_nil
  | cons c chars ih =>
    by_cases same : c = separator
    · rw [splitOn, if_pos same] at member
      rcases List.mem_cons.1 member with rfl | later
      · exact List.not_mem_nil
      · exact ih later
    · obtain ⟨first, others, parts, whole⟩ := splitOn_cons_of_ne same chars
      rw [whole] at member
      rw [parts] at ih
      rcases List.mem_cons.1 member with rfl | later
      · rw [List.mem_cons, not_or]
        exact ⟨Ne.symm same, ih List.mem_cons_self⟩
      · exact ih (List.mem_cons_of_mem _ later)

theorem isPrefix_of_splitOn {others : List (List Char)}
    (parts : splitOn separator chars = part :: others) : part <+: chars := by
  induction chars generalizing part others with
  | nil => cases parts; exact List.prefix_rfl
  | cons c chars ih =>
    by_cases same : c = separator
    · rw [splitOn, if_pos same] at parts
      cases parts
      exact List.nil_prefix
    · obtain ⟨first, rest, later, whole⟩ := splitOn_cons_of_ne same chars
      rw [whole] at parts
      cases parts
      exact List.cons_prefix_cons.2 ⟨rfl, ih later⟩

theorem isInfix_of_mem_splitOn (member : part ∈ splitOn separator chars) : part <:+: chars := by
  induction chars generalizing part with
  | nil => rw [List.mem_singleton.1 member]
  | cons c chars ih =>
    by_cases same : c = separator
    · rw [splitOn, if_pos same] at member
      rcases List.mem_cons.1 member with rfl | later
      · exact List.nil_infix
      · exact List.infix_cons (ih later)
    · obtain ⟨first, others, parts, whole⟩ := splitOn_cons_of_ne same chars
      have begins := isPrefix_of_splitOn whole
      rw [whole] at member
      rw [parts] at ih
      rcases List.mem_cons.1 member with rfl | later
      · exact begins.isInfix
      · exact List.infix_cons (ih (List.mem_cons_of_mem _ later))

theorem splitOn_ne_nil (separator : Char) (chars : List Char) : splitOn separator chars ≠ [] := by
  cases chars with
  | nil => nofun
  | cons c rest =>
    by_cases same : c = separator
    · rw [splitOn, if_pos same]
      nofun
    · obtain ⟨first, others, -, whole⟩ := splitOn_cons_of_ne same rest
      rw [whole]
      nofun

theorem getLast?_splitOn : (splitOn separator chars).getLast? = some part ↔
    separator ∉ part ∧ (chars = part ∨ ∃ front, chars = front ++ separator :: part) := by
  have forward : ∀ {chars part : List Char}, separator ∉ part →
      (chars = part ∨ ∃ front, chars = front ++ separator :: part) →
      (splitOn separator chars).getLast? = some part := by
    rintro chars part absent (rfl | ⟨front, rfl⟩)
    · rw [splitOn_of_not_mem absent, List.getLast?_singleton]
    · rw [splitOn_append, splitOn_of_not_mem absent, List.getLast?_concat]
  refine ⟨fun last => ?_, fun ⟨absent, stands⟩ => forward absent stands⟩
  obtain ⟨other, absent, stands⟩ : ∃ other, separator ∉ other ∧
      (chars = other ∨ ∃ front, chars = front ++ separator :: other) := by
    by_cases present : separator ∈ chars
    · obtain ⟨back, front, split, absent⟩ := List.eq_append_cons_of_mem (List.mem_reverse.2 present)
      refine ⟨back.reverse, by simpa using absent, .inr ⟨front.reverse, ?_⟩⟩
      rw [← List.reverse_reverse chars, split]
      simp
    · exact ⟨chars, present, .inl rfl⟩
  obtain rfl : part = other := Option.some.inj (last.symm.trans (forward absent stands))
  exact ⟨absent, stands⟩

theorem head?_of_splitOn {c : Char} {others : List (List Char)} (other : c ≠ separator)
    (parts : splitOn separator chars = part :: others) : part.head? = some c ↔ [c] <+: chars := by
  cases chars with
  | nil => cases parts; simp
  | cons d rest =>
    by_cases same : d = separator
    · rw [splitOn, if_pos same] at parts
      cases parts
      simp [List.cons_prefix_cons, same, other]
    · obtain ⟨_, _, -, whole⟩ := splitOn_cons_of_ne same rest
      cases whole.symm.trans parts
      simp [List.cons_prefix_cons, eq_comm]

theorem exists_headed_part {c : Char} (other : c ≠ separator) :
    (∃ part ∈ (splitOn separator chars).tail, part.head? = some c) ↔ [separator, c] <:+: chars := by
  induction chars with
  | nil => simp [splitOn]
  | cons d rest ih =>
    rw [List.infix_cons_iff, ← ih, List.cons_prefix_cons]
    by_cases same : d = separator
    · obtain ⟨part, others, parts⟩ := List.exists_cons_of_ne_nil (splitOn_ne_nil separator rest)
      rw [splitOn, if_pos same, parts]
      simp [same, head?_of_splitOn other parts]
    · obtain ⟨_, _, parts, whole⟩ := splitOn_cons_of_ne same rest
      rw [whole, parts]
      simp [Ne.symm same]

end LanguageRelay.Text
