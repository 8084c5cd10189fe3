import Mathlib.Data.List.Induction
import LanguageRelay.Path.Basic
import LanguageRelay.Proofs.Text.Split
namespace LanguageRelay.Path
variable {root path above : String} {component : Component} {here : List String}

def advance (here : List String) : Component → List String
  | .root => []
  | .current => here
  | .parent => here.dropLast
  | .normal name => here ++ [name]

def follow (here : List String) (parts : List Component) : List String := parts.foldl advance here

def resolved (path : String) : List String := follow [] (components path)

-- The names go on from those of the tree.
def Below (tree names : List String) : Prop := tree <+: names ∧ names ≠ tree

instance (tree names : List String) : Decidable (Below tree names) :=
  inferInstanceAs (Decidable (tree <+: names ∧ names ≠ tree))

def StrictlyBelow (root path : String) : Prop := Below (resolved root) (resolved path)

instance (root path : String) : Decidable (StrictlyBelow root path) :=
  inferInstanceAs (Decidable (Below (resolved root) (resolved path)))

theorem follow_append (here : List String) (first second : List Component) :
    follow here (first ++ second) = follow (follow here first) second := List.foldl_append

def Component.IsPart (component : Component) : Prop :=
  component? component.text = some component ∧ '/' ∉ component.text.toList

theorem isPart_of_mem (member : component ∈ (segments path).filterMap component?) :
    component.IsPart := by
  obtain ⟨segment, inside, kind⟩ := List.mem_filterMap.1 member
  obtain ⟨part, piece, rfl⟩ := List.mem_map.1 inside
  have separated := Text.not_mem_of_mem_splitOn piece
  have whole := kind
  rw [component?] at kind
  split at kind
  · cases kind
  · split at kind
    · cases kind
      exact ⟨rfl, by decide⟩
    · cases kind
      exact ⟨whole, by rwa [Component.text, String.toList_ofList]⟩

theorem mem_splitOn_of_parent (parent : Component.parent ∈ components path) :
    ['.', '.'] ∈ Text.splitOn '/' path.toList := by
  have inside : Component.parent ∈ (segments path).filterMap component? := by
    rw [components] at parent
    split at parent
    · exact (List.mem_cons.1 parent).resolve_left nofun
    · split at parent
      · exact (List.mem_cons.1 parent).resolve_left nofun
      · exact parent
  obtain ⟨segment, member, kind⟩ := List.mem_filterMap.1 inside
  obtain ⟨part, piece, rfl⟩ := List.mem_map.1 member
  rw [component?] at kind
  split at kind
  · cases kind
  · split at kind
    · rename_i dots
      have plain : part = ['.', '.'] := String.ofList_injective dots
      rwa [plain] at piece
    · cases kind

theorem components_of_isAbsolute (absolute : isAbsolute path) :
    components path = .root :: (segments path).filterMap component? := by
  rw [components, if_pos absolute]

theorem isAbsolute_of_components {rest : List Component} (starts : components path = .root :: rest) :
    isAbsolute path := by
  by_cases absolute : isAbsolute path
  · exact absolute
  · have parts : Component.root ∈ (segments path).filterMap component? := by
      rw [components, if_neg absolute] at starts
      split at starts
      · cases starts
      · rw [starts]; exact List.mem_cons_self
    exact absurd (isPart_of_mem parts).2 (by decide)

theorem ne_empty_of_isAbsolute (absolute : isAbsolute path) : path ≠ "" := by
  rintro rfl
  exact absurd absolute (by decide)

theorem segments_append (front back : String) :
    segments (front ++ "/" ++ back) = segments front ++ segments back := by
  simp only [segments, Text.split, String.toList_append]
  rw [List.append_assoc, ← List.map_append, ← Text.splitOn_append]
  rfl

theorem eq_empty_of_components (none : components path = []) : path = "" := by
  rw [← String.toList_inj]
  cases chars : path.toList with
  | nil => rfl
  | cons c rest =>
    have other : c ≠ '/' := by
      rintro rfl
      have absolute : isAbsolute path := by rw [isAbsolute, chars]; rfl
      rw [components_of_isAbsolute absolute] at none
      cases none
    have relative : ¬ isAbsolute path := by
      rw [isAbsolute, chars, List.head?_cons]
      simpa using other
    obtain ⟨first, others, -, whole⟩ := Text.splitOn_cons_of_ne other rest
    have parts : segments path = String.ofList (c :: first) :: others.map String.ofList := by
      rw [segments, Text.split, chars, whole, List.map_cons]
    have present : String.ofList (c :: first) ≠ "" := by
      intro empty
      have chars := congrArg String.toList empty
      rw [String.toList_ofList] at chars
      cases chars
    rw [components, if_neg relative, parts, List.head?_cons] at none
    split at none
    · cases none
    · rename_i noDot
      have ordinary : ¬ (String.ofList (c :: first) = "" ∨ String.ofList (c :: first) = ".") := by
        rintro (empty | dot)
        · exact present empty
        · exact noDot (congrArg some dot)
      rw [List.filterMap_cons, component?, if_neg ordinary] at none
      split at none
      · rename_i blank
        split at blank <;> cases blank
      · cases none

theorem isAbsolute_append (absolute : isAbsolute root) (more : String) : isAbsolute (root ++ more) := by
  simp only [isAbsolute, beq_iff_eq] at absolute ⊢
  rw [String.toList_append, List.head?_append, absolute]
  rfl

theorem segments_append_separator (front : String) : segments (front ++ "/") = segments front ++ [""] := by
  have whole := segments_append front ""
  rwa [String.append_empty] at whole

theorem components_append_separator (absolute : isAbsolute path) :
    components (path ++ "/") = components path := by
  rw [components_of_isAbsolute (isAbsolute_append absolute _), components_of_isAbsolute absolute,
    segments_append_separator, List.filterMap_append]
  simp [component?]

theorem components_append_part (absolute : isAbsolute (path ++ "/")) (part : component.IsPart) :
    components (path ++ "/" ++ component.text) = components (path ++ "/") ++ [component] := by
  have single : segments component.text = [component.text] := by
    rw [segments, Text.split, Text.splitOn_of_not_mem part.2, List.map_singleton, String.ofList_toList]
  have kept : [component.text].filterMap component? = [component] := by
    rw [List.filterMap_cons, part.1]
    rfl
  have left : [""].filterMap component? = [] := rfl
  rw [components_of_isAbsolute (isAbsolute_append absolute _), components_of_isAbsolute absolute,
    segments_append, segments_append_separator, single, List.filterMap_append,
    List.filterMap_append, kept, left, List.append_nil]
  rfl

theorem exists_separator (ends : path.toList.getLast? = some '/') : ∃ front, path = front ++ "/" := by
  obtain ⟨front, whole⟩ := List.getLast?_eq_some_iff.1 ends
  refine ⟨String.ofList front, ?_⟩
  rw [← String.toList_inj, whole, String.toList_append, String.toList_ofList]
  rfl

theorem components_join (absolute : isAbsolute root) (part : component.IsPart) :
    isAbsolute (join root component.text) ∧
      components (join root component.text) = components root ++ [component] := by
  have relative : ¬ isAbsolute component.text := by
    intro starts
    simp only [isAbsolute, beq_iff_eq] at starts
    exact part.2 (List.mem_of_head? starts)
  have present : root ≠ "" := by rintro rfl; exact absurd absolute (by decide)
  rw [join, if_neg (by simp [relative, present])]
  split
  · rename_i ends
    obtain ⟨front, rfl⟩ := exists_separator ends
    exact ⟨isAbsolute_append absolute _, components_append_part absolute part⟩
  · have longer := isAbsolute_append absolute "/"
    refine ⟨isAbsolute_append longer _, ?_⟩
    rw [components_append_part longer part, components_append_separator absolute]

theorem components_ofComponents {parts : List Component} (proper : ∀ part ∈ parts, part.IsPart) :
    isAbsolute (ofComponents (.root :: parts)) ∧
      components (ofComponents (.root :: parts)) = .root :: parts := by
  induction parts using List.reverseRecOn with
  | nil => decide
  | append_singleton parts last ih =>
    obtain ⟨absolute, before⟩ := ih fun part member => proper part (List.mem_append_left _ member)
    have step : ofComponents (.root :: (parts ++ [last])) =
        join (ofComponents (.root :: parts)) last.text := by
      rw [ofComponents, ← List.cons_append, List.foldl_append]
      rfl
    have joined := components_join absolute (proper last (by simp))
    rw [step]
    exact ⟨joined.1, by rw [joined.2, before]; rfl⟩

theorem components_parent (absolute : isAbsolute path) (parent : parent? path = some above) :
    isAbsolute above ∧ components above = (components path).dropLast := by
  have proper : ∀ part ∈ (segments path).filterMap component?, part.IsPart :=
    fun part member => isPart_of_mem member
  rw [parent?, components_of_isAbsolute absolute] at parent
  rw [components_of_isAbsolute absolute]
  rcases List.eq_nil_or_concat ((segments path).filterMap component?) with none | ⟨front, last, whole⟩
  · rw [none] at parent
    cases parent
  · rw [whole, List.concat_eq_append] at proper parent
    rw [whole, List.concat_eq_append]
    have ends : (Component.root :: (front ++ [last])).getLast? = some last := by
      rw [← List.cons_append, List.getLast?_concat]
    have dropped : (Component.root :: (front ++ [last])).dropLast = .root :: front := by
      rw [← List.cons_append, List.dropLast_concat]
    rw [ends, dropped] at parent
    have ordinary : last ≠ .root := by
      rintro rfl
      exact absurd (proper .root (by simp)).2 (by decide)
    have above_eq : ofComponents (.root :: front) = above := by
      cases last with
      | root => exact absurd rfl ordinary
      | current => exact Option.some.inj parent
      | parent => exact Option.some.inj parent
      | normal name => exact Option.some.inj parent
    rw [← above_eq, dropped]
    exact components_ofComponents fun part member => proper part (List.mem_append_left _ member)

theorem isPart_cases (part : component.IsPart) : component = .parent ∨ ∃ name, component = .normal name := by
  cases component with
  | root => exact absurd part.2 (by decide)
  | current => exact absurd part.1 (by decide)
  | parent => exact .inl rfl
  | normal name => exact .inr ⟨name, rfl⟩

theorem names_of_no_parent {parts : List Component} (proper : ∀ part ∈ parts, part.IsPart)
    (onward : Component.parent ∉ parts) : ∃ names : List String, parts = names.map .normal := by
  induction parts with
  | nil => exact ⟨[], rfl⟩
  | cons part parts ih =>
    rw [List.mem_cons, not_or] at onward
    rcases isPart_cases (proper part List.mem_cons_self) with rfl | ⟨name, rfl⟩
    · exact absurd rfl onward.1
    · obtain ⟨names, rfl⟩ := ih (fun part member => proper part (List.mem_cons_of_mem _ member)) onward.2
      exact ⟨name :: names, rfl⟩

theorem name_of_parent (absolute : isAbsolute path) (onward : Component.parent ∉ components path)
    (parent : parent? path = some above) :
    ∃ name, components path = components above ++ [Component.normal name] := by
  rw [(components_parent absolute parent).2]
  rw [components_of_isAbsolute absolute, List.mem_cons, not_or] at onward
  obtain ⟨names, whole⟩ := names_of_no_parent (fun _ => isPart_of_mem) onward.2
  rw [parent?, components_of_isAbsolute absolute, whole] at parent
  rw [components_of_isAbsolute absolute, whole]
  rcases List.eq_nil_or_concat names with rfl | ⟨front, last, rfl⟩
  · cases parent
  · refine ⟨last, ?_⟩
    rw [List.concat_eq_append, List.map_append, ← List.cons_append, List.map_singleton,
      List.dropLast_concat]

-- How far up parts lead from where they start, and the names that lead on from there.
def ascend : Nat × List String → Component → Nat × List String
  | (ups, []), .parent => (ups + 1, [])
  | (ups, names), part => (ups, advance names part)

def climb (parts : List Component) : Nat × List String := parts.foldl ascend (0, [])

theorem follow_eq_climb {parts : List Component} (proper : ∀ part ∈ parts, part.IsPart)
    (here : List String) :
    follow here parts = here.take (here.length - (climb parts).1) ++ (climb parts).2 := by
  induction parts using List.reverseRecOn with
  | nil => simp [follow, climb]
  | append_singleton parts last ih =>
    have before := ih fun part member => proper part (List.mem_append_left _ member)
    have climbed : climb (parts ++ [last]) = ascend (climb parts) last := by
      rw [climb, List.foldl_append]
      rfl
    have followed : follow here (parts ++ [last]) = advance (follow here parts) last := by
      rw [follow_append]
      rfl
    rw [climbed, followed, before]
    cases whole : climb parts with
    | mk ups names =>
      rcases isPart_cases (proper last (by simp)) with rfl | ⟨name, rfl⟩
      · cases names with
        | nil =>
          simp only [advance, ascend, List.append_nil, List.dropLast_eq_take, List.length_take,
            List.take_take]
          congr 1
          omega
        | cons name names => simp [advance, ascend, List.dropLast_append_of_ne_nil]
      · simp [advance, ascend]

-- The names lead back down the way that was climbed, and further.
def Returns (start : List String) (climbed : Nat × List String) : Prop :=
  ∃ rest, rest ≠ [] ∧ climbed.2 = start.drop (start.length - climbed.1) ++ rest

theorem strictlyBelow_iff {tail : List Component} (whole : components path = components root ++ tail)
    (proper : ∀ part ∈ tail, part.IsPart) :
    StrictlyBelow root path ↔ Returns (resolved root) (climb tail) := by
  have led : resolved path = (resolved root).take ((resolved root).length - (climb tail).1) ++
      (climb tail).2 := by
    rw [resolved, whole, follow_append, follow_eq_climb proper]
    rfl
  have parted := List.take_append_drop ((resolved root).length - (climb tail).1) (resolved root)
  rw [StrictlyBelow, Below, Returns, led]
  constructor
  · rintro ⟨⟨rest, same⟩, other⟩
    refine ⟨rest, ?_, ?_⟩
    · rintro rfl
      rw [List.append_nil] at same
      exact other same.symm
    · rw [← parted, List.append_assoc, parted] at same
      exact (List.append_cancel_left same).symm
  · rintro ⟨rest, present, same⟩
    rw [same, ← List.append_assoc, parted]
    exact ⟨List.prefix_append _ _, fun equal => present (List.append_right_eq_self.1 equal)⟩

theorem follow_names (here names : List String) : follow here (names.map .normal) = here ++ names := by
  induction names generalizing here with
  | nil => exact (List.append_nil here).symm
  | cons name names ih =>
    rw [List.append_cons]
    exact ih (here ++ [name])

theorem follow_of_no_parent {parts : List Component} (proper : ∀ part ∈ parts, part.IsPart)
    (onward : Component.parent ∉ parts) (here : List String) :
    ∃ names, names.length = parts.length ∧ follow here parts = here ++ names := by
  obtain ⟨names, rfl⟩ := names_of_no_parent proper onward
  exact ⟨names, by rw [List.length_map], follow_names here names⟩

theorem strictlyBelow_of_no_parent {tail : List Component} (present : tail ≠ [])
    (whole : components path = components root ++ tail) (proper : ∀ part ∈ tail, part.IsPart)
    (onward : Component.parent ∉ tail) : StrictlyBelow root path := by
  obtain ⟨names, length, led⟩ := follow_of_no_parent proper onward (resolved root)
  have whole : resolved path = resolved root ++ names := by
    rw [← led, resolved, whole, follow_append]
    rfl
  rw [StrictlyBelow, Below, whole]
  refine ⟨List.prefix_append _ _, fun same => present ?_⟩
  rw [List.append_right_eq_self.1 same] at length
  exact List.eq_nil_of_length_eq_zero length.symm

end LanguageRelay.Path
