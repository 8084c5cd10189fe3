import LanguageRelay.Document.File
import LanguageRelay.Proofs.Document.Lines
import LanguageRelay.Proofs.Text.Slices
namespace LanguageRelay.Document
open Text
variable {text : String} {chars line front tail : List Char} {later : List (List Char)}
  {number units place : Nat} {position : Position}

-- Goes down some lines from a place. The inner result is missing when the text has fewer lines.
def descend? (text : String) : Nat → Nat → Option (Option Nat)
  | 0, start => some (some start)
  | number + 1, start => do
    let rest ← slice? text start (byteLength text)
    match placeOf? '\n' rest.toList with
    | some i => descend? text number (start + i + 1)
    | none => return none

-- Goes along a line until it has passed the units, if the line has more than these.
def advance? (character : Nat) : Nat → Nat → List Char → Option Nat
  | _, _, [] => none
  | units, place, c :: rest =>
    if character ≤ units then some place
    else advance? character (units + Text.units c) (place + c.utf8Size) rest

def byteOffset? (text : String) (position : Position) : Option Nat := do
  match ← descend? text position.line 0 with
  | none => return byteLength text
  | some start =>
    let rest ← slice? text start (byteLength text)
    let stop := match placeOf? '\n' rest.toList with
      | some i => start + i
      | none => byteLength text
    let line ← slice? text start stop
    match advance? position.character 0 0 line.toList with
    | some i => return start + i
    | none => return stop

def edit? (text new : String) (range : Range) : Option String := do
  let start ← byteOffset? text range.start
  let stop ← byteOffset? text range.stop
  replaceRange? text new start (max start stop)

-- The shortest first part of a line that has so many units, or all of a line that has fewer.
structure Reaches (units : Nat) (line front : List Char) : Prop where
  first : front <+: line
  enough : units ≤ unitCount front ∨ front = line
  shortest : ∀ other, other <+: line → units ≤ unitCount other → front.length ≤ other.length

-- The place of a position, in bytes.
inductive StandsAt (text : String) (position : Position) : Nat → Prop where
  | beyond : (lines text.toList).length ≤ position.line → StandsAt text position (byteLength text)
  | within {line front : List Char} : (lines text.toList)[position.line]? = some line →
    Reaches position.character line front →
    StandsAt text position (size (ended ((lines text.toList).take position.line)) + size front)

theorem Reaches.unique {other : List Char} (reaches : Reaches units line front)
    (reaches' : Reaches units line other) : other = front := by
  have le : front.length ≤ other.length := by
    rcases reaches'.enough with enough | rfl
    · exact reaches.shortest other reaches'.first enough
    · exact reaches.first.length_le
  have ge : other.length ≤ front.length := by
    rcases reaches.enough with enough | rfl
    · exact reaches'.shortest front reaches.first enough
    · exact reaches'.first.length_le
  exact (List.prefix_of_prefix_length_le reaches'.first reaches.first ge).eq_of_length
    (Nat.le_antisymm ge le)

theorem StandsAt.unique {other : Nat} (stands : StandsAt text position place)
    (stands' : StandsAt text position other) : other = place := by
  cases stands with
  | beyond beyond =>
    cases stands' with
    | beyond _ => rfl
    | within here _ => exact absurd (List.getElem?_eq_some_iff.1 here).1 (Nat.not_lt.2 beyond)
  | within here reaches =>
    cases stands' with
    | beyond beyond => exact absurd (List.getElem?_eq_some_iff.1 here).1 (Nat.not_lt.2 beyond)
    | within here' reaches' =>
      cases here.symm.trans here'
      rw [reaches.unique reaches']

theorem enough_column (single : '\n' ∉ line) :
    units ≤ unitCount (line.take (column units line)) ∨ line.take (column units line) = line := by
  induction line generalizing units with
  | nil => exact .inr rfl
  | cons c rest ih =>
    rw [List.mem_cons, not_or] at single
    rw [column]
    split
    case isTrue stop =>
      obtain rfl : units = 0 := stop.resolve_right (Ne.symm single.1)
      exact .inl (Nat.zero_le _)
    case isFalse =>
      rw [List.take_succ_cons, unitCount_cons]
      rcases @ih (units - Text.units c) single.2 with enough | whole
      · exact .inl (by omega)
      · exact .inr (congrArg (c :: ·) whole)

theorem column_le_of_enough (first : front <+: line) (enough : units ≤ unitCount front) :
    column units line ≤ front.length := by
  induction line generalizing units front with
  | nil => exact Nat.zero_le _
  | cons c rest ih =>
    rw [column]
    split
    case isTrue => exact Nat.zero_le _
    case isFalse more =>
      cases front with
      | nil => exact absurd (.inl (Nat.le_zero.1 enough)) more
      | cons d front =>
        obtain ⟨rfl, inner⟩ := List.cons_prefix_cons.1 first
        rw [unitCount_cons] at enough
        exact Nat.succ_le_succ (ih inner (by omega))

theorem reaches_column (single : '\n' ∉ line) : Reaches units line (line.take (column units line)) :=
  ⟨List.take_prefix _ _, enough_column single, fun _ first enough =>
    (List.length_take_le _ _).trans (column_le_of_enough first enough)⟩

theorem getD_advance? (single : '\n' ∉ line) (character units place : Nat) :
    (advance? character units place line).getD (place + size line) =
      place + size (line.take (column (character - units) line)) := by
  induction line generalizing units place with
  | nil => rfl
  | cons c rest ih =>
    rw [List.mem_cons, not_or] at single
    rw [advance?, column]
    by_cases reached : character ≤ units
    · rw [if_pos reached, if_pos (.inl (Nat.sub_eq_zero_of_le reached)), List.take_zero, size_nil]
      rfl
    · have more : ¬ (character - units = 0 ∨ c = '\n') :=
        not_or.2 ⟨by omega, Ne.symm single.1⟩
      rw [if_neg reached, if_neg more, List.take_succ_cons, size_cons, size_cons, ← Nat.add_assoc,
        ih single.2, Nat.sub_sub, Nat.add_assoc]

theorem descend?_eq (parts : text.toList = front ++ tail) (number : Nat) :
    descend? text number (size front) =
      some ((lineStart? number tail).map fun n => size (front ++ tail.take n)) := by
  induction number generalizing front tail with
  | zero => cases tail <;> simp [descend?, lineStart?]
  | succ number ih =>
    obtain ⟨line, later, cut⟩ := List.exists_cons_of_ne_nil (lines_ne_nil tail)
    have single : '\n' ∉ line := lineFeed_not_mem (by rw [cut]; exact List.mem_cons_self)
    rw [descend?, slice?_rest parts]
    simp only [Option.bind_eq_bind, Option.bind_some, String.toList_ofList]
    rcases lines_cases cut with ⟨-, rfl⟩ | ⟨below, rfl, -⟩
    · rw [placeOf?_of_not_mem single, lineStart?_of_not_mem single]
      rfl
    · have onward : text.toList = (front ++ (line ++ ['\n'])) ++ below := by
        rw [parts]; simp only [List.append_assoc, List.singleton_append]
      have next : size (front ++ (line ++ ['\n'])) = size front + size line + 1 := by
        rw [size_append, size_append, size_singleton, Nat.add_assoc]
        rfl
      rw [placeOf?_append single, lineStart?_line single]
      simp only [← next, ih onward, Option.map_map]
      congr 2
      funext n
      have count : n + (line.length + 1) = line.length + (n + 1) := by omega
      rw [Function.comp_apply, count, List.take_length_add_append, List.take_succ_cons]
      simp only [List.append_assoc, List.singleton_append]

theorem lineStop_eq (parts : text.toList = front ++ tail) (cut : lines tail = line :: later) :
    (match placeOf? '\n' tail with
      | some i => size front + i
      | none => byteLength text) = size front + size line ∧
    slice? text (size front) (size front + size line) = some (String.ofList line) := by
  have single : '\n' ∉ line := lineFeed_not_mem (by rw [cut]; exact List.mem_cons_self)
  rcases lines_cases cut with ⟨-, rfl⟩ | ⟨below, rfl, -⟩
  · rw [placeOf?_of_not_mem single, ← size_toList, parts, size_append]
    have alone : text.toList = front ++ (tail ++ []) := by rw [parts, List.append_nil]
    exact ⟨rfl, slice?_middle alone⟩
  · rw [placeOf?_append single]
    exact ⟨rfl, slice?_middle parts⟩

theorem byteOffset?_beyond (beyond : (lines text.toList).length ≤ position.line) :
    byteOffset? text position = some (byteLength text) := by
  have whole : text.toList = [] ++ text.toList := rfl
  have down := descend?_eq whole position.line
  rw [lineStart?_beyond beyond, size_nil] at down
  rw [byteOffset?, down]
  rfl

theorem byteOffset?_line (here : (lines text.toList)[position.line]? = some line) :
    byteOffset? text position =
      some (size (ended ((lines text.toList).take position.line)) +
        size (line.take (column position.character line))) := by
  obtain ⟨tail, later, parts, cut⟩ := lines_split here
  have whole : text.toList = [] ++ text.toList := rfl
  have down := descend?_eq whole position.line
  have above : text.toList.take (ended ((lines text.toList).take position.line)).length =
      ended ((lines text.toList).take position.line) := by
    conv => lhs; arg 2; rw [parts]
    exact List.take_left
  rw [lineStart?_at here, size_nil, Option.map_some, List.nil_append, above] at down
  obtain ⟨stop, inside⟩ := lineStop_eq parts cut
  have along := getD_advance? (lineFeed_not_mem (List.mem_of_getElem? here)) position.character 0 0
  rw [byteOffset?, down]
  simp only [Option.bind_eq_bind, Option.bind_some, slice?_rest parts, String.toList_ofList]
  rw [stop, inside]
  simp only [Option.bind_some, String.toList_ofList]
  simp only [Nat.zero_add, Nat.sub_zero] at along
  rw [← along]
  cases advance? position.character 0 0 line <;> rfl

theorem byteOffset?_eq_some_iff :
    byteOffset? text position = some place ↔ StandsAt text position place := by
  have exact : ∃ found, byteOffset? text position = some found ∧ StandsAt text position found := by
    cases here : (lines text.toList)[position.line]? with
    | none =>
      have beyond := List.getElem?_eq_none_iff.1 here
      exact ⟨_, byteOffset?_beyond beyond, .beyond beyond⟩
    | some line =>
      exact ⟨_, byteOffset?_line here,
        .within here (reaches_column (lineFeed_not_mem (List.mem_of_getElem? here)))⟩
  obtain ⟨found, given, stands⟩ := exact
  rw [given, Option.some_inj]
  exact ⟨fun same => same ▸ stands, fun stands' => (stands.unique stands').symm⟩

theorem byteOffset?_eq (text : String) (position : Position) :
    byteOffset? text position = some (size (text.toList.take (offset text.toList position))) := by
  cases here : (lines text.toList)[position.line]? with
  | none =>
    have beyond := List.getElem?_eq_none_iff.1 here
    rw [byteOffset?_beyond beyond, offset_beyond beyond, List.take_length, size_toList]
  | some line =>
    rw [byteOffset?_line here, take_offset here, size_append]

theorem size_take_max (chars : List Char) (start stop : Nat) :
    max (size (chars.take start)) (size (chars.take stop)) = size (chars.take (max start stop)) := by
  rcases Nat.le_total start stop with le | le
  · rw [Nat.max_eq_right le, Nat.max_eq_right (size_take_mono le chars)]
  · rw [Nat.max_eq_left le, Nat.max_eq_left (size_take_mono le chars)]

theorem parts_of_range (chars : List Char) (start stop : Nat) :
    ∃ middle, chars = chars.take start ++ (middle ++ chars.drop (max start stop)) ∧
      chars.take start ++ middle = chars.take (max start stop) := by
  have le := Nat.le_max_left start stop
  have first : chars.take start = (chars.take (max start stop)).take start := by
    rw [List.take_take, Nat.min_eq_left le]
  have joined : chars.take start ++ (chars.take (max start stop)).drop start =
      chars.take (max start stop) := by
    rw [first, List.take_append_drop]
  refine ⟨(chars.take (max start stop)).drop start, ?_, joined⟩
  rw [← List.append_assoc, joined, List.take_append_drop]

theorem edit?_eq (text new : String) (range : Range) :
    edit? text new range = some (String.ofList (applyChange text.toList ⟨new, some range⟩)) := by
  obtain ⟨middle, parts, joined⟩ := parts_of_range text.toList
    (offset text.toList range.start) (offset text.toList range.stop)
  have edited := replaceRange?_middle new parts
  rw [← size_append, joined, ← size_take_max] at edited
  rw [edit?, byteOffset?_eq, byteOffset?_eq]
  exact edited

-- A position has one place in every text, where a character begins or the text ends. An edit of a range
-- puts the new text between the bytes before the first place and those behind the later one; none of its
-- cuts fails, and it is the edit of the file.
theorem ranged_edit (file : TextFile) (new : String) (range : Range) :
    (∀ position, ∃ place, byteOffset? file.text position = some place ∧
      (∀ other, StandsAt file.text position other ↔ other = place) ∧ IsBoundary file.text place ∧
      place = size (file.text.toList.take (offset file.text.toList position))) ∧
    ∃ start stop, StandsAt file.text range.start start ∧ StandsAt file.text range.stop stop ∧
      edit? file.text new range = some (file.change [⟨new, some range⟩]).text ∧
      utf8 (file.change [⟨new, some range⟩]).text =
        (utf8 file.text).take start ++ utf8 new ++ (utf8 file.text).drop (max start stop) := by
  have cut (n : Nat) : file.text.toList = file.text.toList.take n ++ file.text.toList.drop n :=
    (List.take_append_drop n _).symm
  have stands (position : Position) := byteOffset?_eq_some_iff.1 (byteOffset?_eq file.text position)
  refine ⟨fun position => ⟨_, byteOffset?_eq file.text position, fun other => ⟨fun stands' => ?_, ?_⟩,
    isBoundary_front (cut _), rfl⟩, _, _, stands range.start, stands range.stop, edit?_eq _ _ _, ?_⟩
  · exact (stands position).unique stands'
  · rintro rfl
    exact stands position
  · rw [size_take_max, take_utf8 (cut _), drop_utf8 (cut _)]
    show utf8 (String.ofList (splice _ _ _ _)) = _
    rw [splice, utf8_ofList_append, utf8_ofList_append, String.ofList_toList]

end LanguageRelay.Document
