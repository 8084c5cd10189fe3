import LanguageRelay.Proofs.Text.Plain
namespace LanguageRelay.Text
variable {text : String} {front middle back chars : List Char} {separator : Char}

abbrev IsBoundary (text : String) (place : Nat) : Prop := (String.Pos.Raw.mk place).IsValid text

def slice? (text : String) (start stop : Nat) : Option String :=
  if start ≤ stop ∧ IsBoundary text start ∧ IsBoundary text stop then
    utf8Decode? (((utf8 text).take stop).drop start)
  else none

def replaceRange? (text new : String) (start stop : Nat) : Option String :=
  if start ≤ stop ∧ IsBoundary text start ∧ IsBoundary text stop then
    utf8Decode? ((utf8 text).take start ++ utf8 new ++ (utf8 text).drop stop)
  else none

-- The place of the first separator, in bytes.
def placeOf? (separator : Char) : List Char → Option Nat
  | [] => none
  | c :: rest => if c = separator then some 0 else (placeOf? separator rest).map (· + c.utf8Size)

def size (chars : List Char) : Nat := byteLength (String.ofList chars)

@[simp] theorem size_nil : size [] = 0 := rfl

@[simp] theorem size_append (front back : List Char) : size (front ++ back) = size front + size back := by
  simp only [size, byteLength, String.ofList_append, String.utf8ByteSize_append]

@[simp] theorem size_singleton (c : Char) : size [c] = c.utf8Size := by
  rw [size, byteLength, ← String.singleton_eq_ofList, String.utf8ByteSize_singleton]

@[simp] theorem size_cons (c : Char) (rest : List Char) : size (c :: rest) = c.utf8Size + size rest := by
  rw [← List.singleton_append, size_append, size_singleton]

@[simp] theorem size_toList (text : String) : size text.toList = byteLength text := by
  rw [size, String.ofList_toList]

theorem size_take_mono {start stop : Nat} (le : start ≤ stop) (chars : List Char) :
    size (chars.take start) ≤ size (chars.take stop) := by
  obtain ⟨rest, whole⟩ := List.take_prefix_take_left le (l := chars)
  rw [← whole, size_append]
  exact Nat.le_add_right _ _

theorem isBoundary_iff {place : Nat} :
    IsBoundary text place ↔ ∃ front back, text.toList = front ++ back ∧ place = size front := by
  rw [IsBoundary, String.Pos.Raw.isValid_iff_exists_append]
  constructor
  · rintro ⟨front, back, rfl, ends⟩
    refine ⟨front.toList, back.toList, String.toList_append, ?_⟩
    rw [size_toList]
    exact congrArg String.Pos.Raw.byteIdx ends
  · rintro ⟨front, back, parts, rfl⟩
    refine ⟨String.ofList front, String.ofList back, ?_, rfl⟩
    rw [← String.ofList_append, ← parts, String.ofList_toList]

theorem isBoundary_front (parts : text.toList = front ++ back) : IsBoundary text (size front) :=
  isBoundary_iff.2 ⟨front, back, parts, rfl⟩

theorem utf8_ofList_append (front back : List Char) :
    utf8 (String.ofList (front ++ back)) = utf8 (String.ofList front) ++ utf8 (String.ofList back) := by
  rw [String.ofList_append, utf8_append]

theorem length_utf8_ofList (chars : List Char) : (utf8 (String.ofList chars)).length = size chars :=
  length_utf8 _

theorem take_utf8 (parts : text.toList = front ++ back) :
    (utf8 text).take (size front) = utf8 (String.ofList front) := by
  rw [← String.ofList_toList (s := text), parts, utf8_ofList_append, ← length_utf8_ofList,
    List.take_left]

theorem drop_utf8 (parts : text.toList = front ++ back) :
    (utf8 text).drop (size front) = utf8 (String.ofList back) := by
  rw [← String.ofList_toList (s := text), parts, utf8_ofList_append, ← length_utf8_ofList,
    List.drop_left]

theorem slice?_middle (parts : text.toList = front ++ (middle ++ back)) :
    slice? text (size front) (size front + size middle) = some (String.ofList middle) := by
  have regrouped : text.toList = (front ++ middle) ++ back := by rw [parts, List.append_assoc]
  have start := isBoundary_front parts
  have stop := isBoundary_front regrouped
  rw [size_append] at stop
  rw [slice?, if_pos ⟨Nat.le_add_right _ _, start, stop⟩, ← size_append, take_utf8 regrouped,
    utf8_ofList_append, ← length_utf8_ofList, List.drop_left, utf8Decode?_utf8]

theorem slice?_rest (parts : text.toList = front ++ back) :
    slice? text (size front) (byteLength text) = some (String.ofList back) := by
  have whole : byteLength text = size front + size back := by rw [← size_toList, parts, size_append]
  have alone : text.toList = front ++ (back ++ []) := by rw [parts, List.append_nil]
  rw [whole]
  exact slice?_middle alone

theorem replaceRange?_middle (new : String) (parts : text.toList = front ++ (middle ++ back)) :
    replaceRange? text new (size front) (size front + size middle) =
      some (String.ofList (front ++ new.toList ++ back)) := by
  have regrouped : text.toList = (front ++ middle) ++ back := by rw [parts, List.append_assoc]
  have start := isBoundary_front parts
  have stop := isBoundary_front regrouped
  have edited : utf8 (String.ofList (front ++ new.toList ++ back)) =
      utf8 (String.ofList front) ++ utf8 new ++ utf8 (String.ofList back) := by
    rw [utf8_ofList_append, utf8_ofList_append, String.ofList_toList]
  rw [size_append] at stop
  rw [replaceRange?, if_pos ⟨Nat.le_add_right _ _, start, stop⟩, take_utf8 parts, ← size_append,
    drop_utf8 regrouped, ← edited, utf8Decode?_utf8]

theorem placeOf?_of_not_mem (absent : separator ∉ chars) : placeOf? separator chars = none := by
  induction chars with
  | nil => rfl
  | cons c rest ih =>
    rw [List.mem_cons, not_or] at absent
    rw [placeOf?, if_neg (Ne.symm absent.1), ih absent.2, Option.map_none]

theorem placeOf?_append (absent : separator ∉ front) (back : List Char) :
    placeOf? separator (front ++ separator :: back) = some (size front) := by
  induction front with
  | nil => exact if_pos rfl
  | cons c front ih =>
    rw [List.mem_cons, not_or] at absent
    rw [List.cons_append, placeOf?, if_neg (Ne.symm absent.1), ih absent.2, Option.map_some, size_cons,
      Nat.add_comm]

end LanguageRelay.Text
