import LanguageRelay.Proofs.Document.Positions
namespace LanguageRelay.Document
open Text
variable {text front middle back chars : List Char} {place : Nat}

-- A new text for what stands between two places, counted in characters. When the second one comes first,
-- nothing is taken out.
structure Replacement where
  start : Nat
  stop : Nat
  new : String
deriving DecidableEq, Repr

namespace Replacement
variable {edit earlier later : Replacement} {edits done batch : List Replacement}

def last (edit : Replacement) : Nat := max edit.start edit.stop

def range (text : List Char) (edit : Replacement) : Range :=
  ⟨positionAfter (text.take edit.start), positionAfter (text.take edit.stop)⟩

def change (text : List Char) (edit : Replacement) : Change := ⟨edit.new, some (edit.range text)⟩

def Precedes (earlier later : Replacement) : Prop := earlier.last ≤ later.start

instance (earlier later : Replacement) : Decidable (earlier.Precedes later) :=
  inferInstanceAs (Decidable (earlier.last ≤ later.start))

def Apart (first second : Replacement) : Prop := first.Precedes second ∨ second.Precedes first

instance (first second : Replacement) : Decidable (first.Apart second) :=
  inferInstanceAs (Decidable (first.Precedes second ∨ second.Precedes first))

abbrev LastToFirst (batch : List Replacement) : Prop :=
  batch.Pairwise fun later earlier => earlier.Precedes later

def insertedAt (edits : List Replacement) (place : Nat) : List Char :=
  (edits.filter (·.start = place)).flatMap (·.new.toList)

def IsTakenOut (edits : List Replacement) (place : Nat) : Prop :=
  ∃ edit ∈ edits, edit.start ≤ place ∧ place < edit.last

instance (edits : List Replacement) (place : Nat) : Decidable (IsTakenOut edits place) :=
  inferInstanceAs (Decidable (∃ edit ∈ edits, edit.start ≤ place ∧ place < edit.last))

-- What stands from a place on when all replacements are made at once.
def replaceFrom (edits : List Replacement) : Nat → List Char → List Char
  | place, [] => insertedAt edits place
  | place, c :: rest =>
    insertedAt edits place ++
      ((if IsTakenOut edits place then [] else [c]) ++ replaceFrom edits (place + 1) rest)

def replaceAll (text : List Char) (edits : List Replacement) : List Char := replaceFrom edits 0 text

theorem start_le_last (edit : Replacement) : edit.start ≤ edit.last := Nat.le_max_left _ _

theorem insertedAt_cons (edit : Replacement) (edits : List Replacement) (place : Nat) :
    insertedAt (edit :: edits) place =
      (if edit.start = place then edit.new.toList else []) ++ insertedAt edits place := by
  by_cases here : edit.start = place <;> simp [insertedAt, here]

theorem isTakenOut_cons : IsTakenOut (edit :: edits) place ↔
    (edit.start ≤ place ∧ place < edit.last) ∨ IsTakenOut edits place := by
  simp only [IsTakenOut, List.mem_cons, exists_eq_or_imp]

theorem insertedAt_before (behind : ∀ edit ∈ edits, place < edit.start) : insertedAt edits place = [] := by
  have none : edits.filter (·.start = place) = [] := List.filter_eq_nil_iff.2 fun edit member here =>
    absurd (of_decide_eq_true here) (Nat.ne_of_gt (behind edit member))
  rw [insertedAt, none, List.flatMap_nil]

theorem not_isTakenOut_before (behind : ∀ edit ∈ edits, place < edit.start) : ¬ IsTakenOut edits place :=
  fun ⟨edit, member, start, _⟩ => absurd (behind edit member) (Nat.not_lt.2 start)

theorem replaceFrom_kept (place : Nat) (back : List Char)
    (behind : ∀ edit ∈ edits, place + front.length ≤ edit.start) :
    replaceFrom edits place (front ++ back) =
      front ++ replaceFrom edits (place + front.length) back := by
  induction front generalizing place with
  | nil => rfl
  | cons c front ih =>
    rw [List.length_cons] at behind
    have here : ∀ edit ∈ edits, place < edit.start := fun edit member => by
      have start := behind edit member
      omega
    have next : ∀ edit ∈ edits, place + 1 + front.length ≤ edit.start := fun edit member => by
      have start := behind edit member
      omega
    have count : place + 1 + front.length = place + (c :: front).length := by
      rw [List.length_cons]; omega
    rw [List.cons_append, replaceFrom, insertedAt_before here, if_neg (not_isTakenOut_before here),
      ih (place + 1) next, count]
    rfl

theorem replaceFrom_congr {others : List Replacement}
    (inserted : ∀ i, place ≤ i → insertedAt edits i = insertedAt others i)
    (taken : ∀ i, place ≤ i → (IsTakenOut edits i ↔ IsTakenOut others i)) (chars : List Char) :
    replaceFrom edits place chars = replaceFrom others place chars := by
  induction chars generalizing place with
  | nil => exact inserted place (Nat.le_refl _)
  | cons c rest ih =>
    have next := ih (fun i le => inserted i (Nat.le_of_succ_le le))
      fun i le => taken i (Nat.le_of_succ_le le)
    rw [replaceFrom, replaceFrom, inserted place (Nat.le_refl _), next]
    simp only [taken place (Nat.le_refl _)]

theorem replaceFrom_passed (passed : edit.start < place) (ended : edit.last ≤ place) (chars : List Char) :
    replaceFrom (edit :: edits) place chars = replaceFrom edits place chars := by
  refine replaceFrom_congr (fun i le => ?_) (fun i le => ?_) chars
  · rw [insertedAt_cons, if_neg (by omega), List.nil_append]
  · rw [isTakenOut_cons, or_iff_right (by omega)]

theorem replaceFrom_range (passed : edit.start < place) (count : place + middle.length = edit.last)
    (behind : ∀ other ∈ edits, edit.last ≤ other.start) (back : List Char) :
    replaceFrom (edit :: edits) place (middle ++ back) = replaceFrom edits edit.last back := by
  induction middle generalizing place with
  | nil =>
    obtain rfl : place = edit.last := count
    exact replaceFrom_passed passed (Nat.le_refl _) back
  | cons c middle ih =>
    rw [List.length_cons] at count
    have inside : place < edit.last := by omega
    have before : ∀ other ∈ edits, place < other.start := fun other member =>
      Nat.lt_of_lt_of_le inside (behind other member)
    have taken : IsTakenOut (edit :: edits) place :=
      isTakenOut_cons.2 (.inl ⟨Nat.le_of_lt passed, inside⟩)
    rw [List.cons_append, replaceFrom, insertedAt_cons, if_neg (Nat.ne_of_lt passed),
      insertedAt_before before, if_pos taken, ih (Nat.lt_succ_of_lt passed) (by omega)]
    rfl

theorem replaceFrom_first (count : edit.start + middle.length = edit.last)
    (behind : ∀ other ∈ edits, edit.last ≤ other.start) (back : List Char) :
    replaceFrom (edit :: edits) edit.start (middle ++ back) =
      edit.new.toList ++ replaceFrom edits edit.last back := by
  cases middle with
  | nil =>
    have same : edit.start = edit.last := count
    rw [← same, List.nil_append]
    cases back with
    | nil => rw [replaceFrom, replaceFrom, insertedAt_cons, if_pos rfl]
    | cons c back =>
      have taken : IsTakenOut (edit :: edits) edit.start ↔ IsTakenOut edits edit.start := by
        rw [isTakenOut_cons, or_iff_right (by omega)]
      rw [replaceFrom, replaceFrom, insertedAt_cons, if_pos rfl,
        replaceFrom_passed (Nat.lt_succ_self _) (by omega), List.append_assoc]
      simp only [taken]
  | cons c middle =>
    rw [List.length_cons] at count
    have before : ∀ other ∈ edits, edit.start < other.start := fun other member => by
      have start := behind other member
      omega
    have taken : IsTakenOut (edit :: edits) edit.start :=
      isTakenOut_cons.2 (.inl ⟨Nat.le_refl _, by omega⟩)
    rw [List.cons_append, replaceFrom, insertedAt_cons, if_pos rfl, insertedAt_before before,
      List.append_nil, if_pos taken,
      replaceFrom_range (Nat.lt_succ_self _) (by omega) behind]
    rfl

theorem offset_kept (parts : text = front ++ back) (le : place ≤ front.length) (tail : List Char) :
    offset (front ++ tail) (positionAfter (text.take place)) = place := by
  have again := offset_positionAfter (front.take place) (front.drop place ++ tail)
  rw [← List.append_assoc, List.take_append_drop, List.length_take, Nat.min_eq_left le] at again
  rw [parts, List.take_append_of_le_length le, again]

theorem applyChange_kept (parts : text = front ++ back) (inside : edit.last ≤ front.length)
    (tail : List Char) :
    applyChange (front ++ tail) (edit.change text) =
      front.take edit.start ++ (edit.new.toList ++ (front.drop edit.last ++ tail)) := by
  have start := edit.start_le_last.trans inside
  have stop := (Nat.le_max_right edit.start edit.stop).trans inside
  simp only [applyChange, change, range, splice, offset_kept parts start, offset_kept parts stop]
  rw [List.take_append_of_le_length start, show max edit.start edit.stop = edit.last from rfl,
    List.drop_append_of_le_length inside, List.append_assoc]

theorem applyChange_replaceFrom (parts : text = front ++ back) (inside : edit.last ≤ front.length)
    (behind : ∀ other ∈ done, front.length ≤ other.start) :
    applyChange (front ++ replaceFrom done front.length back) (edit.change text) =
      front.take edit.start ++ replaceFrom (edit :: done) edit.start (text.drop edit.start) := by
  obtain ⟨middle, whole, joined⟩ := parts_of_range front edit.start edit.stop
  rw [show max edit.start edit.stop = edit.last from rfl] at whole joined
  have start := edit.start_le_last.trans inside
  have count := congrArg List.length joined
  rw [List.length_append, List.length_take, List.length_take, Nat.min_eq_left start,
    Nat.min_eq_left inside] at count
  have after : text.drop edit.start = middle ++ (front.drop edit.last ++ back) := by
    rw [parts, List.drop_append_of_le_length start, ← List.append_assoc]
    conv => lhs; arg 1; arg 2; rw [whole]
    rw [List.drop_left' (List.length_take_of_le start)]
  have kept := replaceFrom_kept edit.last back fun other member => by
    rw [List.length_drop, Nat.add_sub_of_le inside]
    exact behind other member
  rw [List.length_drop, Nat.add_sub_of_le inside] at kept
  rw [applyChange_kept parts inside, after,
    replaceFrom_first count fun other member => inside.trans (behind other member), kept]

theorem applyChanges_replaceFrom (parts : text = front ++ back)
    (behind : ∀ other ∈ done, front.length ≤ other.start)
    (inside : ∀ edit ∈ batch, edit.last ≤ front.length) (ordered : LastToFirst batch) :
    applyChanges (front ++ replaceFrom done front.length back) (batch.map (change text)) =
      replaceAll text (batch.reverse ++ done) := by
  induction batch generalizing front back done with
  | nil =>
    have kept := replaceFrom_kept 0 back (by rwa [Nat.zero_add])
    rw [Nat.zero_add, ← parts] at kept
    exact kept.symm
  | cons edit batch ih =>
    obtain ⟨before, ordered⟩ := List.pairwise_cons.1 ordered
    have last := inside edit List.mem_cons_self
    have start := edit.start_le_last.trans last
    have length : (front.take edit.start).length = edit.start := List.length_take_of_le start
    have same : front.take edit.start = text.take edit.start := by
      rw [parts, List.take_append_of_le_length start]
    have parts' : text = front.take edit.start ++ text.drop edit.start := by
      rw [same, List.take_append_drop]
    have behind' : ∀ other ∈ edit :: done, (front.take edit.start).length ≤ other.start := by
      rw [length, List.forall_mem_cons]
      exact ⟨Nat.le_refl _, fun other member => start.trans (behind other member)⟩
    have rest := ih parts' behind' (by rwa [length]) ordered
    rw [length] at rest
    rw [List.map_cons, applyChanges, List.foldl_cons, applyChange_replaceFrom parts last behind,
      List.reverse_cons, List.append_assoc]
    exact rest

theorem exists_lastToFirst (apart : edits.Pairwise Apart) :
    ∃ batch, batch.Perm edits ∧ LastToFirst batch := by
  induction edits with
  | nil => exact ⟨[], .nil, .nil⟩
  | cons edit edits ih =>
    obtain ⟨aside, apart⟩ := List.pairwise_cons.1 apart
    obtain ⟨batch, same, ordered⟩ := ih apart
    let isBehind (other : Replacement) : Bool := edit.Precedes other
    have behind : ∀ other ∈ batch.filter isBehind, edit.Precedes other := fun other member =>
      of_decide_eq_true (List.mem_filter.1 member).2
    have before : ∀ other ∈ batch.filter (!isBehind ·), other.Precedes edit := fun other member => by
      obtain ⟨member, off⟩ := List.mem_filter.1 member
      have apart := aside other (same.mem_iff.1 member)
      exact apart.resolve_left (of_decide_eq_false (Bool.not_eq_true' _ ▸ off))
    refine ⟨batch.filter isBehind ++ edit :: batch.filter (!isBehind ·), ?_, ?_⟩
    · exact List.perm_middle.trans (((List.filter_append_perm isBehind batch).trans same).cons edit)
    · refine List.pairwise_append.2 ⟨ordered.filter _, List.pairwise_cons.2 ⟨before, ordered.filter _⟩, ?_⟩
      intro later member earlier member'
      rcases List.mem_cons.1 member' with rfl | member'
      · exact behind later member
      · exact (before earlier member').trans (edit.start_le_last.trans (behind later member))

theorem eq_of_perm_of_start {found given : List Replacement} (same : found.Perm given)
    (distinct : (given.map (·.start)).Nodup) (here : ∀ edit ∈ given, edit.start = place) :
    found = given := by
  match given with
  | [] => exact same.eq_nil
  | [edit] => exact same.eq_singleton
  | first :: second :: rest =>
    have equal : first.start = second.start :=
      (here first List.mem_cons_self).trans (here second (List.mem_cons_of_mem _ List.mem_cons_self)).symm
    exact absurd equal (List.ne_of_not_mem_cons (List.nodup_cons.1 distinct).1)

-- Where no two replacements begin at one place, their order does not count.
theorem replaceAll_perm {others : List Replacement} (same : others.Perm edits)
    (distinct : (edits.map (·.start)).Nodup) (text : List Char) :
    replaceAll text others = replaceAll text edits := by
  refine replaceFrom_congr (fun i _ => ?inserted) (fun i _ => ?taken) text
  case inserted =>
    have equal : others.filter (·.start = i) = edits.filter (·.start = i) :=
      eq_of_perm_of_start (same.filter _) (distinct.sublist (List.filter_sublist.map _))
        fun edit member => of_decide_eq_true (List.mem_filter.1 member).2
    rw [insertedAt, insertedAt, equal]
  case taken => exact exists_congr fun edit => and_congr_left fun _ => same.mem_iff

-- Replacements that do not overlap are changes whose positions are of the text as it was. One order of
-- them goes from the last to the first, and in each such order they make the text that all make at once.
theorem descending_batch (file : TextFile) (edits : List Replacement) (fits : Fits file.text.toList)
    (inside : ∀ edit ∈ edits, edit.last ≤ file.text.toList.length) (apart : edits.Pairwise Apart) :
    (∀ edit ∈ edits, (edit.range file.text.toList).start.Fits ∧ (edit.range file.text.toList).stop.Fits ∧
      offset file.text.toList (edit.range file.text.toList).start = edit.start ∧
      offset file.text.toList (edit.range file.text.toList).stop = edit.stop) ∧
    (∃ batch, batch.Perm edits ∧ LastToFirst batch) ∧
    ∀ batch, batch.Perm edits → LastToFirst batch →
      (file.change (batch.map (change file.text.toList))).text =
        String.ofList (replaceAll file.text.toList batch.reverse) ∧
      ((edits.map (·.start)).Nodup →
        replaceAll file.text.toList batch.reverse = replaceAll file.text.toList edits) := by
  have whole : file.text.toList = file.text.toList ++ [] := (List.append_nil _).symm
  refine ⟨fun edit member => ?_, exists_lastToFirst apart,
    fun batch same ordered => ⟨?_, fun distinct => ?_⟩⟩
  · have sent (place : Nat) : (positionAfter (file.text.toList.take place)).Fits := by
      have parts := List.take_append_drop place file.text.toList
      rw [← parts] at fits
      exact fits.behind
    have start := edit.start_le_last.trans (inside edit member)
    have stop := (Nat.le_max_right edit.start edit.stop).trans (inside edit member)
    have found := offset_kept whole start []
    have found' := offset_kept whole stop []
    rw [← whole] at found found'
    exact ⟨sent _, sent _, found, found'⟩
  · have none : ∀ other ∈ ([] : List Replacement), file.text.toList.length ≤ other.start := nofun
    have made := applyChanges_replaceFrom whole none
      (fun edit member => inside edit (same.mem_iff.1 member)) ordered
    rw [show replaceFrom [] _ [] = [] from rfl, List.append_nil, List.append_nil] at made
    exact congrArg String.ofList made
  · exact replaceAll_perm ((List.reverse_perm batch).trans same) distinct _

-- A character outside the basic plane gives way to two lines, two lines are joined, and one is added.
theorem descending_batch_lines :
    Fits "a😀b\ncd\n".toList ∧
    ((⟨"notes", "a😀b\ncd\n"⟩ : TextFile).change
      [⟨"𝄞\n", some ⟨⟨2, 0⟩, ⟨2, 0⟩⟩⟩, ⟨"", some ⟨⟨0, 3⟩, ⟨1, 0⟩⟩⟩, ⟨"x\ny", some ⟨⟨0, 1⟩, ⟨0, 3⟩⟩⟩,
        ⟨"-", some ⟨⟨0, 0⟩, ⟨0, 0⟩⟩⟩]).text = "-ax\nycd\n𝄞\n" := by
  have fits : Fits "a😀b\ncd\n".toList := ⟨by decide, by decide⟩
  obtain ⟨-, -, made⟩ := descending_batch ⟨"notes", "a😀b\ncd\n"⟩
    [⟨1, 2, "x\ny"⟩, ⟨7, 7, "𝄞\n"⟩, ⟨2, 4, ""⟩, ⟨0, 0, "-"⟩] fits (by decide) (by decide)
  exact ⟨fits, (made [⟨7, 7, "𝄞\n"⟩, ⟨2, 4, ""⟩, ⟨1, 2, "x\ny"⟩, ⟨0, 0, "-"⟩] (by decide) (by decide)).1⟩

end Replacement
end LanguageRelay.Document
