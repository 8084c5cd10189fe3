import LanguageRelay.Proofs.Text.Split
import LanguageRelay.Uri.Parser
namespace LanguageRelay.Uri
variable {kind : SchemeKind} {chars segment : List Char}

-- A slash is written with a percent sign somewhere in the text.
def EncodedSlash (chars : List Char) : Prop := ['%', '2', 'f'] <:+: chars ∨ ['%', '2', 'F'] <:+: chars

instance (chars : List Char) : Decidable (EncodedSlash chars) :=
  inferInstanceAs (Decidable (['%', '2', 'f'] <:+: chars ∨ ['%', '2', 'F'] <:+: chars))

theorem EncodedSlash.mono {part : List Char} (inside : part <:+: chars) (encoded : EncodedSlash part) :
    EncodedSlash chars := by
  rcases encoded with small | large
  · exact .inl (small.trans inside)
  · exact .inr (large.trans inside)

structure Tame (text segment : List Char) : Prop where
  noSlash : '/' ∉ segment
  noParent : plainDots segment ≠ ['.', '.']
  traced : EncodedSlash segment → EncodedSlash text

theorem asDrive_cases (kind : SchemeKind) (first : Bool) (segment : List Char) :
    asDrive kind first segment = segment ∨
      ∃ c, c.isAlpha ∧ asDrive kind first segment = [c, ':'] := by
  unfold asDrive
  split
  · split
    · rename_i c alpha
      exact .inr ⟨c, alpha, rfl⟩
    · exact .inl rfl
  · exact .inl rfl

theorem mem_of_mem_stepUp {before : List (List Char)} (member : segment ∈ stepUp before) :
    segment ∈ before := by
  unfold stepUp at member
  split at member
  · exact member
  · split at member
    · exact member
    · exact List.mem_cons_of_mem _ member

-- What holds of the segments before, of an empty one, of a drive and of every segment that is no
-- dot segment holds of all that are left.
theorem normalize_forall {P : List Char → Prop} (empty : P []) (drive : ∀ c, c.isAlpha → P [c, ':'])
    {before segments : List (List Char)} (old : ∀ s ∈ before, P s)
    (new : ∀ s ∈ segments, plainDots s ≠ ['.', '.'] → P s) :
    ∀ s ∈ normalize kind before segments, P s := by
  induction segments generalizing before with
  | nil => exact fun s member => old s (List.mem_reverse.1 member)
  | cons segment rest ih =>
    have later := fun s member => new s (List.mem_cons_of_mem segment member)
    have after : ∀ earlier : List (List Char), (∀ s ∈ earlier, P s) →
        ∀ s ∈ if rest = [] then ([] :: earlier).reverse else normalize kind earlier rest, P s := by
      intro earlier known s member
      split at member
      · rcases List.mem_cons.1 (List.mem_reverse.1 member) with rfl | inside
        · exact empty
        · exact known s inside
      · exact ih known later s member
    rw [normalize]
    split
    · exact after _ fun s member => old s (mem_of_mem_stepUp member)
    · rename_i other
      split
      · exact after _ old
      · refine ih ?_ later
        intro s member
        rcases List.mem_cons.1 member with rfl | inside
        · rcases asDrive_cases kind (before = []) segment with same | ⟨c, alpha, named⟩
          · rw [same]; exact new segment List.mem_cons_self other
          · rw [named]; exact drive c alpha
        · exact old s inside

theorem tame_nil (text : List Char) : Tame text [] := by
  refine ⟨List.not_mem_nil, by decide, ?_⟩
  rintro (small | large)
  · cases List.infix_nil.1 small
  · cases List.infix_nil.1 large

theorem tame_drive (text : List Char) {c : Char} (alpha : c.isAlpha) : Tame text [c, ':'] := by
  refine ⟨?_, by simp [plainDots], ?_⟩
  · intro member
    rcases List.mem_cons.1 member with rfl | other
    · exact absurd alpha (by decide)
    · exact absurd other (by decide)
  · rintro (small | large)
    · exact absurd small.length_le (by simp)
    · exact absurd large.length_le (by simp)

theorem isInfix_of_map {word : List Char} (plain : '/' ∉ word)
    (inside : word <:+: chars.map fun c => if kind.isSlash c then '/' else c) : word <:+: chars := by
  obtain ⟨front, back, whole⟩ := inside
  rw [List.append_assoc] at whole
  obtain ⟨first, rest, rfl, -, after⟩ := List.map_eq_append_iff.1 whole.symm
  obtain ⟨middle, last, rfl, here, -⟩ := List.map_eq_append_iff.1 after
  have kept : middle = word := by
    refine Eq.trans (Eq.symm ?_) here
    refine (List.map_congr_left fun c member => ?_).trans (List.map_id middle)
    have image : (if kind.isSlash c then '/' else c) ∈ word := here ▸ List.mem_map_of_mem member
    split at image
    · exact absurd image plain
    · rename_i ordinary
      exact if_neg ordinary
  rw [← kept]
  exact ⟨first, last, List.append_assoc ..⟩

theorem EncodedSlash.of_map
    (encoded : EncodedSlash (chars.map fun c => if kind.isSlash c then '/' else c)) :
    EncodedSlash chars := by
  rcases encoded with small | large
  · exact .inl (isInfix_of_map (by decide) small)
  · exact .inr (isInfix_of_map (by decide) large)

theorem tame_of_mem_splitOn {path text : List Char} (traced : EncodedSlash path → EncodedSlash text)
    (member : segment ∈ Text.splitOn '/' path) (other : plainDots segment ≠ ['.', '.']) :
    Tame text segment :=
  ⟨Text.not_mem_of_mem_splitOn member, other, fun encoded =>
    traced (encoded.mono (Text.isInfix_of_mem_splitOn member))⟩

theorem tame_of_mem_pathSegments (member : segment ∈ pathSegments kind chars) : Tame chars segment := by
  have traced : EncodedSlash ((beforeQuery chars).map fun c => if kind.isSlash c then '/' else c) →
      EncodedSlash chars :=
    fun encoded => encoded.of_map.mono (List.takeWhile_prefix _).isInfix
  have normal : ∀ path, path <:+ ((beforeQuery chars).map fun c => if kind.isSlash c then '/' else c) →
      ∀ s ∈ normalize kind [] (Text.splitOn '/' path), Tame chars s :=
    fun path rest => normalize_forall (tame_nil chars) (fun _ alpha => tame_drive chars alpha) (by simp)
      fun s piece other => tame_of_mem_splitOn (fun encoded => traced (encoded.mono rest.isInfix)) piece other
  simp only [pathSegments] at member
  generalize whole : (beforeQuery chars).map (fun c => if kind.isSlash c then '/' else c) = path at *
  have kept {rest} (suffix : rest <:+ path)
      (among : segment ∈ (normalize kind [] (Text.splitOn '/' rest)).dropWhile (· == [])) :
      Tame chars segment :=
    normal rest suffix segment ((List.dropWhile_suffix _).subset among)
  split at member
  · split at member
    · rw [List.mem_singleton.1 member]
      exact tame_nil chars
    · split at member
      · exact kept (List.suffix_cons _ _) member
      · exact kept List.suffix_rfl member
  · split at member
    · exact normal _ (List.suffix_cons _ _) segment member
    · exact normal _ List.suffix_rfl segment member

theorem isSuffix_of_splitScheme {scheme : String} {rest : List Char}
    (found : splitScheme? chars = some (scheme, rest)) : rest <:+ chars := by
  simp only [splitScheme?] at found
  split at found
  · rename_i after
    split at found
    · cases found
      refine (List.suffix_cons ':' rest).trans ?_
      rw [← after]
      exact List.dropWhile_suffix _
    · cases found
  · cases found

theorem segments_of_afterAuthority {location : Location}
    (found : afterAuthority? kind chars = some location) :
    ∃ path, path <:+ chars ∧ location.segments = pathSegments kind path := by
  simp only [afterAuthority?] at found
  split at found
  · split at found
    · cases found
      exact ⟨chars, List.suffix_rfl, rfl⟩
    · cases found
      exact ⟨_, List.dropWhile_suffix _, rfl⟩
  · obtain ⟨host, -, rfl⟩ := Option.map_eq_some_iff.1 found
    exact ⟨_, List.dropWhile_suffix _, rfl⟩
  · split at found
    · cases found
      exact ⟨_, List.dropWhile_suffix _, rfl⟩
    · cases found

theorem segments_of_read {text : String} {location : Location} (read : Location.read? text = some location) :
    ∃ kind path, path <:+ clean text.toList ∧ location.segments = pathSegments kind path := by
  simp only [Location.read?] at read
  split at read
  · cases read
  · rename_i scheme rest found
    have whole := isSuffix_of_splitScheme found
    have authority : ∀ {after : List Char}, after <:+ rest →
        afterAuthority? (SchemeKind.of scheme) after = some location →
        ∃ kind path, path <:+ clean text.toList ∧ location.segments = pathSegments kind path := by
      intro after inside reads
      obtain ⟨path, within, parts⟩ := segments_of_afterAuthority reads
      exact ⟨_, path, within.trans (inside.trans whole), parts⟩
    split at read
    · exact authority (List.dropWhile_suffix _) read
    · split at read
      · exact authority ((List.suffix_cons _ _).trans (List.suffix_cons _ _)) read
      · cases read
        exact ⟨_, _, whole, rfl⟩
    · cases read
      exact ⟨_, _, whole, rfl⟩
    · exact authority ((List.suffix_cons _ _).trans (List.suffix_cons _ _)) read
    · cases read
      exact ⟨_, _, whole, rfl⟩
    · cases read

theorem tame_of_mem_segments {text : String} {location : Location}
    (read : Location.read? text = some location) (member : segment ∈ location.segments) :
    Tame (clean text.toList) segment := by
  obtain ⟨kind, path, inside, parts⟩ := segments_of_read read
  have tame := tame_of_mem_pathSegments (parts ▸ member)
  exact ⟨tame.noSlash, tame.noParent, fun encoded => (tame.traced encoded).mono inside.isInfix⟩

end LanguageRelay.Uri
