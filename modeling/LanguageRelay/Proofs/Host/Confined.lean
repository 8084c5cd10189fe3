import LanguageRelay.Proofs.Host.Resolution
namespace LanguageRelay.Host
open LanguageRelay.Path

-- Outside the tree nothing changes but that directories appear on certain ways; the directory that is
-- the tree itself may go.
structure Kept (tree : Place) (ways : Place → Prop) (before after : FileSystem) : Prop where
  outside : ∀ place, ¬ Below tree place → after.at? place = before.at? place ∨
    ways place ∧ before.at? place = none ∧ after.at? place = some .directory ∨
    place = tree ∧ before.at? place = some .directory ∧ after.at? place = none
  noLinks : before.NoLinks → after.NoLinks

variable {fs before middle after : FileSystem} {tree : Place} {ways : Place → Prop} {path : String}

theorem Kept.refl (tree : Place) (ways : Place → Prop) (fs : FileSystem) : Kept tree ways fs fs :=
  ⟨fun _ _ => .inl rfl, fun plain => plain⟩

theorem Kept.trans (first : Kept tree ways before middle) (second : Kept tree ways middle after) :
    Kept tree ways before after := by
  refine ⟨fun place outside => ?_, fun plain => second.noLinks (first.noLinks plain)⟩
  rcases second.outside place outside with same | ⟨onWay, free, made⟩ | ⟨itself, there, gone⟩
  · rw [same]
    exact first.outside place outside
  · rcases first.outside place outside with same | ⟨-, -, made⟩ | ⟨itself, there, -⟩
    · exact .inr (.inl ⟨onWay, same ▸ free, made⟩)
    · rw [free] at made
      cases made
    · exact .inl (made.trans there.symm)
  · rcases first.outside place outside with same | ⟨-, free, -⟩ | ⟨-, -, gone⟩
    · exact .inr (.inr ⟨itself, same ▸ there, gone⟩)
    · exact .inl (gone.trans free.symm)
    · rw [there] at gone
      cases gone

namespace FileSystem

theorem at?_put (fs : FileSystem) (place other : Place) (entry : Entry) :
    (fs.put place entry).at? other =
      if other = [] then some .directory else if other = place then some entry else fs.at? other := by
  simp only [at?, put, List.lookup_cons]
  by_cases root : other = []
  · rw [if_pos root, if_pos root]
  · rw [if_neg root, if_neg root]
    by_cases same : other = place
    · simp [same]
    · have apart : (other == place) = false := beq_eq_false_iff_ne.2 same
      rw [apart, if_neg same, lookup_filter fun place' => place' != place]
      simp [same, root]

theorem at?_removeTree (fs : FileSystem) (place other : Place) :
    (fs.removeTree place).at? other =
      if other = [] then some .directory else if place <+: other then none else fs.at? other := by
  simp only [at?, removeTree]
  rw [lookup_filter fun other => !place.isPrefixOf other]
  by_cases root : other = []
  · rw [if_pos root, if_pos root]
  · by_cases inside : place <+: other
    · simp [root, inside, List.isPrefixOf_iff_prefix.2 inside]
    · simp [root, inside]

theorem NoLinks.put (plain : fs.NoLinks) {place : Place} {entry : Entry}
    (noLink : ∀ target, entry ≠ .link target) : (fs.put place entry).NoLinks := by
  intro other target there
  rw [at?_put] at there
  split at there
  · cases there
  · split at there
    · exact noLink target (Option.some.inj there)
    · exact plain other target there

theorem NoLinks.removeTree (plain : fs.NoLinks) {place : Place} : (fs.removeTree place).NoLinks := by
  intro other target there
  rw [at?_removeTree] at there
  split at there
  · cases there
  · split at there
    · cases there
    · exact plain other target there

end FileSystem
open FileSystem

theorem kept_put {place : Place} {entry : Entry} (below : Below tree place)
    (noLink : ∀ target, entry ≠ .link target) : Kept tree ways fs (fs.put place entry) := by
  refine ⟨fun other outside => .inl ?_, fun plain => plain.put noLink⟩
  have apart : other ≠ place := fun same => outside (same ▸ below)
  rw [at?_put, if_neg apart]
  split
  · rename_i root
    rw [root]
    rfl
  · rfl

theorem kept_write {content : Bytes} (plain : fs.NoLinks) (absolute : isAbsolute path)
    (below : Below tree (resolved path)) (written : fs.write path content = .ok after) :
    Kept tree ways fs after := by
  rw [write] at written
  split at written
  · split at written <;> cases written
  · split at written
    · rename_i place old executable led
      obtain ⟨-, rfl⟩ := resolve_ok plain absolute led
      cases written
      exact kept_put below nofun
    · cases written
      exact .refl _ _ _
    · cases written
    · rename_i place led
      obtain ⟨-, rfl⟩ := resolve_ok plain absolute led
      cases written
      exact kept_put below nofun
    · cases written

theorem kept_createDirectory (plain : fs.NoLinks) (absolute : isAbsolute path)
    (onWay : ways (resolved path)) (made : fs.createDirectory path = .ok after) :
    Kept tree ways fs after := by
  obtain ⟨absolute, same⟩ := components_withoutEnd absolute
  have there : resolved (withoutEnd path) = resolved path := by rw [resolved, same, resolved]
  rw [createDirectory] at made
  split at made
  · cases made
  · rename_i place led
    obtain ⟨free, rfl⟩ := resolve_ok plain absolute led
    cases made
    refine ⟨fun other _ => ?_, fun plain => plain.put (by simp)⟩
    rw [at?_put]
    split
    · rename_i root
      exact .inl (root ▸ rfl)
    · split
      · rename_i itself
        rw [itself]
        exact .inr (.inl ⟨there ▸ onWay, free, rfl⟩)
      · exact .inl rfl
  · cases made

theorem kept_ensureDirectory (plain : fs.NoLinks) (absolute : isAbsolute path)
    (onWay : ways (resolved path)) : Kept tree ways fs (fs.ensureDirectory path).2 := by
  rw [ensureDirectory]
  split
  · rename_i made success
    exact kept_createDirectory plain absolute onWay success
  · exact .refl _ _ _

theorem onWay_parent {above : String} (absolute : isAbsolute path) (parent : parent? path = some above)
    (onWay : ∀ front, front <+: components path → ways (follow [] front)) :
    ∀ front, front <+: components above → ways (follow [] front) := by
  intro front inside
  rw [(components_parent absolute parent).2] at inside
  exact onWay front (inside.trans (List.dropLast_prefix _))

theorem parent_of_wanted {above : String} (wanted : fs.wanted? path = some above) :
    parent? path = some above := by
  rw [wanted?] at wanted
  split at wanted
  · exact wanted
  · cases wanted

theorem kept_createUpTo {height : Nat} (plain : fs.NoLinks) (absolute : isAbsolute path)
    (onWay : ∀ front, front <+: components path → ways (follow [] front)) :
    Kept tree ways fs (fs.createUpTo height path).2 := by
  induction height generalizing path with
  | zero =>
    rw [createUpTo]
    split
    · exact .refl _ _ _
    · exact kept_ensureDirectory plain absolute (onWay _ List.prefix_rfl)
  | succ height ih =>
    rw [createUpTo]
    split
    · exact .refl _ _ _
    · split
      · exact kept_ensureDirectory plain absolute (onWay _ List.prefix_rfl)
      · rename_i above wanted
        have parent := parent_of_wanted wanted
        have upper := ih (components_parent absolute parent).1 (onWay_parent absolute parent onWay)
        split
        · rename_i made done
          rw [done] at upper
          exact upper.trans
            (kept_ensureDirectory (upper.noLinks plain) absolute (onWay _ List.prefix_rfl))
        · exact upper

theorem kept_createAll (plain : fs.NoLinks) (absolute : isAbsolute path)
    (onWay : ∀ front, front <+: components path → ways (follow [] front)) :
    Kept tree ways fs (fs.createAll path).2 := kept_createUpTo plain absolute onWay

theorem kept_removeAll (plain : fs.NoLinks) (absolute : isAbsolute path)
    (removed : fs.removeAll path = .ok after) : Kept (resolved path) ways fs after := by
  rw [removeAll] at removed
  split at removed
  · rename_i place led
    obtain ⟨there, rfl⟩ := resolve_ok plain absolute led
    cases removed
    refine ⟨fun other outside => ?_, fun plain => plain.removeTree⟩
    rw [at?_removeTree]
    split
    · rename_i root
      exact .inl (root ▸ rfl)
    · split
      · rename_i inside
        have itself : other = resolved path :=
          Decidable.byContradiction fun apart => outside ⟨inside, apart⟩
        exact .inr (.inr ⟨itself, itself ▸ there, rfl⟩)
      · exact .inl rfl
  · rename_i place target led
    exact absurd (resolve_ok plain absolute led).1 (plain _ _)
  · cases removed
  · cases removed
  · cases removed

end LanguageRelay.Host
