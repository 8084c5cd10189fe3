import LanguageRelay.Proofs.Host.Ground
namespace LanguageRelay.Host
open LanguageRelay.Path
namespace FileSystem
variable {fs made after : FileSystem} {place : Place} {path above : String} {entry : Entry}

-- The path leads to a directory with nothing in it.
structure Fresh (fs : FileSystem) (path : String) (place : Place) : Prop where
  led : fs.resolve true path = .ok (.present place .directory)
  empty : ∀ names, names ≠ [] → fs.at? (place ++ names) = none
  grounded : fs.Grounded

theorem Fresh.plain (fresh : Fresh fs path place) (absolute : isAbsolute path) : fs.Plain place := by
  intro names goal link
  by_cases last : names = []
  · have there : fs.at? place = some .directory := (arrives_of_resolve absolute fresh.led).holds
    rw [last, List.append_nil, there] at link
    cases link
  · rw [fresh.empty names last] at link
    cases link

theorem resolve_withoutEnd (absolute : isAbsolute path)
    (led : fs.resolve true path = .ok (.present place .directory)) :
    fs.resolve true (withoutEnd path) = .ok (.present place .directory) := by
  apply resolve_same absolute led (components_withoutEnd absolute).2
  rw [mem_withoutEnd]
  exact clean_of_resolve led

theorem createDirectory_of_directory (absolute : isAbsolute path)
    (led : fs.resolve true path = .ok (.present place .directory)) :
    fs.createDirectory path = .error .alreadyExists := by
  obtain ⟨first, other, there⟩ :=
    present_of_directory (components_withoutEnd absolute).1 (resolve_withoutEnd absolute led)
  rw [createDirectory, there]

theorem createUpTo_of_directory (absolute : isAbsolute path)
    (led : fs.resolve true path = .ok (.present place .directory)) (height : Nat) :
    fs.createUpTo height path = (.ok (), fs) := by
  have there := createDirectory_of_directory absolute led
  have ensured : fs.ensureDirectory path = (.ok (), fs) := by
    rw [ensureDirectory, there]
    simp only [isDirectory_iff.2 ⟨place, led⟩, if_true]
  cases height with
  | zero => simp only [createUpTo, ensured, ite_self]
  | succ height => simp only [createUpTo, wanted?, there, ensured, ite_self]

-- A directory is made at a free name in another one.
structure Makes (fs : FileSystem) (path : String) (above : Place) (name : String) : Prop where
  free : fs.resolve false (withoutEnd path) = .ok (.absent (above ++ [name]))
  within : fs.at? above = some .directory
  none : fs.at? (above ++ [name]) = none
  led : (fs.put (above ++ [name]) .directory).resolve true path =
    .ok (.present (above ++ [name]) .directory)

theorem createDirectory_ok (absolute : isAbsolute path) (done : fs.createDirectory path = .ok made) :
    ∃ above name, Makes fs path above name ∧ made = fs.put (above ++ [name]) .directory := by
  obtain ⟨starts, same⟩ := components_withoutEnd absolute
  rw [createDirectory] at done
  split at done
  · cases done
  · rename_i place led
    cases done
    have arrives := arrives_of_resolve starts led
    have noLink : ∀ goal, Entry.directory ≠ .link goal := by simp
    obtain ⟨⟨above, name, rfl, there⟩, put⟩ := arrives.put noLink
    have clean := clean_of_resolve led
    have again := (resolve_eq_walk starts clean).trans put.walk
    rw [mem_withoutEnd] at clean
    exact ⟨above, name, ⟨led, there, arrives.holds, resolve_same starts again same.symm clean⟩, rfl⟩
  · cases done

theorem ensureDirectory_ok (done : fs.ensureDirectory path = (.ok (), made)) :
    fs.createDirectory path = .ok made ∨ made = fs ∧ fs.isDirectory path := by
  rw [ensureDirectory] at done
  split at done
  · rename_i changed success
    cases done
    exact .inl success
  · split at done
    · rename_i there
      cases done
      exact .inr ⟨rfl, there⟩
    · cases done

theorem fresh_of_createDirectory (absolute : isAbsolute path) (grounded : fs.Grounded)
    (done : fs.createDirectory path = .ok made) : ∃ place, Fresh made path place := by
  obtain ⟨above, name, makes, rfl⟩ := createDirectory_ok absolute done
  refine ⟨above ++ [name], makes.led, ?_, ?_⟩
  · intro names present
    rw [at?_put, if_neg (by simp), if_neg (by simpa using present)]
    exact grounded.free makes.none names
  · apply grounded.put makes.within
    rw [makes.none]
    nofun

theorem fresh_of_ensureDirectory (absolute : isAbsolute path) (grounded : fs.Grounded)
    (missing : ¬ fs.isDirectory path) (done : fs.ensureDirectory path = (.ok (), made)) :
    ∃ place, Fresh made path place := by
  rcases ensureDirectory_ok done with created | ⟨-, there⟩
  · exact fresh_of_createDirectory absolute grounded created
  · exact absurd there missing

theorem Fresh.missing_below {name : String} {longer : String} (fresh : Fresh fs path place)
    (absolute : isAbsolute path) (below : components longer = components path ++ [.normal name]) :
    ¬ fs.isDirectory longer := by
  intro there
  obtain ⟨other, led⟩ := isDirectory_iff.1 there
  have onward : components longer = components path ++ [name].map .normal := below
  rcases resolve_below absolute fresh.led fresh.grounded (fresh.plain absolute) onward
    (.inl rfl) with ⟨entry, -, found⟩ | ⟨-, free | failed⟩ | ⟨e, -, failed⟩
  · rw [fresh.empty [name] (List.cons_ne_nil _ _)] at found
    cases found
  · rw [free] at led
    cases led
  · rw [failed] at led
    cases led
  · rw [failed] at led
    cases led

-- The parent of a missing directory is either there, and then nothing is made of it, or it is made.
theorem fresh_of_createUpTo {height : Nat} (absolute : isAbsolute path)
    (onward : Component.parent ∉ components path) (grounded : fs.Grounded)
    (missing : ¬ fs.isDirectory path) (done : fs.createUpTo height path = (.ok (), made)) :
    ∃ place, Fresh made path place := by
  induction height generalizing path made with
  | zero =>
    rw [createUpTo, if_neg (ne_empty_of_isAbsolute absolute)] at done
    exact fresh_of_ensureDirectory absolute grounded missing done
  | succ height ih =>
    rw [createUpTo, if_neg (ne_empty_of_isAbsolute absolute)] at done
    split at done
    · exact fresh_of_ensureDirectory absolute grounded missing done
    · rename_i above wanted
      have parent := parent_of_wanted wanted
      have starts := (components_parent absolute parent).1
      obtain ⟨name, whole⟩ := name_of_parent absolute onward parent
      split at done
      · rename_i middle upper
        by_cases there : fs.isDirectory above
        · obtain ⟨place, led⟩ := isDirectory_iff.1 there
          rw [createUpTo_of_directory starts led] at upper
          cases upper
          exact fresh_of_ensureDirectory absolute grounded missing done
        · have before : Component.parent ∉ components above := by
            intro member
            apply onward
            rw [whole]
            exact List.mem_append_left _ member
          obtain ⟨place, fresh⟩ := ih starts before there upper
          exact fresh_of_ensureDirectory absolute fresh.grounded (fresh.missing_below starts whole) done
      · rename_i failed
        exact (failed () made done).elim

-- What has been removed is gone with all below it. Nothing else changes.
structure Emptied (fs after : FileSystem) (place : Place) : Prop where
  still : ∀ other entry, after.at? other = some entry → fs.at? other = some entry
  gone : ∀ names, place ++ names ≠ [] → after.at? (place ++ names) = none
  grounded : after.Grounded

theorem at?_removeEntry (fs : FileSystem) (place other : Place) :
    (fs.removeEntry place).at? other =
      if other = [] then some .directory else if other = place then none else fs.at? other := by
  simp only [at?, removeEntry]
  rw [lookup_filter fun other => other != place]
  by_cases root : other = []
  · rw [if_pos root, if_pos root]
  · by_cases same : other = place
    · simp [same]
    · simp [root, same]

theorem emptied_removeTree (grounded : fs.Grounded) : Emptied fs (fs.removeTree place) place := by
  have still : ∀ other entry, (fs.removeTree place).at? other = some entry → fs.at? other = some entry := by
    intro other entry there
    rw [at?_removeTree] at there
    split at there
    · rename_i root
      rw [root]
      exact there
    · split at there
      · cases there
      · exact there
  refine ⟨still, ?_, ?_⟩
  · intro names present
    rw [at?_removeTree, if_neg present, if_pos (List.prefix_append _ _)]
  · intro other last there
    have outside : ¬ place <+: other ++ [last] := by
      intro inside
      rw [at?_removeTree, if_neg (by simp), if_pos inside] at there
      exact there rfl
    have upper : fs.at? other = some .directory := by
      apply grounded other last
      rwa [at?_removeTree, if_neg (by simp), if_neg outside] at there
    rw [at?_removeTree]
    split
    · rfl
    · rw [if_neg]
      · exact upper
      · exact fun inside => outside (inside.trans (List.prefix_append _ _))

theorem emptied_removeEntry {goal : String} (grounded : fs.Grounded)
    (link : fs.at? place = some (.link goal)) : Emptied fs (fs.removeEntry place) place := by
  have alone : ∀ names, names ≠ [] → fs.at? (place ++ names) = none := by
    intro names present
    by_contra there
    rw [grounded.above present there] at link
    cases link
  have still : ∀ other entry, (fs.removeEntry place).at? other = some entry → fs.at? other = some entry := by
    intro other entry there
    rw [at?_removeEntry] at there
    split at there
    · rename_i root
      rw [root]
      exact there
    · split at there
      · cases there
      · exact there
  refine ⟨still, ?_, ?_⟩
  · intro names present
    rw [at?_removeEntry, if_neg present]
    split
    · rfl
    · rename_i other
      exact alone names fun none => other (by rw [none, List.append_nil])
  · intro other last there
    cases found : (fs.removeEntry place).at? (other ++ [last]) with
    | none => exact absurd found there
    | some entry =>
      have upper := grounded other last (by rw [still _ _ found]; nofun)
      rw [at?_removeEntry]
      split
      · rfl
      · rw [if_neg]
        · exact upper
        · rintro rfl
          rw [link] at upper
          cases upper

theorem removeAll_ok (grounded : fs.Grounded) (absolute : isAbsolute path)
    (removed : fs.removeAll path = .ok after) :
    ∃ place entry, fs.resolve false path = .ok (.present place entry) ∧ Emptied fs after place := by
  rw [removeAll] at removed
  split at removed
  · rename_i place led
    cases removed
    exact ⟨place, _, led, emptied_removeTree grounded⟩
  · rename_i place goal led
    cases removed
    exact ⟨place, _, led, emptied_removeEntry grounded (arrives_of_resolve absolute led).holds⟩
  · cases removed
  · cases removed
  · cases removed

-- After a path has been removed only the root can still be a directory there, with nothing left in it.
theorem Emptied.fresh (emptied : Emptied fs after place) (absolute : isAbsolute path)
    (led : fs.resolve false path = .ok (.present place entry)) (there : after.isDirectory path) :
    Fresh after path [] := by
  obtain ⟨left, still⟩ := isDirectory_iff.1 there
  obtain ⟨first, other, unfollowed⟩ := present_of_directory absolute still
  have arrives := arrives_of_resolve absolute unfollowed
  obtain ⟨old, same⟩ := arrives.grow (.of_subset emptied.still)
  have itself : first = place := by
    have before := (resolve_eq_walk absolute (clean_of_resolve led)).trans same.walk
    rw [led] at before
    cases before
    rfl
  subst itself
  have root : first = [] := by
    by_contra present
    have gone := emptied.gone [] (by simpa using present)
    rw [List.append_nil, arrives.holds] at gone
    cases gone
  subst root
  have nothing : ∀ names, names ≠ [] → after.at? names = none := fun names present =>
    emptied.gone names present
  have top : left = [] := by
    by_contra present
    have directory : after.at? left = some .directory := (arrives_of_resolve absolute still).holds
    rw [nothing left present] at directory
    cases directory
  subst top
  exact ⟨still, nothing, emptied.grounded⟩

theorem fresh_of_removeAll (absolute : isAbsolute path) (onward : Component.parent ∉ components path)
    (grounded : fs.Grounded) (removed : fs.removeAll path = .ok after)
    (done : after.createAll path = (.ok (), made)) : ∃ place, Fresh made path place := by
  obtain ⟨place, entry, led, emptied⟩ := removeAll_ok grounded absolute removed
  by_cases there : after.isDirectory path
  · have fresh := emptied.fresh absolute led there
    rw [createAll, createUpTo_of_directory absolute fresh.led] at done
    cases done
    exact ⟨[], fresh⟩
  · exact fresh_of_createUpTo absolute onward emptied.grounded there done

theorem fresh_of_missing (absolute : isAbsolute path) (onward : Component.parent ∉ components path)
    (grounded : fs.Grounded) (missing : fs.removeAll path = .error .notFound)
    (done : fs.createAll path = (.ok (), made)) : ∃ place, Fresh made path place := by
  apply fresh_of_createUpTo absolute onward grounded _ done
  intro there
  obtain ⟨place, led⟩ := isDirectory_iff.1 there
  obtain ⟨first, other, unfollowed⟩ := present_of_directory absolute led
  rw [removeAll, unfollowed] at missing
  cases other <;> cases missing

end FileSystem
end LanguageRelay.Host
