import LanguageRelay.Proofs.Host.Growth
namespace LanguageRelay.Host
open LanguageRelay.Path
namespace FileSystem
variable {fs : FileSystem} {follow : Bool} {links : Nat} {place upper : Place} {name root path : String}
  {names parts : List String} {entry : Entry}

-- Whatever is there is in a directory.
def Grounded (fs : FileSystem) : Prop :=
  ∀ place name, fs.at? (place ++ [name]) ≠ none → fs.at? place = some .directory

-- There is no link in the tree.
def Plain (fs : FileSystem) (place : Place) : Prop :=
  ∀ names goal, fs.at? (place ++ names) ≠ some (.link goal)

theorem Grounded.above (grounded : fs.Grounded) (present : names ≠ [])
    (there : fs.at? (place ++ names) ≠ none) : fs.at? place = some .directory := by
  induction names using List.reverseRecOn with
  | nil => exact absurd rfl present
  | append_singleton names name ih =>
    rw [← List.append_assoc] at there
    have upper := grounded _ _ there
    by_cases last : names = []
    · rwa [last, List.append_nil] at upper
    · exact ih last (by rw [upper]; nofun)

theorem Grounded.free (grounded : fs.Grounded) (free : fs.at? place = none) (names : List String) :
    fs.at? (place ++ names) = none := by
  by_cases last : names = []
  · rwa [last, List.append_nil]
  · by_contra there
    rw [grounded.above last there] at free
    cases free

theorem Grounded.put (grounded : fs.Grounded) (there : fs.at? upper = some .directory)
    (free : fs.at? (upper ++ [name]) ≠ some .directory) (entry : Entry) :
    (fs.put (upper ++ [name]) entry).Grounded := by
  have still : ∀ place, fs.at? place = some .directory →
      (fs.put (upper ++ [name]) entry).at? place = some .directory := by
    intro place directory
    have apart : place ≠ upper ++ [name] := by
      rintro rfl
      exact free directory
    rw [at?_put, if_neg apart]
    split
    · rfl
    · exact directory
  intro other last found
  apply still
  rw [at?_put, if_neg (by simp)] at found
  split at found
  · rename_i same
    rw [(List.append_inj' same rfl).1]
    exact there
  · exact grounded other last found

theorem Plain.below (plain : fs.Plain place) (name : String) : fs.Plain (place ++ [name]) := by
  intro names goal
  rw [List.append_assoc]
  exact plain _ _

theorem walk_below (grounded : fs.Grounded) (plain : fs.Plain place)
    (there : fs.at? place = some .directory) (below : parts.filterMap component? = names.map .normal) :
    (∃ entry, fs.walk follow links place parts = .ok (.present (place ++ names) entry) ∧
      fs.at? (place ++ names) = some entry) ∨
    fs.at? (place ++ names) = none ∧ (fs.walk follow links place parts = .ok (.absent (place ++ names)) ∨
      fs.walk follow links place parts = .error .notFound) ∨
    ∃ e, e ≠ .notFound ∧ fs.walk follow links place parts = .error e := by
  induction parts generalizing place names with
  | nil =>
    obtain rfl := List.map_eq_nil_iff.1 below.symm
    rw [List.append_nil]
    exact .inl ⟨_, walk_nil there, there⟩
  | cons part parts ih =>
    rw [List.filterMap_cons] at below
    cases kind : component? part with
    | none =>
      rw [kind] at below
      rw [walk_stay there kind]
      exact ih plain there below
    | some component =>
      rw [kind] at below
      obtain ⟨name, names, rfl, rfl, after⟩ := List.map_eq_cons_iff.1 below.symm
      obtain ⟨rfl, ordinary, other⟩ := component?_eq_normal.1 kind
      by_cases long : nameLimit < Path.byteLength part
      · refine .inr (.inr ⟨.nameTooLong, by simp, ?_⟩)
        rw [walk, if_neg (not_not_intro there), if_neg ordinary, if_neg other, if_pos long]
      have named : Named part := ⟨kind, long⟩
      rw [List.append_cons]
      cases found : fs.at? (place ++ [part]) with
      | none =>
        refine .inr (.inl ⟨grounded.free found names, ?_⟩)
        rw [walk_free there named found]
        split
        · rename_i last
          rw [last] at after
          rw [List.map_eq_nil_iff.1 after, List.append_nil]
          exact .inl rfl
        · exact .inr rfl
      | some entry =>
        have noLink : ∀ goal, entry ≠ .link goal := fun goal link => plain [part] goal (link ▸ found)
        rw [walk_down there named found noLink]
        by_cases directory : entry = .directory
        · exact ih (plain.below part) (directory ▸ found) after.symm
        · cases parts with
          | nil =>
            rw [List.map_eq_nil_iff.1 after, List.append_nil]
            exact .inl ⟨entry, walk_nil found, found⟩
          | cons next parts =>
            refine .inr (.inr ⟨.notDirectory, by simp, ?_⟩)
            rw [walk, if_pos]
            rw [found]
            simpa using directory

-- A path of text is walked from the root. One with a zero character leads nowhere.
theorem resolve_eq_walk (absolute : isAbsolute path) (clean : '\x00' ∉ path.toList) :
    fs.resolve follow path = fs.walk follow linkLimit [] (segments path) := by
  have present : path ≠ "" := by
    rintro rfl
    exact absurd absolute (by decide)
  rw [resolve, if_neg (by simpa using clean), if_neg present, origin, if_pos absolute]

theorem resolve_unclean (unclean : '\x00' ∈ path.toList) :
    fs.resolve follow path = .error .nulInPath := by
  rw [resolve, if_pos (by simpa using unclean)]

theorem clean_of_resolve {target : Target} (led : fs.resolve follow path = .ok target) :
    '\x00' ∉ path.toList := by
  intro unclean
  rw [resolve_unclean unclean] at led
  cases led

theorem arrives_of_resolve {target : Target} (absolute : isAbsolute path)
    (led : fs.resolve follow path = .ok target) :
    Arrives fs follow linkLimit [] (segments path) target := by
  rw [resolve_eq_walk absolute (clean_of_resolve led)] at led
  exact arrives_of_walk led

theorem mem_withoutEnd : '\x00' ∈ (withoutEnd path).toList ↔ '\x00' ∈ path.toList := by
  have parted := congrArg List.reverse (List.takeWhile_append_dropWhile
    (p := (· == '/')) (l := path.toList.reverse))
  rw [List.reverse_append, List.reverse_reverse] at parted
  have only : '\x00' ∉ (path.toList.reverse.takeWhile (· == '/')).reverse := by
    intro member
    have slash := List.mem_takeWhile_imp (List.mem_reverse.1 member)
    exact absurd slash (by decide)
  rw [withoutEnd]
  split
  · rename_i none
    rw [none, List.reverse_nil, List.nil_append] at parted
    rw [parted] at only
    rw [String.toList_ofList]
    exact iff_of_false (fun member => only (List.mem_of_mem_take member)) only
  · have whole := List.mem_append (a := '\x00')
      (s := (path.toList.reverse.dropWhile (· == '/')).reverse)
      (t := (path.toList.reverse.takeWhile (· == '/')).reverse)
    rw [parted] at whole
    rw [String.toList_ofList, whole]
    exact ⟨.inl, fun member => member.resolve_right only⟩

theorem isDirectory_iff :
    fs.isDirectory path ↔ ∃ place, fs.resolve true path = .ok (.present place .directory) := by
  rw [isDirectory, entry?]
  cases led : fs.resolve true path with
  | error e => simp
  | ok target =>
    cases target with
    | absent place => simp
    | present place entry => cases entry <;> simp

theorem resolve_onward (absolute : isAbsolute root)
    (led : fs.resolve true root = .ok (.present place .directory)) :
    ∃ left, ∀ {path tail}, components path = components root ++ tail → '\x00' ∉ path.toList →
      ∃ parts, parts.filterMap component? = tail ∧ ∀ follow, follow = true ∨ tail ≠ [] →
        fs.resolve follow path = fs.walk follow left place parts := by
  obtain ⟨left, onward⟩ := (arrives_of_resolve absolute led).onward
  refine ⟨left, fun {path tail} below clean => ?_⟩
  have rooted := below
  rw [components_of_isAbsolute absolute, List.cons_append] at rooted
  have starts := isAbsolute_of_components rooted
  rw [components_of_isAbsolute starts, List.cons.injEq] at rooted
  obtain ⟨front, parts, whole, same, rest⟩ := List.filterMap_eq_append_iff.1 rooted.2
  refine ⟨parts, rest, fun follow followed => ?_⟩
  rw [resolve_eq_walk starts clean, whole]
  apply onward same
  apply followed.imp_right
  rintro present rfl
  exact present rest.symm

theorem resolve_below (absolute : isAbsolute root)
    (led : fs.resolve true root = .ok (.present place .directory)) (grounded : fs.Grounded)
    (plain : fs.Plain place) (below : components path = components root ++ names.map .normal)
    (followed : follow = true ∨ names ≠ []) :
    (∃ entry, fs.resolve follow path = .ok (.present (place ++ names) entry) ∧
      fs.at? (place ++ names) = some entry) ∨
    fs.at? (place ++ names) = none ∧ (fs.resolve follow path = .ok (.absent (place ++ names)) ∨
      fs.resolve follow path = .error .notFound) ∨
    ∃ e, e ≠ .notFound ∧ fs.resolve follow path = .error e := by
  by_cases clean : '\x00' ∈ path.toList
  · exact .inr (.inr ⟨.nulInPath, nofun, resolve_unclean clean⟩)
  · obtain ⟨left, onward⟩ := resolve_onward absolute led
    obtain ⟨parts, same, walked⟩ := onward below clean
    rw [walked follow (followed.imp_right fun present => by simpa using present)]
    exact walk_below grounded plain (arrives_of_resolve absolute led).holds same

theorem resolve_same (absolute : isAbsolute root)
    (led : fs.resolve true root = .ok (.present place .directory))
    (same : components path = components root) (clean : '\x00' ∉ path.toList) :
    fs.resolve true path = .ok (.present place .directory) := by
  obtain ⟨left, onward⟩ := resolve_onward absolute led
  obtain ⟨parts, blank, walked⟩ := onward (same.trans (List.append_nil _).symm) clean
  have there : fs.at? place = some .directory := (arrives_of_resolve absolute led).holds
  have still : fs.walk true left place (parts ++ []) = fs.walk true left place [] :=
    walk_blanks there (List.filterMap_eq_nil_iff.1 blank)
  rw [walked true (.inl rfl), ← List.append_nil parts, still, walk_nil there]

theorem present_of_directory (absolute : isAbsolute path)
    (led : fs.resolve true path = .ok (.present place entry)) :
    ∃ first other, fs.resolve false path = .ok (.present first other) := by
  obtain ⟨first, other, there⟩ := (arrives_of_resolve absolute led).unfollowed
  exact ⟨first, other, (resolve_eq_walk absolute (clean_of_resolve led)).trans there.walk⟩

end FileSystem
end LanguageRelay.Host
