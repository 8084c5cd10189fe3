import LanguageRelay.Proofs.Host.Confined
namespace LanguageRelay.Host
open LanguageRelay.Path
namespace FileSystem
variable {fs small large : FileSystem} {follow : Bool} {links : Nat} {here place : Place}
  {goal : String} {parts more : List String} {entry : Entry}

-- What leads on still does, and nothing has become a link.
structure Grows (small large : FileSystem) : Prop where
  directory : ∀ place, small.at? place = some .directory → large.at? place = some .directory
  link : ∀ place goal, small.at? place = some (.link goal) → large.at? place = some (.link goal)
  plain : ∀ place entry, small.at? place = some entry → (∀ goal, entry ≠ .link goal) →
    ∃ other, large.at? place = some other ∧ ∀ goal, other ≠ .link goal

theorem Grows.present (grows : Grows small large) (there : small.at? place = some entry) :
    ∃ other, large.at? place = some other := by
  cases entry with
  | link goal => exact ⟨_, grows.link _ _ there⟩
  | directory => exact ⟨_, grows.directory _ there⟩
  | file content executable =>
    obtain ⟨other, still, -⟩ := grows.plain _ _ there nofun
    exact ⟨other, still⟩
  | device =>
    obtain ⟨other, still, -⟩ := grows.plain _ _ there nofun
    exact ⟨other, still⟩

theorem Grows.of_subset
    (still : ∀ place entry, small.at? place = some entry → large.at? place = some entry) :
    Grows small large :=
  ⟨fun _ => still _ _, fun _ _ => still _ _, fun _ entry there noLink =>
    ⟨entry, still _ entry there, noLink⟩⟩

theorem Grows.put (noDirectory : fs.at? place ≠ some .directory)
    (noLink : ∀ goal, fs.at? place ≠ some (.link goal)) (plain : ∀ goal, entry ≠ .link goal) :
    Grows fs (fs.put place entry) := by
  have still : ∀ other, other ≠ place → (fs.put place entry).at? other = fs.at? other := by
    intro other apart
    rw [at?_put, if_neg apart]
    split
    · rename_i root
      rw [root]
      rfl
    · rfl
  refine ⟨?_, ?_, ?_⟩
  · intro other there
    rw [still other, there]
    rintro rfl
    exact noDirectory there
  · intro other goal there
    rw [still other, there]
    rintro rfl
    exact noLink goal there
  · intro other old there ordinary
    by_cases itself : other = place
    · subst itself
      refine ⟨entry, ?_, plain⟩
      rw [at?_put, if_neg, if_pos rfl]
      rintro rfl
      exact noDirectory rfl
    · exact ⟨old, (still other itself).trans there, ordinary⟩

theorem Arrives.grow (grows : Grows small large)
    (arrives : Arrives small follow links here parts (.present place entry)) :
    ∃ other, Arrives large follow links here parts (.present place other) := by
  generalize whole : Target.present place entry = target at arrives
  induction arrives with
  | done there =>
    cases whole
    obtain ⟨other, still⟩ := grows.present there
    exact ⟨other, .done still⟩
  | stay there blank _ ih =>
    obtain ⟨other, led⟩ := ih whole
    exact ⟨other, .stay (grows.directory _ there) blank led⟩
  | up there dots _ ih =>
    obtain ⟨other, led⟩ := ih whole
    exact ⟨other, .up (grows.directory _ there) dots led⟩
  | free => cases whole
  | stop there named led unfollowed =>
    cases whole
    exact ⟨_, .stop (grows.directory _ there) named (grows.link _ _ led) unfollowed⟩
  | through there named led leads followed _ ih =>
    obtain ⟨other, onward⟩ := ih whole
    exact ⟨other, .through (grows.directory _ there) named (grows.link _ _ led) leads followed onward⟩
  | down there named found noLink _ ih =>
    obtain ⟨other, onward⟩ := ih whole
    obtain ⟨new, still, plain⟩ := grows.plain _ _ found noLink
    exact ⟨other, .down (grows.directory _ there) named still plain onward⟩

theorem Arrives.put (noLink : ∀ goal, entry ≠ .link goal)
    (arrives : Arrives fs follow links here parts (.absent place)) :
    (∃ above name, place = above ++ [name] ∧ fs.at? above = some .directory) ∧
      Arrives (fs.put place entry) true links here parts (.present place entry) := by
  have none : fs.at? place = none := arrives.holds
  have grows : Grows fs (fs.put place entry) := .put (by rw [none]; nofun) (by rw [none]; nofun) noLink
  generalize whole : Target.absent place = target at arrives
  induction arrives with
  | done => cases whole
  | stay there blank _ ih =>
    obtain ⟨above, led⟩ := ih whole
    exact ⟨above, .stay (grows.directory _ there) blank led⟩
  | up there dots _ ih =>
    obtain ⟨above, led⟩ := ih whole
    exact ⟨above, .up (grows.directory _ there) dots led⟩
  | @free links here name there named free =>
    cases whole
    have put : (fs.put (here ++ [name]) entry).at? (here ++ [name]) = some entry := by
      rw [at?_put, if_neg (by simp), if_pos rfl]
    exact ⟨⟨_, _, rfl, there⟩, .down (grows.directory _ there) named put noLink (.done put)⟩
  | stop => cases whole
  | through there named led leads _ _ ih =>
    obtain ⟨above, onward⟩ := ih whole
    exact ⟨above, .through (grows.directory _ there) named (grows.link _ _ led) leads (.inl rfl) onward⟩
  | down there named found plain _ ih =>
    obtain ⟨above, onward⟩ := ih whole
    obtain ⟨new, still, plain⟩ := grows.plain _ _ found plain
    exact ⟨above, .down (grows.directory _ there) named still plain onward⟩

theorem Arrives.unfollowed (arrives : Arrives fs true links here parts (.present place entry)) :
    ∃ first other, Arrives fs false links here parts (.present first other) := by
  generalize whole : Target.present place entry = target at arrives
  induction arrives with
  | done there => exact ⟨_, _, .done there⟩
  | stay there blank _ ih =>
    obtain ⟨first, other, led⟩ := ih whole
    exact ⟨first, other, .stay there blank led⟩
  | up there dots _ ih =>
    obtain ⟨first, other, led⟩ := ih whole
    exact ⟨first, other, .up there dots led⟩
  | free => cases whole
  | stop _ _ _ unfollowed => cases unfollowed
  | @through links here name goal parts target there named found leads followed _ ih =>
    by_cases last : parts = []
    · subst last
      exact ⟨_, _, .stop there named found rfl⟩
    · obtain ⟨first, other, led⟩ := ih whole
      exact ⟨first, other, .through there named found leads (.inr last) led⟩
  | down there named found noLink _ ih =>
    obtain ⟨first, other, led⟩ := ih whole
    exact ⟨first, other, .down there named found noLink led⟩

theorem Arrives.starts (arrives : Arrives fs follow links here parts (.present place .directory)) :
    fs.at? here = some .directory := by
  cases arrives with
  | done there => exact there
  | stay there | up there | through there | down there => exact there

theorem walk_blanks (there : fs.at? here = some .directory)
    (blank : ∀ part ∈ parts, component? part = none) :
    fs.walk follow links here (parts ++ more) = fs.walk follow links here more := by
  induction parts with
  | nil => rfl
  | cons part parts ih =>
    rw [List.cons_append, walk_stay there (blank part List.mem_cons_self)]
    exact ih fun part member => blank part (List.mem_cons_of_mem _ member)

theorem Arrives.onward (arrives : Arrives fs true links here parts (.present place .directory)) :
    ∃ left, ∀ {other more follow}, other.filterMap component? = parts.filterMap component? →
      follow = true ∨ more ≠ [] →
      fs.walk follow links here (other ++ more) = fs.walk follow left place more := by
  generalize whole : Target.present place .directory = target at arrives
  induction arrives with
  | done there =>
    cases whole
    refine ⟨_, fun {other more follow} same _ => walk_blanks there ?_⟩
    exact List.filterMap_eq_nil_iff.1 same
  | stay there blank _ ih =>
    obtain ⟨left, led⟩ := ih whole
    refine ⟨left, fun {other more follow} same followed => led ?_ followed⟩
    rw [same, List.filterMap_cons, blank]
  | up there dots _ ih =>
    obtain ⟨left, led⟩ := ih whole
    refine ⟨left, fun {other more follow} same followed => ?_⟩
    rw [List.filterMap_cons, dots] at same
    obtain ⟨blanks, part, rest, rfl, blank, itself, after⟩ := List.filterMap_eq_cons_iff.1 same
    rw [List.append_assoc, walk_blanks there blank, List.cons_append, walk_up there itself]
    exact led after followed
  | free => cases whole
  | stop => cases whole
  | through there named found leads _ _ ih =>
    obtain ⟨left, led⟩ := ih whole
    refine ⟨left, fun {other more follow} same followed => ?_⟩
    rw [List.filterMap_cons, named.part] at same
    obtain ⟨blanks, part, rest, rfl, blank, itself, after⟩ := List.filterMap_eq_cons_iff.1 same
    obtain rfl := (component?_eq_normal.1 itself).1
    rw [List.append_assoc, walk_blanks there blank, List.cons_append,
      walk_through there named found leads, ← List.append_assoc]
    · refine led ?_ followed
      rw [List.filterMap_append, List.filterMap_append, after]
    · exact followed.imp_right fun longer => List.append_ne_nil_of_right_ne_nil _ longer
  | down there named found noLink _ ih =>
    obtain ⟨left, led⟩ := ih whole
    refine ⟨left, fun {other more follow} same followed => ?_⟩
    rw [List.filterMap_cons, named.part] at same
    obtain ⟨blanks, part, rest, rfl, blank, itself, after⟩ := List.filterMap_eq_cons_iff.1 same
    obtain rfl := (component?_eq_normal.1 itself).1
    rw [List.append_assoc, walk_blanks there blank, List.cons_append,
      walk_down there named found noLink]
    exact led after followed

end FileSystem
end LanguageRelay.Host
