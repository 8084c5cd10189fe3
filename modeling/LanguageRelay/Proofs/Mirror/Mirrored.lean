import Mathlib.Data.List.Infix
import LanguageRelay.Host.FileSystem
import LanguageRelay.Mirror.Plan
namespace LanguageRelay.Mirror
open Host Document LanguageRelay.Path
variable {root : String} {jobs : List Job} {job : Job} {names other : Place} {entry : Entry}

def spot (root : String) (names : Place) : List Component := components root ++ names.map .normal

def changesAt (root : String) (jobs : List Job) (names : Place) : List Change :=
  (jobs.filter fun job => components job.path = spot root names).flatMap Job.changes

def textAt (root : String) (jobs : List Job) (names : Place) : String :=
  String.ofList (applyChanges [] (changesAt root jobs names))

def mirrored (root : String) (jobs : List Job) (names : Place) : Option Entry :=
  if ∃ job ∈ jobs, components job.path = spot root names then
    some (.file (Text.utf8 (textAt root jobs names)) false)
  else if ∃ job ∈ jobs, spot root names <+: components job.path then some .directory
  else none

theorem normal_injective : Function.Injective Component.normal := by
  intro a b same
  exact Component.normal.inj same

theorem spot_inj : spot root names = spot root other ↔ names = other := by
  rw [spot, spot, List.append_right_inj, List.map_inj_right normal_injective]

theorem spot_prefix_spot : spot root names <+: spot root other ↔ names <+: other := by
  rw [spot, spot, List.prefix_append_right_inj, List.prefix_map_iff_of_injective normal_injective]

theorem mirrored_nil : mirrored root [] names = none := by
  simp [mirrored]

theorem mirrored_cases (there : mirrored root jobs names = some entry) :
    entry = .file (Text.utf8 (textAt root jobs names)) false ∨ entry = .directory := by
  rw [mirrored] at there
  split at there
  · cases there
    exact .inl rfl
  · split at there
    · cases there
      exact .inr rfl
    · cases there

theorem no_job_of_mirrored (free : mirrored root jobs names = none) :
    ∀ job ∈ jobs, components job.path ≠ spot root names := by
  intro job member there
  rw [mirrored, if_pos ⟨job, member, there⟩] at free
  cases free

theorem textAt_of_no_job (none : ∀ job ∈ jobs, components job.path ≠ spot root names) :
    textAt root jobs names = "" := by
  have nothing : jobs.filter (fun job => components job.path = spot root names) = [] := by
    rw [List.filter_eq_nil_iff]
    intro job member
    simpa using none job member
  rw [textAt, changesAt, nothing]
  rfl

theorem textAt_concat (there : components job.path = spot root names) :
    textAt root (jobs ++ [job]) names =
      String.ofList (applyChanges (textAt root jobs names).toList job.changes) := by
  have more : changesAt root (jobs ++ [job]) names = changesAt root jobs names ++ job.changes := by
    rw [changesAt, List.filter_append, List.flatMap_append]
    simp [changesAt, there]
  rw [textAt, more, applyChanges, List.foldl_append, textAt, String.toList_ofList]
  rfl

theorem changesAt_concat_of_ne (apart : components job.path ≠ spot root names) :
    changesAt root (jobs ++ [job]) names = changesAt root jobs names := by
  rw [changesAt, List.filter_append, List.flatMap_append]
  simp [changesAt, apart]

theorem mirrored_concat (there : components job.path = spot root names) (other : Place) :
    mirrored root (jobs ++ [job]) other =
      if other = names then some (.file (Text.utf8 (textAt root (jobs ++ [job]) names)) false)
      else if other <+: names ∧ mirrored root jobs other = none then some .directory
      else mirrored root jobs other := by
  by_cases itself : other = names
  · subst itself
    rw [if_pos rfl, mirrored, if_pos ⟨job, by simp, there⟩]
  · have apart : components job.path ≠ spot root other := by
      rw [there, Ne, spot_inj]
      exact Ne.symm itself
    have same : (∃ last ∈ jobs ++ [job], components last.path = spot root other) ↔
        ∃ last ∈ jobs, components last.path = spot root other := by
      simp [or_and_right, exists_or, apart]
    have way : (∃ last ∈ jobs ++ [job], spot root other <+: components last.path) ↔
        (∃ last ∈ jobs, spot root other <+: components last.path) ∨ other <+: names := by
      simp [or_and_right, exists_or, there, spot_prefix_spot]
    rw [if_neg itself, mirrored, mirrored, textAt, textAt, changesAt_concat_of_ne apart]
    simp only [same, way]
    by_cases file : ∃ last ∈ jobs, components last.path = spot root other
    · simp [file]
    · by_cases directory : ∃ last ∈ jobs, spot root other <+: components last.path
      · simp [file, directory]
      · simp [file, directory]

end LanguageRelay.Mirror
