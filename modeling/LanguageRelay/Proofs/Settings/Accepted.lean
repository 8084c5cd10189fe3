import LanguageRelay.Proofs.Finder.Configured
import LanguageRelay.Settings.Load
namespace LanguageRelay
variable {host : Host} {context : FinderContext} {settings : Settings} {key : String}
  {entry : ServerEntry} {argv : List String}

theorem ServerEntry.argv_of_plan {plan : LaunchPlan} (planned : entry.plan = .ok plan)
    (given : entry.argv = some argv) : entry.command = none ∧ entry.nodeModule = none ∧
      ∃ program args, argv = program :: args ∧ program ≠ "" := by
  rcases entry.plan_cases planned with ⟨own, -, again, command, module, present⟩ | ⟨-, -, none, -⟩ |
    ⟨-, -, none, -⟩
  · cases given.symm.trans again
    refine ⟨command, module, ?_⟩
    cases argv with
    | nil => exact absurd rfl present
    | cons program args => exact ⟨program, args, rfl, present⟩
  · cases given.symm.trans none
  · cases given.symm.trans none

theorem LaunchSpec.accepts_iff {program : String} {args : List String} :
    (∃ spec, new? key (program :: args) = .ok spec) ↔
      ¬ (Text.isAllBlank key ∨ Text.isAllBlank program) := by
  simp only [new?_eq_ok_iff, exists_and_left, not_or, Bool.not_eq_true]
  refine and_congr_right fun _ => ⟨?_, fun kept => ⟨_, program, args, rfl, kept, rfl⟩⟩
  rintro ⟨_, _, _, same, kept, -⟩
  cases same
  exact kept

namespace Finder
variable {servers : Keyed ServerEntry} {finders : List Finder} {program : String} {args : List String}

theorem argv_of_resolved (ascends : servers.Ascends) (made : ofEntries servers = .ok finders)
    (listed : servers.find? key = some entry) {plan : LaunchPlan} (planned : entry.plan = .ok plan)
    (given : entry.argv = some (program :: args)) :
    ((resolve finders host context).find? key).map LaunchSpec.argv =
      if Text.isAllBlank key ∨ Text.isAllBlank program then none else some (program :: args) := by
  obtain ⟨command, module, -⟩ := entry.argv_of_plan planned given
  have line := fun line => @CommandLine.argv_iff host context entry _ given command module line
  split
  case isTrue blank =>
    have none : (resolve finders host context).find? key = none := by
      refine Option.eq_none_iff_forall_ne_some.2 fun spec found => ?_
      obtain ⟨_, _, own, yields, accepts, -⟩ := (find?_resolve_ofEntries ascends made).1 found
      cases listed.symm.trans own
      rw [(line _).1 yields] at accepts
      exact LaunchSpec.accepts_iff.1 accepts blank
    rw [none, Option.map_none]
  case isFalse kept =>
    obtain ⟨bare, accepts⟩ := LaunchSpec.accepts_iff.2 kept
    obtain ⟨spec, built⟩ := SpecTemplate.exists_spec accepts entry
    have describes := SpecTemplate.spec_eq_ok_iff.1 built
    have found : (resolve finders host context).find? key = some spec :=
      (find?_resolve_ofEntries ascends made).2 ⟨entry, _, listed, (line _).2 rfl, describes⟩
    rw [found, Option.map_some, describes.2.argv]

end Finder

namespace Settings

theorem ascends_of_read? {d : Datum} (read : Settings.read? d = some settings) :
    settings.server.servers.Ascends := by
  simp only [Settings.read?, Option.bind_eq_bind, Option.bind_eq_some_iff] at read
  obtain ⟨fields, -, _, -, _, -, _, -, _, -, server, found, _, -, same⟩ := read
  cases same
  show server.servers.Ascends
  unfold Datum.Fields.orElse at found
  split at found
  · cases found
    exact List.Pairwise.nil
  · simp only [Settings.readServer?, Option.bind_eq_bind, Option.bind_eq_some_iff] at found
    obtain ⟨_, -, _, -, _, -, _, -, _, -, servers, -, same⟩ := found
    cases same
    exact Keyed.ascends_ofList servers

theorem validate_ok {checked : Settings} (valid : settings.validate = .ok checked) :
    checked.server = settings.server ∧ ∀ e ∈ settings.server.servers, ∃ plan, e.2.plan = .ok plan := by
  unfold Settings.validate at valid
  split at valid
  · cases valid
  · split at valid
    · cases valid
    · cases valid
    · rename_i none _
      cases valid
      refine ⟨rfl, fun e member => ?_⟩
      have passed := List.findSome?_eq_none_iff.1 none e member
      cases planned : e.2.plan with
      | ok plan => exact ⟨plan, rfl⟩
      | error fault => simp [planned] at passed

theorem ofText_ok {text path : String} (accepted : ofText host text path = .ok settings) :
    settings.server.servers.Ascends ∧ ∀ e ∈ settings.server.servers, ∃ plan, e.2.plan = .ok plan := by
  unfold ofText at accepted
  split at accepted
  · cases accepted
  · rename_i raw parsed
    obtain ⟨d, -, read⟩ := Option.bind_eq_some_iff.1 parsed
    split at accepted
    · cases accepted
    · rename_i checked valid
      cases accepted
      obtain ⟨same, plans⟩ := validate_ok valid
      rw [same]
      exact ⟨ascends_of_read? read, plans⟩

-- A server of an accepted text that is given by its argument vector has a program that is not empty. It is
-- resolved with exactly that vector, on every host, unless its key or its program is blank. Then no
-- specification can be made of it and its key is missing.
theorem accepted_argv_resolves {text path : String} (accepted : ofText host text path = .ok settings)
    (listed : settings.server.servers.find? key = some entry) (given : entry.argv = some argv) :
    ∃ program args finders, argv = program :: args ∧ program ≠ "" ∧
      Finder.ofEntries settings.server.servers = .ok finders ∧
      ((∃ spec, LaunchSpec.new? key argv = .ok spec) ↔
        ¬ (Text.isAllBlank key ∨ Text.isAllBlank program)) ∧
      ∀ host context, ((Finder.resolve finders host context).find? key).map LaunchSpec.argv =
        if Text.isAllBlank key ∨ Text.isAllBlank program then none else some argv := by
  obtain ⟨ascends, plans⟩ := ofText_ok accepted
  obtain ⟨finders, made⟩ := Finder.exists_ofEntries plans
  obtain ⟨plan, planned⟩ := plans (key, entry) (Keyed.mem_of_find? listed)
  obtain ⟨-, -, program, args, rfl, present⟩ := entry.argv_of_plan planned given
  exact ⟨program, args, finders, rfl, present, made, LaunchSpec.accepts_iff, fun host context =>
    Finder.argv_of_resolved ascends made listed planned given⟩

def gives (text key : String) (argv : List String) : Bool :=
  match ofText default text "test.toml" with
  | .ok settings => (settings.server.servers.find? key).any fun entry => entry.argv == some argv
  | .error _ => false

theorem accepted_of_gives {text : String} (gives : gives text key argv) : ∃ settings entry,
    ofText default text "test.toml" = .ok settings ∧ settings.server.servers.find? key = some entry ∧
      entry.argv = some argv := by
  unfold Settings.gives at gives
  split at gives
  case h_1 settings accepted =>
    obtain ⟨entry, listed, given⟩ := (Option.any_eq_true _ _).1 gives
    exact ⟨settings, entry, accepted, listed, beq_iff_eq.1 given⟩
  case h_2 => cases gives

-- The first argument is not a program but may stay blank.
theorem accepted_argv_resolves_pyls : ∃ settings entry,
    ofText default "[lsp.servers.pyls]\nargv = [\"pyls\", \" \"]\n" "test.toml" = .ok settings ∧
      settings.server.servers.find? "pyls" = some entry ∧ entry.argv = some ["pyls", " "] ∧
      ∃ finders, Finder.ofEntries settings.server.servers = .ok finders ∧
        ∀ host context, ((Finder.resolve finders host context).find? "pyls").map LaunchSpec.argv =
          some ["pyls", " "] := by
  obtain ⟨settings, entry, accepted, listed, given⟩ := @accepted_of_gives "pyls" ["pyls", " "]
    "[lsp.servers.pyls]\nargv = [\"pyls\", \" \"]\n" (by decide +kernel)
  obtain ⟨program, args, finders, same, -, made, -, resolves⟩ :=
    accepted_argv_resolves accepted listed given
  cases same
  exact ⟨settings, entry, accepted, listed, given, finders, made, resolves⟩

-- A program of one space passes the check of its entry and is no program for a specification.
theorem blank_program_dropped : ∃ settings entry,
    ofText default "[lsp.servers.x]\nargv = [\" \"]\n" "test.toml" = .ok settings ∧
      settings.server.servers.find? "x" = some entry ∧ entry.argv = some [" "] ∧
      LaunchSpec.new? "x" [" "] = .error (.emptyProgram "x") ∧
      ∃ finders, Finder.ofEntries settings.server.servers = .ok finders ∧
        ∀ host context, (Finder.resolve finders host context).find? "x" = none := by
  obtain ⟨settings, entry, accepted, listed, given⟩ := @accepted_of_gives "x" [" "]
    "[lsp.servers.x]\nargv = [\" \"]\n" (by decide +kernel)
  obtain ⟨ascends, plans⟩ := ofText_ok accepted
  obtain ⟨finders, made⟩ := Finder.exists_ofEntries plans
  obtain ⟨plan, planned⟩ := plans ("x", entry) (Keyed.mem_of_find? listed)
  refine ⟨settings, entry, accepted, listed, given, by decide, finders, made, fun host context => ?_⟩
  exact Option.map_eq_none_iff.1 (Finder.argv_of_resolved ascends made listed planned given)

end Settings
end LanguageRelay
