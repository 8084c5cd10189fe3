import LanguageRelay.Proofs.Finder.Merging
import LanguageRelay.Proofs.Host.Arrival
import LanguageRelay.Proofs.Json.Ordered
import LanguageRelay.Proofs.Text.Split
namespace LanguageRelay
open Json FinderContext

variable {host : Host} {context : FinderContext} {entry : ServerEntry} {servers : Keyed ServerEntry}
  {finder : Finder} {finders : List Finder} {key name : String} {argv : List String}
  {spec : LaunchSpec}

def IsFirst {α : Type} (holds : α → Prop) (items : List α) (item : α) : Prop :=
  ∃ before after, items = before ++ item :: after ∧ holds item ∧ ∀ other ∈ before, ¬ holds other

-- What stands behind the last slash of a name, or all of a name without one.
def IsLastSegment (name segment : String) : Prop :=
  '/' ∉ segment.toList ∧ (name = segment ∨ ∃ front, name = front ++ "/" ++ segment)

-- The script that the `bin` member of a manifest names for a module: the only one, or of several the one
-- under the module's last segment. Without a member of that key it is the first in the order of keys.
inductive NamesScript (name : String) : Value → String → Prop where
  | only (script : String) : NamesScript name (.text script) script
  | own {scripts : Keyed Value} {segment script : String} : IsLastSegment name segment →
    (segment, .text script) ∈ scripts → NamesScript name (.object scripts) script
  | first {scripts : Keyed Value} {segment key script : String} : IsLastSegment name segment →
    segment ∉ scripts.keys → (key, .text script) ∈ scripts → (∀ e ∈ scripts, key ≤ e.1) →
    NamesScript name (.object scripts) script

inductive CommandLine (host : Host) (context : FinderContext) (entry : ServerEntry) :
    List String → Prop where
  | given {argv : List String} : entry.argv = some argv → CommandLine host context entry argv
  | found {command suffix program : String} : entry.command = some command →
    IsFirst (fun suffix => ∃ program, host.which (command ++ suffix) = some program)
      ["", ".cmd", ".bat", ".exe"] suffix →
    host.which (command ++ suffix) = some program →
    CommandLine host context entry (program :: entry.args)
  | script {name script node root : String} : entry.nodeModule = some name →
    entry.script = some script → context.nodeProgram = some node →
    IsFirst (fun root => host.files.exists?
      (modulePath (Text.split '/' name ++ Text.split '/' script) root)) context.nodeRoots root →
    CommandLine host context entry
      (node :: modulePath (Text.split '/' name ++ Text.split '/' script) root :: entry.args)
  | package {name node root text script : String} {manifest bin : Value} :
    entry.nodeModule = some name → entry.script = none → context.nodeProgram = some node →
    IsFirst (fun root => host.files.exists? (modulePath (Text.split '/' name) root)) context.nodeRoots root →
    host.files.readText (Path.join (modulePath (Text.split '/' name) root) "package.json") = .ok text →
    Value.read? text = some manifest → manifest.get? "bin" = some bin → NamesScript name bin script →
    CommandLine host context entry
      (node :: Path.join (modulePath (Text.split '/' name) root) script :: entry.args)

-- The specification of an entry under a key with a command line.
structure Describes (entry : ServerEntry) (key : String) (argv : List String) (spec : LaunchSpec) :
    Prop where
  key : spec.key = key
  argv : spec.argv = argv
  languages : spec.languages = entry.languages.eraseDups
  version : spec.version = entry.version.getD LaunchSpec.defaultVersion
  displayName : spec.displayName = entry.displayName
  mimeTypes : spec.mimeTypes = entry.mimeTypes
  environment : spec.environment = entry.environment

namespace LaunchSpec

theorem new?_eq_ok_iff : new? key argv = .ok spec ↔
    Text.isAllBlank key = false ∧ ∃ program args, argv = program :: args ∧
      Text.isAllBlank program = false ∧ spec = ⟨key, program, args, [], defaultVersion, none, [], []⟩ := by
  unfold new?
  cases Text.isAllBlank key with
  | true => simp
  | false =>
    cases argv with
    | nil => simp
    | cons program args =>
      cases blank : Text.isAllBlank program with
      | true => simp [blank]
      | false => simpa [blank] using eq_comm

theorem withoutRepeats_eq (kept languages : List String) : withoutRepeats kept languages =
    kept ++ (languages.filter fun language => language ∉ kept).eraseDups := by
  induction languages generalizing kept with
  | nil => simp [withoutRepeats]
  | cons language rest ih =>
    rw [withoutRepeats, ih]
    by_cases known : language ∈ kept
    · simp [known]
    · simp [known, List.eraseDups_cons, List.filter_filter, and_comm, beq_eq_decide]

end LaunchSpec

namespace SpecTemplate

theorem spec_eq_ok_iff : (ofEntry entry).spec key argv = .ok spec ↔
    (∃ bare, LaunchSpec.new? key argv = .ok bare) ∧ Describes entry key argv spec := by
  have languages := LaunchSpec.withoutRepeats_eq [] entry.languages
  simp only [List.not_mem_nil, not_false_eq_true, decide_true, List.filter_true, List.nil_append] at languages
  cases made : LaunchSpec.new? key argv with
  | error e => simp [SpecTemplate.spec, made, bind, Except.bind]
  | ok bare =>
    obtain ⟨-, program, args, rfl, -, rfl⟩ := LaunchSpec.new?_eq_ok_iff.1 made
    have built : (ofEntry entry).spec key (program :: args) = .ok ⟨key, program, args,
        entry.languages.eraseDups, entry.version.getD LaunchSpec.defaultVersion, entry.displayName,
        entry.mimeTypes, entry.environment⟩ := by
      rw [← languages]
      simp only [SpecTemplate.spec, made]
      rfl
    rw [built]
    constructor
    · intro same
      cases same
      exact ⟨⟨_, rfl⟩, ⟨rfl, rfl, rfl, rfl, rfl, rfl, rfl⟩⟩
    · rintro ⟨-, ⟨rfl, same, languages, version, displayName, mimeTypes, environment⟩⟩
      cases spec
      cases same
      simp_all

theorem exists_spec {bare : LaunchSpec} (made : LaunchSpec.new? key argv = .ok bare) (entry : ServerEntry) :
    ∃ spec, (ofEntry entry).spec key argv = .ok spec := by
  simp [SpecTemplate.spec, made, bind, Except.bind, pure, Except.pure]

end SpecTemplate

theorem isLastSegment_iff {segment : String} :
    IsLastSegment name segment ↔ Finder.shortName name = segment := by
  obtain ⟨last, ends⟩ : ∃ last, (Text.splitOn '/' name.toList).getLast? = some last :=
    ⟨_, List.getLast?_eq_some_getLast (Text.splitOn_ne_nil '/' name.toList)⟩
  have short : Finder.shortName name = String.ofList last := by
    simp [Finder.shortName, Text.split, List.getLast?_map, ends]
  have listed : IsLastSegment name segment ↔ '/' ∉ segment.toList ∧
      (name.toList = segment.toList ∨ ∃ front, name.toList = front ++ '/' :: segment.toList) := by
    refine and_congr_right fun _ => or_congr (String.toList_inj).symm ⟨?_, ?_⟩
    · rintro ⟨front, rfl⟩
      exact ⟨front.toList, by simp⟩
    · rintro ⟨front, split⟩
      refine ⟨String.ofList front, String.toList_inj.1 ?_⟩
      simp [split]
  rw [listed, ← Text.getLast?_splitOn, ends, short, Option.some.injEq, ← String.toList_inj,
    String.toList_ofList]

theorem text?_eq_some_iff {value : Value} {text : String} : value.text? = some text ↔ value = .text text := by
  cases value <;> simp [Value.text?]

theorem script?_eq_some_iff {manifest : Value} {script : String} (ordered : manifest.Ordered) :
    Finder.script? manifest name = some script ↔
      ∃ bin, manifest.get? "bin" = some bin ∧ NamesScript name bin script := by
  cases named : manifest.get? "bin" with
  | none => simp [Finder.script?, named]
  | some bin =>
    simp only [Finder.script?, named, Option.some.injEq, exists_eq_left']
    cases bin with
    | text only =>
      simp only [Option.some.injEq]
      refine ⟨fun same => same ▸ .only only, fun names => ?_⟩
      cases names
      rfl
    | object scripts =>
      have ascends : Keyed.Ascends scripts := by
        cases manifest with
        | object members => exact (ordered.of_find? named).ascends
        | _ => cases named
      simp only [Option.bind_eq_some_iff, Option.or_eq_some_iff, Option.map_eq_some_iff,
        text?_eq_some_iff, Prod.exists, exists_eq_right, ascends.head?_eq_some_iff,
        Keyed.find?_eq_some_iff ascends, Keyed.find?_eq_none_iff]
      constructor
      · rintro (own | ⟨missing, key, first, least⟩)
        · exact .own (isLastSegment_iff.2 rfl) own
        · exact .first (isLastSegment_iff.2 rfl) missing first least
      · rintro (_ | ⟨segment, own⟩ | ⟨segment, missing, first, least⟩)
        · exact .inl (isLastSegment_iff.1 segment ▸ own)
        · exact .inr ⟨isLastSegment_iff.1 segment ▸ missing, _, first, least⟩
    | null | bool | number | list => exact ⟨(nomatch ·), (nomatch ·)⟩

theorem findModule?_eq_some_iff {parts : List String} {path : String} :
    context.findModule? host parts = some path ↔
      ∃ root, IsFirst (fun root => host.files.exists? (modulePath parts root)) context.nodeRoots root ∧
        modulePath parts root = path := by
  rw [FinderContext.findModule?, List.find?_map, Option.map_eq_some_iff]
  refine exists_congr fun root => and_congr_left fun _ => ?_
  rw [List.find?_eq_some_iff_append]
  simp only [IsFirst, Function.comp, Bool.not_eq_true']
  constructor
  · rintro ⟨there, before, after, split, missing⟩
    exact ⟨before, after, split, there, fun other member => by simp [missing other member]⟩
  · rintro ⟨before, after, split, there, missing⟩
    exact ⟨there, before, after, split, fun other member => by simpa using missing other member⟩

theorem program?_eq_some_iff {command program : String} : Finder.program? host command = some program ↔
    ∃ suffix, IsFirst (fun suffix => ∃ program, host.which (command ++ suffix) = some program)
      ["", ".cmd", ".bat", ".exe"] suffix ∧ host.which (command ++ suffix) = some program := by
  rw [Finder.program?, List.findSome?_eq_some_iff]
  constructor
  · rintro ⟨before, suffix, after, split, hit, missing⟩
    refine ⟨suffix, ⟨before, after, split, ⟨program, hit⟩, fun other member => ?_⟩, hit⟩
    rintro ⟨found, there⟩
    exact nomatch (missing other member).symm.trans there
  · rintro ⟨suffix, ⟨before, after, split, -, missing⟩, hit⟩
    exact ⟨before, suffix, after, split, hit, fun other member =>
      Option.eq_none_iff_forall_ne_some.2 fun found there => missing other member ⟨found, there⟩⟩

theorem ServerEntry.chosen_of_plan {plan : LaunchPlan} (planned : entry.plan = .ok plan) :
    entry.chosen = .ok plan := by
  unfold ServerEntry.plan at planned
  split at planned
  case h_1 name script chosen =>
    cases planned
    exact chosen
  case h_2 chosen =>
    split at planned
    · cases planned
    · cases planned
      exact chosen
  case h_3 => cases planned

theorem ServerEntry.plan_cases {plan : LaunchPlan} (planned : entry.plan = .ok plan) :
    (∃ argv, plan = .argv argv ∧ entry.argv = some argv ∧ entry.command = none ∧
      entry.nodeModule = none ∧ argv.head?.getD "" ≠ "") ∨
    (∃ command, plan = .command command ∧ entry.argv = none ∧ entry.command = some command ∧
      entry.nodeModule = none ∧ command ≠ "") ∨
    ∃ name, plan = .nodeModule name entry.script ∧ entry.argv = none ∧ entry.command = none ∧
      entry.nodeModule = some name ∧ name ≠ "" := by
  have chosen := entry.chosen_of_plan planned
  unfold ServerEntry.chosen at chosen
  split at chosen
  case h_1 argv given command module =>
    split at chosen
    · cases chosen
    · rename_i present
      split at chosen
      · cases chosen
      · cases chosen
        exact .inl ⟨argv, rfl, given, command, module, present⟩
  case h_2 command given named module =>
    split at chosen
    · cases chosen
    · rename_i present
      cases chosen
      exact .inr (.inl ⟨command, rfl, given, named, module, present⟩)
  case h_3 name given command named =>
    split at chosen
    · cases chosen
    · rename_i present
      cases chosen
      exact .inr (.inr ⟨name, rfl, given, command, named, present⟩)
  case h_4 => cases chosen
  case h_5 => cases chosen

theorem packageScript_eq_ok_some_iff {directory path : String} :
    Finder.packageScript host directory name = .ok (some path) ↔ ∃ text manifest bin script,
      host.files.readText (Path.join directory "package.json") = .ok text ∧
      Value.read? text = some manifest ∧ manifest.get? "bin" = some bin ∧ NamesScript name bin script ∧
      Path.join directory script = path := by
  cases raw : host.files.readText (Path.join directory "package.json") with
  | error e => simp [Finder.packageScript, raw]
  | ok text =>
    cases read : Value.read? text with
    | none => simp [Finder.packageScript, raw, read]
    | some manifest =>
      have scripts := fun script => @script?_eq_some_iff name manifest script (Value.ordered_of_read? read)
      simp only [Finder.packageScript, raw, read, Except.ok.injEq, Option.map_eq_some_iff, scripts]
      constructor
      · rintro ⟨script, ⟨bin, named, names⟩, joined⟩
        exact ⟨text, manifest, bin, script, rfl, read, named, names, joined⟩
      · rintro ⟨_, _, bin, script, rfl, again, named, names, joined⟩
        cases read.symm.trans again
        exact ⟨script, ⟨bin, named, names⟩, joined⟩

namespace CommandLine

theorem argv_iff (given : entry.argv = some argv) (command : entry.command = none)
    (module : entry.nodeModule = none) {line : List String} :
    CommandLine host context entry line ↔ line = argv := by
  constructor
  · intro yields
    cases yields <;> simp_all
  · rintro rfl
    exact .given given

theorem command_iff {command : String} (given : entry.argv = none) (named : entry.command = some command)
    (module : entry.nodeModule = none) {line : List String} : CommandLine host context entry line ↔
      ∃ program, Finder.program? host command = some program ∧ line = program :: entry.args := by
  constructor
  · intro yields
    cases yields with
    | found again first hit =>
      obtain rfl : command = _ := Option.some.inj (named.symm.trans again)
      exact ⟨_, program?_eq_some_iff.2 ⟨_, first, hit⟩, rfl⟩
    | given other => exact nomatch given.symm.trans other
    | script other | package other => exact nomatch module.symm.trans other
  · rintro ⟨program, looked, rfl⟩
    obtain ⟨suffix, first, hit⟩ := program?_eq_some_iff.1 looked
    exact .found named first hit

theorem module_iff (given : entry.argv = none) (command : entry.command = none)
    (named : entry.nodeModule = some name) {line : List String} : CommandLine host context entry line ↔
      ∃ node path, context.nodeProgram = some node ∧
        Finder.moduleScript host context name entry.script = .ok (some path) ∧
        line = node :: path :: entry.args := by
  constructor
  · intro yields
    cases yields with
    | given other => exact nomatch given.symm.trans other
    | found other => exact nomatch command.symm.trans other
    | script again own node first =>
      obtain rfl : name = _ := Option.some.inj (named.symm.trans again)
      refine ⟨_, _, node, ?_, rfl⟩
      rw [own, Finder.moduleScript, findModule?_eq_some_iff.2 ⟨_, first, rfl⟩]
    | package again none node first readable read bin names =>
      obtain rfl : name = _ := Option.some.inj (named.symm.trans again)
      refine ⟨_, _, node, ?_, rfl⟩
      rw [none, Finder.moduleScript, findModule?_eq_some_iff.2 ⟨_, first, rfl⟩]
      exact packageScript_eq_ok_some_iff.2 ⟨_, _, _, _, readable, read, bin, names, rfl⟩
  · rintro ⟨node, path, runs, located, rfl⟩
    cases own : entry.script with
    | some script =>
      rw [own, Finder.moduleScript, Except.ok.injEq] at located
      obtain ⟨root, first, rfl⟩ := findModule?_eq_some_iff.1 located
      exact .script named own runs first
    | none =>
      rw [own, Finder.moduleScript] at located
      cases there : context.findModule? host (Text.split '/' name) with
      | none => rw [there] at located; cases located
      | some directory =>
        rw [there] at located
        obtain ⟨root, first, rfl⟩ := findModule?_eq_some_iff.1 there
        obtain ⟨text, manifest, bin, script, readable, read, has, names, rfl⟩ :=
          packageScript_eq_ok_some_iff.1 located
        exact .package named own runs first readable read has names

end CommandLine

namespace Finder

-- What a finder does for an entry on a host: it makes a specification of the entry's command line, and
-- without one it finds nothing or fails.
inductive Follows (host : Host) (context : FinderContext) (key : String) (entry : ServerEntry)
    (finder : Finder) : Prop where
  | makes {argv : List String} : (∀ line, CommandLine host context entry line ↔ line = argv) →
    finder.find host context = (SpecTemplate.ofEntry entry).finding key argv →
    Follows host context key entry finder
  | nothing : (∀ line, ¬ CommandLine host context entry line) → finder.find host context = .ok [] →
    Follows host context key entry finder
  | fails {failure : FindFailure} : (∀ line, ¬ CommandLine host context entry line) →
    finder.find host context = .error failure → Follows host context key entry finder

theorem follows_onPath {command : String} (given : entry.argv = none)
    (named : entry.command = some command) (module : entry.nodeModule = none) :
    Follows host context key entry (onPath key command entry.args (.ofEntry entry)) := by
  have lines := fun line => @CommandLine.command_iff host context entry command given named module line
  cases looked : program? host command with
  | none =>
    refine .nothing (fun line => by simp [lines, looked]) ?_
    simp [onPath, looked]
  | some program =>
    have outcome : (onPath key command entry.args (.ofEntry entry)).find host context =
        (SpecTemplate.ofEntry entry).finding key (program :: entry.args) := by
      simp [onPath, looked]
    exact .makes (fun line => by simp [lines, looked]) outcome

theorem follows_nodeModule (given : entry.argv = none) (command : entry.command = none)
    (named : entry.nodeModule = some name) : Follows host context key entry
      (nodeModule key name entry.script entry.args (.ofEntry entry)) := by
  have lines := fun line => @CommandLine.module_iff host context entry name given command named line
  cases runs : context.nodeProgram with
  | none =>
    refine .nothing (fun line => by simp [lines, runs]) ?_
    simp [nodeModule, runs]
  | some node =>
    cases located : moduleScript host context name entry.script with
    | error failure =>
      have outcome : (nodeModule key name entry.script entry.args (.ofEntry entry)).find host context =
          .error failure := by
        simp [nodeModule, runs, located]
      exact .fails (fun line => by simp [lines, located]) outcome
    | ok path =>
      cases path with
      | none =>
        refine .nothing (fun line => by simp [lines, located]) ?_
        simp [nodeModule, runs, located]
      | some path =>
        have outcome : (nodeModule key name entry.script entry.args (.ofEntry entry)).find host context =
            (SpecTemplate.ofEntry entry).finding key (node :: path :: entry.args) := by
          simp [nodeModule, runs, located]
        exact .makes (fun line => by simp [lines, runs, located]) outcome

theorem follows_of_entry (made : ofEntry key entry = .ok finder) (host : Host) (context : FinderContext) :
    Follows host context key entry finder := by
  cases planned : entry.plan with
  | error fault => simp [ofEntry, planned] at made
  | ok plan =>
    rcases entry.plan_cases planned with ⟨argv, rfl, given, command, module, -⟩ |
      ⟨command, rfl, given, named, module, -⟩ | ⟨name, rfl, given, command, named, -⟩
    · simp only [ofEntry, planned, Except.ok.injEq] at made
      subst made
      exact .makes (fun line => CommandLine.argv_iff given command module) rfl
    · simp only [ofEntry, planned, Except.ok.injEq] at made
      subst made
      exact follows_onPath given named module
    · simp only [ofEntry, planned, Except.ok.injEq] at made
      subst made
      exact follows_nodeModule given command named

theorem findsMap_of_entry (made : ofEntry key entry = .ok finder) : finder.FindsMap host context := by
  intro found finds
  cases follows_of_entry made host context with
  | nothing _ empty =>
    cases finds.symm.trans empty
    exact List.Pairwise.nil
  | fails _ fails => cases finds.symm.trans fails
  | makes _ outcome =>
    rw [outcome, SpecTemplate.finding] at finds
    split at finds <;> cases finds
    exact List.pairwise_singleton _ _

theorem offers_of_entry {own : String} (made : ofEntry own entry = .ok finder) :
    finder.Offers host context key spec ↔ key = own ∧ ∃ argv, CommandLine host context entry argv ∧
      (SpecTemplate.ofEntry entry).spec own argv = .ok spec := by
  cases follows_of_entry made host context with
  | nothing none empty => simp [none, empty, Offers, Keyed.find?]
  | fails none fails => simp [none, fails, Offers]
  | makes yields outcome =>
    rename_i argv
    simp only [yields, Offers, outcome, SpecTemplate.finding, exists_eq_left]
    cases built : (SpecTemplate.ofEntry entry).spec own argv with
    | error e => simp
    | ok made =>
      have named : made.key = own := (SpecTemplate.spec_eq_ok_iff.1 built).2.key
      simp only [Except.ok.injEq, exists_eq_left', Keyed.find?, Option.ite_none_right_eq_some,
        Option.some.injEq]
      constructor
      · rintro ⟨⟨rfl, rfl⟩, -⟩
        exact ⟨rfl, rfl⟩
      · rintro ⟨rfl, rfl⟩
        exact ⟨⟨rfl, rfl⟩, named⟩

theorem ofEntries_cons {rest : Keyed ServerEntry} (made : ofEntries ((key, entry) :: rest) = .ok finders) :
    ∃ finder others, ofEntry key entry = .ok finder ∧ ofEntries rest = .ok others ∧
      finders = finder :: others := by
  rw [ofEntries] at made
  cases first : ofEntry key entry with
  | error fault => simp [first] at made
  | ok finder =>
    cases later : ofEntries rest with
    | error fault => simp [first, later, Except.map] at made
    | ok others =>
      simp only [first, later, Except.map, Except.ok.injEq] at made
      exact ⟨finder, others, rfl, rfl, made.symm⟩

theorem exists_ofEntries (plans : ∀ e ∈ servers, ∃ plan, e.2.plan = .ok plan) :
    ∃ finders, ofEntries servers = .ok finders := by
  induction servers with
  | nil => exact ⟨[], rfl⟩
  | cons e rest ih =>
    obtain ⟨key, entry⟩ := e
    obtain ⟨others, later⟩ := ih fun e member => plans e (List.mem_cons_of_mem _ member)
    obtain ⟨finder, first⟩ : ∃ finder, ofEntry key entry = .ok finder := by
      obtain ⟨plan, planned⟩ := plans (key, entry) List.mem_cons_self
      cases plan <;> simp [ofEntry, planned]
    exact ⟨finder :: others, by rw [ofEntries, first, later]; rfl⟩

theorem mem_ofEntries (made : ofEntries servers = .ok finders) (member : finder ∈ finders) :
    ∃ e ∈ servers, ofEntry e.1 e.2 = .ok finder := by
  induction servers generalizing finders with
  | nil => cases made; cases member
  | cons e rest ih =>
    obtain ⟨first, others, here, later, rfl⟩ := ofEntries_cons made
    rcases List.mem_cons.1 member with rfl | inside
    · exact ⟨e, List.mem_cons_self, here⟩
    · obtain ⟨e', below, built⟩ := ih later inside
      exact ⟨e', List.mem_cons_of_mem _ below, built⟩

-- The keys differ, so nobody else offers anything under the key of an entry.
theorem lastOffer_ofEntries (ascends : servers.Ascends) (made : ofEntries servers = .ok finders) :
    LastOffer finders host context key spec ↔ ∃ entry argv, (key, entry) ∈ servers ∧
      CommandLine host context entry argv ∧ (SpecTemplate.ofEntry entry).spec key argv = .ok spec := by
  induction servers generalizing finders with
  | nil => cases made; simp [LastOffer]
  | cons e rest ih =>
    obtain ⟨own, entry⟩ := e
    obtain ⟨least, ordered⟩ := List.pairwise_cons.1 ascends
    obtain ⟨first, others, here, later, rfl⟩ := ofEntries_cons made
    have silent : ∀ finder ∈ others, ∀ other, ¬ finder.Offers host context own other := by
      intro finder member other offer
      obtain ⟨e, below, built⟩ := mem_ofEntries later member
      obtain ⟨same, -⟩ := (offers_of_entry built).1 offer
      exact String.lt_irrefl own (by simpa [← same] using least e below)
    rw [lastOffer_cons, ih ordered later, offers_of_entry here]
    constructor
    · rintro (⟨entry, argv, below, yields⟩ | ⟨⟨rfl, argv, yields⟩, -⟩)
      · exact ⟨entry, argv, List.mem_cons_of_mem _ below, yields⟩
      · exact ⟨entry, argv, List.mem_cons_self, yields⟩
    · rintro ⟨entry, argv, member, yields⟩
      rcases List.mem_cons.1 member with same | below
      · cases same
        exact .inr ⟨⟨rfl, argv, yields⟩, silent⟩
      · exact .inl ⟨entry, argv, below, yields⟩

theorem find?_resolve_ofEntries (ascends : servers.Ascends) (made : ofEntries servers = .ok finders) :
    (resolve finders host context).find? key = some spec ↔ ∃ entry argv,
      servers.find? key = some entry ∧ CommandLine host context entry argv ∧
      (∃ bare, LaunchSpec.new? key argv = .ok bare) ∧ Describes entry key argv spec := by
  have maps : ∀ finder ∈ finders, finder.FindsMap host context := fun finder member => by
    obtain ⟨e, -, built⟩ := mem_ofEntries made member
    exact findsMap_of_entry built
  simp only [find?_resolve maps, lastOffer_ofEntries ascends made, Keyed.find?_eq_some_iff ascends,
    SpecTemplate.spec_eq_ok_iff]

-- Checked entries make finders, and these resolve a key exactly when the key's own entry yields a command
-- line that makes a specification, whatever comes of the other entries.
theorem configured_resolve_exactly (servers : Keyed ServerEntry) (ascends : servers.Ascends)
    (plans : ∀ e ∈ servers, ∃ plan, e.2.plan = .ok plan) :
    ∃ finders, ofEntries servers = .ok finders ∧ ∀ host context,
      (resolve finders host context).Ascends ∧
      (∀ key, key ∈ (resolve finders host context).keys ↔ ∃ entry argv,
        servers.find? key = some entry ∧ CommandLine host context entry argv ∧
        ∃ bare, LaunchSpec.new? key argv = .ok bare) ∧
      ∀ key spec, (resolve finders host context).find? key = some spec ↔ ∃ entry argv,
        servers.find? key = some entry ∧ CommandLine host context entry argv ∧
        (∃ bare, LaunchSpec.new? key argv = .ok bare) ∧ Describes entry key argv spec := by
  obtain ⟨finders, made⟩ := exists_ofEntries plans
  refine ⟨finders, made, fun host context => ⟨ascends_resolve finders host context, fun key => ?_,
    fun key spec => find?_resolve_ofEntries ascends made⟩⟩
  have resolves := fun spec => @find?_resolve_ofEntries host context servers finders key spec ascends made
  constructor
  · intro member
    obtain ⟨⟨_, spec⟩, inside, rfl⟩ := List.mem_map.1 member
    obtain ⟨entry, argv, listed, yields, makes, -⟩ :=
      (resolves spec).1 (Keyed.find?_of_mem (ascends_resolve finders host context) inside)
    exact ⟨entry, argv, listed, yields, makes⟩
  · rintro ⟨entry, argv, listed, yields, bare, makes⟩
    obtain ⟨spec, built⟩ := SpecTemplate.exists_spec makes entry
    have found := (resolves spec).2 ⟨entry, argv, listed, yields, SpecTemplate.spec_eq_ok_iff.1 built⟩
    exact List.mem_map.2 ⟨_, Keyed.mem_of_find? found, rfl⟩

open Host LanguageRelay.Path FileSystem

-- A module of a scope whose package names two scripts, neither after the module.
def manifestText : String := "\x7b\"bin\":\x7b\"z\":\"z.js\",\"a\":\"x.js\"\x7d\x7d"

def isManifest : Value → Bool
  | .object [(bin, .object [(first, .text script), (second, .text other)])] =>
    bin == "bin" && first == "a" && script == "x.js" && second == "z" && other == "z.js"
  | _ => false

def nodeHost : Host := ⟨⟨[(["b"], .directory), (["b", "node_modules"], .directory),
  (["b", "node_modules", "@s"], .directory), (["b", "node_modules", "@s", "ls"], .directory),
  (["b", "node_modules", "@s", "ls", "package.json"], .file (Text.utf8 manifestText) false)], []⟩, []⟩

def nodeContext : FinderContext := ⟨some "/node", ["/a", "/b"], "/"⟩

def moduleEntry : ServerEntry :=
  ⟨none, none, some "@s/ls", none, ["--stdio"], ["c", "d", "c"], some 7, none, [], []⟩

def fleet : Keyed ServerEntry :=
  [("ls", moduleEntry), ("none", ⟨none, some "none", none, none, [], [], none, none, [], []⟩)]

theorem missing_below_first_root :
    nodeHost.files.exists? (modulePath (Text.split '/' "@s/ls") "/a") = false := by
  have path : modulePath (Text.split '/' "@s/ls") "/a" = "/a/node_modules/@s/ls" := by decide
  have named : Named "a" := ⟨by decide, by decide⟩
  have fails : nodeHost.files.resolve true "/a/node_modules/@s/ls" = .error .notFound := by
    rw [FileSystem.resolve, if_neg (by decide), if_neg (by decide)]
    exact (walk_stay rfl rfl).trans (walk_free rfl named rfl)
  rw [path, exists?, entry?, fails]

theorem present_below_second_root :
    nodeHost.files.exists? (modulePath (Text.split '/' "@s/ls") "/b") = true := by
  have path : modulePath (Text.split '/' "@s/ls") "/b" = "/b/node_modules/@s/ls" := by decide
  have leads : nodeHost.files.resolve true "/b/node_modules/@s/ls" =
      .ok (.present ["b", "node_modules", "@s", "ls"] .directory) := by
    rw [FileSystem.resolve, if_neg (by decide), if_neg (by decide)]
    exact Arrives.walk <| .stay rfl rfl <| .down rfl ⟨by decide, by decide⟩ rfl nofun <|
      .down rfl ⟨by decide, by decide⟩ rfl nofun <| .down rfl ⟨by decide, by decide⟩ rfl nofun <|
      .down rfl ⟨by decide, by decide⟩ rfl nofun <| .done rfl
  rw [path, exists?, entry?, leads]

theorem manifest_readable : nodeHost.files.readText
    (Path.join (modulePath (Text.split '/' "@s/ls") "/b") "package.json") = .ok manifestText := by
  have path : Path.join (modulePath (Text.split '/' "@s/ls") "/b") "package.json" =
      "/b/node_modules/@s/ls/package.json" := by decide
  have leads : nodeHost.files.resolve true "/b/node_modules/@s/ls/package.json" =
      .ok (.present ["b", "node_modules", "@s", "ls", "package.json"]
        (.file (Text.utf8 manifestText) false)) := by
    rw [FileSystem.resolve, if_neg (by decide), if_neg (by decide)]
    exact Arrives.walk <| .stay rfl rfl <| .down rfl ⟨by decide, by decide⟩ rfl nofun <|
      .down rfl ⟨by decide, by decide⟩ rfl nofun <| .down rfl ⟨by decide, by decide⟩ rfl nofun <|
      .down rfl ⟨by decide, by decide⟩ rfl nofun <| .down rfl ⟨by decide, by decide⟩ rfl nofun <| .done rfl
  have decoded : Text.utf8Decode? (Text.utf8 manifestText) = some manifestText := by decide +kernel
  rw [path, readText, FileSystem.read, entry?, leads]
  simp only [decoded]

theorem yields_module : CommandLine nodeHost nodeContext moduleEntry
    ["/node", "/b/node_modules/@s/ls/x.js", "--stdio"] := by
  have reads : (Value.read? manifestText).any isManifest := by decide +kernel
  obtain ⟨manifest, read, shape⟩ := (Option.any_eq_true _ _).1 reads
  unfold isManifest at shape
  split at shape
  · simp only [Bool.and_eq_true, beq_iff_eq] at shape
    obtain ⟨⟨⟨⟨rfl, rfl⟩, rfl⟩, rfl⟩, rfl⟩ := shape
    have segment : IsLastSegment "@s/ls" "ls" := isLastSegment_iff.2 (by decide)
    refine CommandLine.package rfl rfl rfl ⟨["/a"], [], rfl, present_below_second_root, ?_⟩
      manifest_readable read rfl
      (show NamesScript _ _ "x.js" from .first segment (by decide) List.mem_cons_self (by simp))
    simpa using missing_below_first_root
  · cases shape

theorem configured_resolve_exactly_module : fleet.Ascends ∧
    (∀ e ∈ fleet, ∃ plan, e.2.plan = .ok plan) ∧ ∃ finders, ofEntries fleet = .ok finders ∧
      (resolve finders nodeHost nodeContext).find? "ls" = some ⟨"ls", "/node",
        ["/b/node_modules/@s/ls/x.js", "--stdio"], ["c", "d"], 7, none, [], []⟩ := by
  have ascends : fleet.Ascends := by decide
  have plans : ∀ e ∈ fleet, ∃ plan, e.2.plan = .ok plan := by
    intro e member
    rcases List.mem_cons.1 member with rfl | later
    · exact ⟨_, rfl⟩
    · rw [List.mem_singleton.1 later]
      exact ⟨_, rfl⟩
  obtain ⟨finders, made, resolves⟩ := configured_resolve_exactly fleet ascends plans
  refine ⟨ascends, plans, finders, made, ((resolves nodeHost nodeContext).2.2 _ _).2
    ⟨moduleEntry, _, rfl, yields_module, ⟨_, rfl⟩, ⟨rfl, rfl, ?_, rfl, rfl, rfl, rfl⟩⟩⟩
  decide

end Finder
end LanguageRelay
