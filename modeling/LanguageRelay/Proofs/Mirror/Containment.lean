import LanguageRelay.Listener.Shadow
import LanguageRelay.Mirror.Writer
import LanguageRelay.Proofs.Host.Confined
import LanguageRelay.Proofs.Uri.Decoding
namespace LanguageRelay.Mirror
open Json Host LanguageRelay.Path
variable {root : String} {message : Value} {job : Job} {files : FileSystem}

def uriOf? (message : Value) : Option String :=
  (message.path? ["params", "textDocument"]).bind fun document => document.textAt? "uri"

theorem mirroredPath?_some {uri path : String} (found : mirroredPath? root uri = some path) :
    Uri.filePath? uri = some path ∧
      ∃ tail, tail ≠ [] ∧ components path = components root ++ tail := by
  obtain ⟨led, kept⟩ := Option.filter_eq_some_iff.1 found
  simp only [isWithin, same, Bool.and_eq_true, Bool.not_eq_true', beq_eq_false_iff_ne] at kept
  obtain ⟨tail, whole⟩ := List.isPrefixOf_iff_prefix.1 kept.1
  refine ⟨led, tail, ?_, whole.symm⟩
  rintro rfl
  rw [List.append_nil] at whole
  exact kept.2 whole.symm

theorem plan_some (planned : plan root message = .ok (some job)) :
    ∃ uri, uriOf? message = some uri ∧ mirroredPath? root uri = some job.path := by
  rw [plan] at planned
  split at planned
  · cases planned
  · split at planned
    · cases planned
    · split at planned
      · cases planned
      · rename_i document there
        split at planned
        · cases planned
        · rename_i uri named
          split at planned
          · cases planned
          · rename_i path led
            split at planned
            · rename_i changes read
              obtain ⟨taken, -, rfl⟩ := Option.map_eq_some_iff.1 (Except.ok.inj planned)
              refine ⟨uri, ?_, led⟩
              rw [uriOf?, there, Option.bind_some]
              exact (Option.filter_eq_some_iff.1 named).1
            · cases planned

theorem exists_tail (absolute : isAbsolute root) (planned : plan root message = .ok (some job)) :
    isAbsolute job.path ∧ ∃ tail, tail ≠ [] ∧ components job.path = components root ++ tail ∧
      ∀ part ∈ tail, part.IsPart := by
  obtain ⟨uri, -, led⟩ := plan_some planned
  obtain ⟨-, tail, present, whole⟩ := mirroredPath?_some led
  have starts := whole
  rw [components_of_isAbsolute absolute, List.cons_append] at starts
  have rooted := isAbsolute_of_components starts
  refine ⟨rooted, tail, present, whole, fun part member => ?_⟩
  rw [components_of_isAbsolute rooted] at starts
  have parts := (List.cons.inj starts).2
  exact isPart_of_mem (parts ▸ List.mem_append_right _ member)

theorem kept_reset {ways : Place → Prop} (plain : files.NoLinks) (absolute : isAbsolute root)
    (onWay : ∀ front, front <+: components root → ways (follow [] front)) :
    Kept (resolved root) ways files (reset root files) := by
  rw [reset]
  split
  · rename_i removed gone
    have emptied : Kept (resolved root) ways files removed := kept_removeAll plain absolute gone
    exact emptied.trans (kept_createAll (emptied.noLinks plain) absolute onWay)
  · exact kept_createAll plain absolute onWay
  · exact .refl _ _ _

theorem path_of_read {path : String} {file : TextFile} (read : TextFile.read files path = .ok file) :
    file.path = path := by
  rw [TextFile.read] at read
  split at read <;> cases read <;> rfl

theorem kept_writeFile {tree : Place} {ways : Place → Prop} {file : TextFile} (plain : files.NoLinks)
    (absolute : isAbsolute file.path) (below : Below tree (resolved file.path))
    (onWay : ∀ front, front <+: components file.path → ways (follow [] front)) :
    Kept tree ways files (file.write files).2 := by
  have attempted : ∀ {made : FileSystem}, made.NoLinks →
      Kept tree ways made (made.attempt (made.write file.path (Text.utf8 file.text))).2 := by
    intro made plain
    cases written : made.write file.path (Text.utf8 file.text) with
    | ok after => exact kept_write plain absolute below written
    | error e => exact .refl _ _ _
  simp only [TextFile.write]
  split
  · exact attempted plain
  · rename_i above parent
    have upper : Kept tree ways files (files.createAll above).2 :=
      kept_createAll plain (components_parent absolute parent).1 (onWay_parent absolute parent onWay)
    split
    · rename_i made done
      rw [done] at upper
      exact upper.trans (attempted (upper.noLinks plain))
    · exact upper

theorem kept_perform {ways : Place → Prop} (plain : files.NoLinks) (absolute : isAbsolute job.path)
    (below : StrictlyBelow root job.path)
    (onWay : ∀ front, front <+: components job.path → ways (follow [] front)) :
    Kept (resolved root) ways files (perform job files) := by
  rw [perform]
  split
  · rename_i file read
    have same : file.path = job.path := path_of_read read
    rw [← same] at absolute below onWay
    exact kept_writeFile plain absolute below onWay
  · exact .refl _ _ _

theorem kept_work (writer : Writer) {ways : Place → Prop} (plain : files.NoLinks)
    (rooted : isAbsolute writer.root) (absolute : isAbsolute job.path)
    (below : StrictlyBelow writer.root job.path)
    (onWay : ∀ path ∈ [writer.root, job.path], ∀ front, front <+: components path → ways (follow [] front)) :
    Kept (resolved writer.root) ways files (writer.work files job).2 := by
  have ready : Kept (resolved writer.root) ways files
      (if writer.started then files else reset writer.root files) := by
    split
    · exact .refl _ _ _
    · exact kept_reset plain rooted (onWay writer.root (by simp))
  exact ready.trans (kept_perform (ready.noLinks plain) absolute below (onWay job.path (by simp)))

theorem kept_workAll (writer : Writer) {jobs : List Job} {ways : Place → Prop} (plain : files.NoLinks)
    (rooted : isAbsolute writer.root)
    (below : ∀ job ∈ jobs, isAbsolute job.path ∧ StrictlyBelow writer.root job.path)
    (onWay : ∀ path ∈ writer.root :: jobs.map Job.path,
      ∀ front, front <+: components path → ways (follow [] front)) :
    Kept (resolved writer.root) ways files (writer.workAll files jobs).2 := by
  induction jobs generalizing writer files with
  | nil => exact .refl _ _ _
  | cons job jobs ih =>
    obtain ⟨absolute, inside⟩ := below job List.mem_cons_self
    have first : Kept (resolved writer.root) ways files (writer.work files job).2 :=
      kept_work writer plain rooted absolute inside fun path member => onWay path (by
        rcases List.mem_cons.1 member with rfl | member
        · exact List.mem_cons_self
        · rw [List.mem_singleton.1 member]
          exact List.mem_cons_of_mem _ List.mem_cons_self)
    have later := ih (writer.work files job).1 (first.noLinks plain) rooted
      (fun job member => below job (List.mem_cons_of_mem _ member)) fun path member => onWay path (by
        rcases List.mem_cons.1 member with rfl | member
        · exact List.mem_cons_self
        · exact List.mem_cons_of_mem _ (List.mem_cons_of_mem _ member))
    exact first.trans later

-- The jobs that messages ask for, one message after the other.
def jobsOf (root : String) (messages : List Value) : List Job :=
  messages.flatMap fun message => (Shadow.react root message).effects

theorem exists_plan_of_mem_jobsOf {messages : List Value} (member : job ∈ jobsOf root messages) :
    ∃ message ∈ messages, plan root message = .ok (some job) := by
  obtain ⟨message, inside, effect⟩ := List.mem_flatMap.1 member
  refine ⟨message, inside, ?_⟩
  rw [Shadow.react] at effect
  split at effect
  · rename_i planned
    rw [List.mem_singleton.1 effect]
    exact planned
  · cases effect
  · cases effect

-- The place lies on the way to the root or to a file of a job.
def OnWay (root : String) (jobs : List Job) (place : Place) : Prop :=
  ∃ path ∈ root :: jobs.map Job.path, ∃ front, front <+: components path ∧ follow [] front = place

theorem containment (root : String) (absolute : isAbsolute root) :
    (∀ message job, plan root message = .ok (some job) →
      ∃ uri tail, uriOf? message = some uri ∧ components job.path = components root ++ tail ∧
        (StrictlyBelow root job.path ↔ Returns (resolved root) (climb tail)) ∧
        (¬ Uri.EncodedSlash (Uri.clean uri.toList) →
          Component.parent ∉ tail ∧ StrictlyBelow root job.path)) ∧
    ∀ messages files, files.NoLinks →
      (∀ message ∈ messages, ∀ job, plan root message = .ok (some job) → StrictlyBelow root job.path) →
      Kept (resolved root) (OnWay root (jobsOf root messages)) files
        (Writer.workAll ⟨root, false⟩ files (jobsOf root messages)).2 := by
  refine ⟨fun message job planned => ?_, fun messages files plain below => ?_⟩
  · obtain ⟨-, tail, present, whole, proper⟩ := exists_tail absolute planned
    obtain ⟨uri, named, led⟩ := plan_some planned
    refine ⟨uri, tail, named, whole, strictlyBelow_iff whole proper, fun unencoded => ?_⟩
    have onward : Component.parent ∉ tail := fun up =>
      unencoded (Uri.encodedSlash_of_parent (mirroredPath?_some led).1
        (whole ▸ List.mem_append_right _ up))
    exact ⟨onward, strictlyBelow_of_no_parent present whole proper onward⟩
  · refine kept_workAll ⟨root, false⟩ plain absolute (fun job member => ?_) fun path member front inside =>
      ⟨path, member, front, inside, rfl⟩
    obtain ⟨message, inside, planned⟩ := exists_plan_of_mem_jobsOf member
    exact ⟨(exists_tail absolute planned).1, below message inside job planned⟩

def opening (uri text : String) : Value :=
  .object [("method", .text didOpen),
    ("params", .object [("textDocument", .object [("uri", .text uri), ("text", .text text)])])]

theorem containment_of_document :
    let messages := [opening "file:///m/a/x.txt" "hi"]
    let files : FileSystem := ⟨[(["keep.txt"], .file [] false)], []⟩
    isAbsolute "/m" ∧ jobsOf "/m" messages = [⟨"/m/a/x.txt", [⟨"hi", none⟩]⟩] ∧
      StrictlyBelow "/m" "/m/a/x.txt" ∧
      (Writer.workAll ⟨"/m", false⟩ files (jobsOf "/m" messages)).2.at? ["keep.txt"] =
        some (.file [] false) := by
  intro messages files
  have absolute : isAbsolute "/m" := by decide
  have planned : plan "/m" (opening "file:///m/a/x.txt" "hi") =
      .ok (some ⟨"/m/a/x.txt", [⟨"hi", none⟩]⟩) := rfl
  have plain : files.NoLinks := by
    intro place target there
    simp only [files, FileSystem.at?, List.lookup_cons, List.lookup_nil] at there
    split at there
    · cases there
    · split at there <;> cases there
  obtain ⟨each, all⟩ := containment "/m" absolute
  obtain ⟨uri, tail, named, -, -, inside⟩ := each _ _ planned
  obtain rfl : "file:///m/a/x.txt" = uri := Option.some.inj named
  have below := (inside (by decide)).2
  have kept := all messages files plain fun message member job asked => by
    obtain rfl := List.mem_singleton.1 member
    cases planned.symm.trans asked
    exact below
  refine ⟨absolute, rfl, below, ?_⟩
  have before : files.at? ["keep.txt"] = some (.file [] false) := rfl
  rcases kept.outside ["keep.txt"] (by decide) with same | ⟨-, free, -⟩ | ⟨itself, -⟩
  · exact same.trans before
  · cases before.symm.trans free
  · exact absurd itself (by decide)

-- A job whose path leads to a free name writes its file there, wherever that is.
theorem perform_new {place : Place} {above : String}
    (led : files.resolve true job.path = .ok (.absent place))
    (ends : job.path.toList.getLast? ≠ some '/') (parent : parent? job.path = some above)
    (ready : files.createAll above = (.ok (), files)) :
    perform job files = files.put place
      (.file (Text.utf8 (String.ofList (Document.applyChanges [] job.changes))) false) := by
  have read : TextFile.read files job.path = .ok ⟨job.path, ""⟩ := by
    simp only [TextFile.read, FileSystem.readText, FileSystem.read, FileSystem.entry?, led]
  have written : ∀ content, files.write job.path content = .ok (files.put place (.file content false)) := by
    intro content
    rw [FileSystem.write, if_neg ends, led]
  rw [perform, read]
  simp only [TextFile.write, TextFile.change, parent, ready, written]
  rfl

def escaped : Job := ⟨"/m/../escaped.txt", [⟨"hi", none⟩]⟩

def mirrorOnly : FileSystem := ⟨[(["m"], .directory)], []⟩

theorem reset_empty : reset "/m" ⟨[], []⟩ = mirrorOnly := by
  have parts : segments "/m" = ["", "m"] := by decide
  have whole : FileSystem.withoutEnd "/m" = "/m" := by decide
  have absolute : isAbsolute "/m" := by decide
  have short : Path.byteLength "m" = 1 := by decide
  simp [reset, FileSystem.removeAll, FileSystem.resolve, parts, absolute, FileSystem.origin,
    FileSystem.walk, short, FileSystem.nameLimit, FileSystem.at?, FileSystem.createAll,
    FileSystem.createUpTo, FileSystem.createDirectory, FileSystem.wanted?,
    FileSystem.ensureDirectory, whole, FileSystem.put, mirrorOnly]

theorem resolve_escaped : mirrorOnly.resolve true escaped.path = .ok (.absent ["escaped.txt"]) := by
  have parts : segments "/m/../escaped.txt" = ["", "m", "..", "escaped.txt"] := by decide
  have absolute : isAbsolute "/m/../escaped.txt" := by decide
  have short : Path.byteLength "m" = 1 := by decide
  have brief : Path.byteLength "escaped.txt" = 11 := by decide
  have there : mirrorOnly.at? ["m"] = some .directory := by decide
  have top : mirrorOnly.at? [] = some .directory := rfl
  have free : mirrorOnly.at? ["escaped.txt"] = none := by decide
  simp [escaped, FileSystem.resolve, parts, absolute, FileSystem.origin, FileSystem.walk, short, brief,
    FileSystem.nameLimit, there, top, free]

theorem createAll_above : mirrorOnly.createAll "/m/.." = (.ok (), mirrorOnly) := by
  have parts : segments "/m/.." = ["", "m", ".."] := by decide
  have whole : FileSystem.withoutEnd "/m/.." = "/m/.." := by decide
  have absolute : isAbsolute "/m/.." := by decide
  have short : Path.byteLength "m" = 1 := by decide
  have there : mirrorOnly.at? ["m"] = some .directory := by decide
  have top : mirrorOnly.at? [] = some .directory := rfl
  have led : ∀ follows, mirrorOnly.resolve follows "/m/.." = .ok (.present [] .directory) := by
    intro follows
    simp [FileSystem.resolve, parts, absolute, FileSystem.origin, FileSystem.walk, short,
      FileSystem.nameLimit, there, top]
  simp [FileSystem.createAll, parts, FileSystem.createUpTo, FileSystem.wanted?,
    FileSystem.createDirectory, whole, led, FileSystem.ensureDirectory, FileSystem.isDirectory,
    FileSystem.entry?]

theorem escapes_by_encoded_slash :
    isAbsolute "/m" ∧ Component.parent ∉ components "/m" ∧
      plan "/m" (opening "file:///m/..%2Fescaped.txt" "hi") = .ok (some escaped) ∧
      ¬ StrictlyBelow "/m" escaped.path ∧
      (Writer.workAll ⟨"/m", false⟩ ⟨[], []⟩ [escaped]).2.at? ["escaped.txt"] =
        some (.file (Text.utf8 "hi") false) := by
  refine ⟨by decide, by decide, rfl, by decide, ?_⟩
  have done : (Writer.workAll ⟨"/m", false⟩ ⟨[], []⟩ [escaped]).2 = perform escaped mirrorOnly :=
    congrArg (perform escaped) reset_empty
  rw [done, perform_new resolve_escaped (by decide) (by decide) createAll_above,
    FileSystem.at?_put, if_neg (by decide), if_pos rfl]
  rfl

end LanguageRelay.Mirror
