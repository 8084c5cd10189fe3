import LanguageRelay.Proofs.Host.Within
import LanguageRelay.Proofs.Mirror.Containment
import LanguageRelay.Proofs.Mirror.Mirrored
namespace LanguageRelay.Mirror
open Json Host Document LanguageRelay.Path FileSystem
variable {root : String} {files : FileSystem} {place : Place} {done jobs : List Job} {job : Job}

-- The root is emptied: what was there is removed, or nothing was, and it is made again.
def Resets (root : String) (files : FileSystem) : Prop :=
  match files.removeAll root with
  | .ok removed => (removed.createAll root).1 = .ok ()
  | .error .notFound => (files.createAll root).1 = .ok ()
  | .error _ => False

def Performs (job : Job) (files : FileSystem) : Prop :=
  match TextFile.read files job.path with
  | .ok file => ((file.change job.changes).write files).1 = .ok ()
  | .error _ => False

-- No operation on files fails while the jobs are done.
def Succeeds (writer : Writer) (files : FileSystem) : List Job → Prop
  | [] => True
  | job :: jobs =>
    let ready := if writer.started then files else reset writer.root files
    (writer.started ∨ Resets writer.root files) ∧ Performs job ready ∧
      Succeeds (writer.work files job).1 (writer.work files job).2 jobs

-- The tree at the root is what the jobs that are done make of an empty one.
structure Mirrors (root : String) (files : FileSystem) (place : Place) (done : List Job) : Prop where
  tree : Tree files root place
  holds : ∀ names, names ≠ [] → files.at? (place ++ names) = mirrored root done names
  found : ∀ job ∈ done, isAbsolute job.path ∧ ∀ names, components job.path = spot root names →
    ∃ entry, files.resolve true job.path = .ok (.present (place ++ names) entry)

theorem fresh_of_resets (absolute : isAbsolute root) (onward : Component.parent ∉ components root)
    (grounded : files.Grounded) (resets : Resets root files) :
    ∃ place, Fresh (reset root files) root place := by
  rw [Resets] at resets
  rw [reset]
  cases gone : files.removeAll root with
  | ok removed =>
    rw [gone] at resets
    exact fresh_of_removeAll absolute onward grounded gone (Prod.ext resets rfl)
  | error e =>
    rw [gone] at resets
    cases e with
    | notFound => exact fresh_of_missing absolute onward grounded gone (Prod.ext resets rfl)
    | _ => exact resets.elim

theorem mirrors_of_fresh (absolute : isAbsolute root) (fresh : Fresh files root place) :
    Mirrors root files place [] := by
  refine ⟨fresh.tree absolute, ?_, nofun⟩
  intro names present
  rw [fresh.empty names present, mirrored_nil]

theorem Mirrors.text {names : Place} {file : TextFile} (mirrors : Mirrors root files place done)
    (present : names ≠ []) (there : components job.path = spot root names)
    (read : TextFile.read files job.path = .ok file) : file.text = textAt root done names := by
  have holds := mirrors.holds names present
  rcases read_within mirrors.tree there read with ⟨none, empty⟩ | ⟨content, executable, found, decoded⟩ |
    device
  · rw [none] at holds
    rw [empty, textAt_of_no_job (no_job_of_mirrored holds.symm)]
  · rw [found] at holds
    rcases mirrored_cases holds.symm with same | same
    · cases same
      rw [Text.utf8Decode?_utf8] at decoded
      exact (Option.some.inj decoded).symm
    · cases same
  · rw [device] at holds
    rcases mirrored_cases holds.symm with same | same <;> cases same

theorem Mirrors.at?_written {middle after : FileSystem} {front : Place} {name : String}
    (mirrors : Mirrors root files place done)
    (there : components job.path = spot root (front ++ [name])) (paved : Paved files middle place front)
    (written : Written middle after job.path (place ++ (front ++ [name]))
      (Text.utf8 (textAt root (done ++ [job]) (front ++ [name])))) {names : Place} (present : names ≠ []) :
    after.at? (place ++ names) = mirrored root (done ++ [job]) names := by
  obtain ⟨executable, rfl, old⟩ := written.put
  rw [at?_put, if_neg (by simp [present]), mirrored_concat there]
  by_cases itself : names = front ++ [name]
  · have outside : ¬ front ++ [name] <+: front := fun inside => absurd inside.length_le (by simp)
    have still : middle.at? (place ++ (front ++ [name])) = files.at? (place ++ (front ++ [name])) := by
      rw [paved.made _ (by simp), if_neg fun made => outside made.1]
    have plain : executable = false := by
      rcases old with ⟨-, plain⟩ | ⟨content, found⟩
      · exact plain
      · rw [still, mirrors.holds _ (by simp)] at found
        rcases mirrored_cases found with same | same
        · cases same
          rfl
        · cases same
    rw [itself, if_pos rfl, if_pos rfl, plain]
  · have way : names <+: front ++ [name] ↔ names <+: front := by
      rw [List.prefix_concat_iff, or_iff_right itself]
    rw [if_neg (by simpa using itself), if_neg itself, paved.made names present,
      mirrors.holds names present]
    simp only [way]

theorem Mirrors.written {middle after : FileSystem} {front : Place} {name : String}
    (mirrors : Mirrors root files place done) (absolute : isAbsolute job.path)
    (there : components job.path = spot root (front ++ [name])) (paved : Paved files middle place front)
    (written : Written middle after job.path (place ++ (front ++ [name]))
      (Text.utf8 (textAt root (done ++ [job]) (front ++ [name])))) :
    Mirrors root after place (done ++ [job]) := by
  have holds : ∀ names, names ≠ [] → after.at? (place ++ names) = mirrored root (done ++ [job]) names :=
    fun names present => mirrors.at?_written there paved written present
  have grows := paved.grows.trans written.grows
  have directory := grows.directory _ mirrors.tree.there
  refine ⟨mirrors.tree.grow grows ?_ ?_, holds, ?_⟩
  · obtain ⟨executable, rfl, -⟩ := written.put
    have free := written.free.1
    rw [← List.append_assoc] at free ⊢
    exact paved.grounded.put paved.there free _
  · intro names goal link
    by_cases top : names = []
    · rw [top, List.append_nil, directory] at link
      cases link
    · rw [holds names top] at link
      rcases mirrored_cases link with same | same <;> cases same
  · intro other member
    rcases List.mem_append.1 member with earlier | last
    · obtain ⟨starts, found⟩ := mirrors.found other earlier
      refine ⟨starts, ?_⟩
      intro names itself
      obtain ⟨entry, led⟩ := found names itself
      obtain ⟨new, still, -⟩ := resolve_grow grows starts led
      exact ⟨new, still⟩
    · obtain rfl := List.mem_singleton.1 last
      refine ⟨absolute, ?_⟩
      intro names itself
      obtain rfl := spot_inj.1 (there.symm.trans itself)
      obtain ⟨executable, led⟩ := written.led
      exact ⟨_, led⟩

theorem Mirrors.perform {front : Place} {name : String} (mirrors : Mirrors root files place done)
    (absolute : isAbsolute job.path) (there : components job.path = spot root (front ++ [name]))
    (performs : Performs job files) : Mirrors root (perform job files) place (done ++ [job]) := by
  have present : front ++ [name] ≠ [] := by simp
  cases read : TextFile.read files job.path with
  | error e =>
    rw [Performs, read] at performs
    exact performs.elim
  | ok file =>
    simp only [Performs, read] at performs
    simp only [Mirror.perform, read]
    cases wrote : (file.change job.changes).write files with
    | mk result after =>
      rw [wrote] at performs
      cases performs
      obtain ⟨path, text⟩ := file
      obtain rfl : path = job.path := path_of_read read
      have known : text = textAt root done (front ++ [name]) := mirrors.text present there read
      have noDevice : files.at? (place ++ (front ++ [name])) ≠ some .device := by
        intro device
        rw [mirrors.holds _ present] at device
        rcases mirrored_cases device with same | same <;> cases same
      obtain ⟨middle, paved, written⟩ := write_within wrote mirrors.tree absolute there noDevice
      apply mirrors.written absolute there paved
      rw [textAt_concat there, ← known]
      exact written

def Concerns (root : String) (job : Job) : Prop :=
  isAbsolute job.path ∧ ∃ front name, components job.path = spot root (front ++ [name])

theorem Mirrors.workAll (mirrors : Mirrors root files place done)
    (below : ∀ job ∈ jobs, Concerns root job) (succeeds : Succeeds ⟨root, true⟩ files jobs) :
    Mirrors root (Writer.workAll ⟨root, true⟩ files jobs).2 place (done ++ jobs) := by
  induction jobs generalizing files done with
  | nil =>
    rw [List.append_nil]
    exact mirrors
  | cons job jobs ih =>
    obtain ⟨-, performs, later⟩ := succeeds
    obtain ⟨absolute, front, name, there⟩ := below job List.mem_cons_self
    have first : Mirrors root (Mirror.perform job files) place (done ++ [job]) :=
      mirrors.perform absolute there performs
    rw [List.append_cons]
    exact ih first (fun other member => below other (List.mem_cons_of_mem _ member)) later

theorem mirrors_of_succeeds (absolute : isAbsolute root) (onward : Component.parent ∉ components root)
    (grounded : files.Grounded) (below : ∀ job ∈ jobs, Concerns root job) (present : jobs ≠ [])
    (succeeds : Succeeds ⟨root, false⟩ files jobs) :
    ∃ place, Mirrors root (Writer.workAll ⟨root, false⟩ files jobs).2 place jobs := by
  cases jobs with
  | nil => exact absurd rfl present
  | cons job jobs =>
    obtain ⟨started, performs, later⟩ := succeeds
    have resets : Resets root files := started.resolve_left Bool.false_ne_true
    obtain ⟨place, fresh⟩ := fresh_of_resets absolute onward grounded resets
    obtain ⟨starts, front, name, there⟩ := below job List.mem_cons_self
    have first : Mirrors root (Mirror.perform job (reset root files)) place [job] :=
      (mirrors_of_fresh absolute fresh).perform starts there performs
    exact ⟨place, first.workAll (fun other member => below other (List.mem_cons_of_mem _ member)) later⟩

theorem absolute_of_plan {message : Value} (named : root ≠ "")
    (planned : plan root message = .ok (some job)) : isAbsolute root := by
  obtain ⟨uri, -, led⟩ := plan_some planned
  obtain ⟨found, tail, present, whole⟩ := mirroredPath?_some led
  have nonempty : job.path ≠ "" := by
    intro empty
    rw [empty] at whole
    exact present (List.append_eq_nil_iff.1 whole.symm).2
  have absolute := Uri.isAbsolute_of_filePath? found nonempty
  rw [components_of_isAbsolute absolute] at whole
  cases parts : components root with
  | nil => exact absurd (eq_empty_of_components parts) named
  | cons first rest =>
    rw [parts, List.cons_append, List.cons.injEq] at whole
    rw [← whole.1] at parts
    exact isAbsolute_of_components parts

theorem concerns_of_plan {message : Value} (absolute : isAbsolute root)
    (planned : plan root message = .ok (some job)) (onward : Component.parent ∉ components job.path) :
    Concerns root job := by
  obtain ⟨starts, tail, present, whole, proper⟩ := exists_tail absolute planned
  rw [whole] at onward
  obtain ⟨names, rfl⟩ := names_of_no_parent proper fun member =>
    onward (List.mem_append_right _ member)
  rcases List.eq_nil_or_concat names with rfl | ⟨front, name, rfl⟩
  · exact absurd rfl present
  · exact ⟨starts, front, name, by rw [whole, spot, List.concat_eq_append]⟩

def Rejected (root : String) (message : Value) : Prop := ∃ reason, plan root message = .error reason

-- A notification about a document below the root that comes without its text, and with a list of
-- changes of which one, wherever it stands, is none.
def Malformed (root : String) (message : Value) : Prop :=
  ∃ method ∈ [didOpen, didChange, didSave], ∃ document uri path items,
    message.textAt? "method" = some method ∧
      message.path? ["params", "textDocument"] = some document ∧
      document.textAt? "uri" = some uri ∧ uri ≠ "" ∧ mirroredPath? root uri = some path ∧
      document.textAt? "text" = none ∧
      message.path? ["params", "contentChanges"] = some (.list items) ∧
      ∃ item ∈ items, Change.read? (Datum.ofValue item) = none

theorem list?_ofValue {α : Type} {read : Datum.Reader α} {items : List Value}
    (unread : ∃ item ∈ items, read (Datum.ofValue item) = none) :
    Datum.list? read (Datum.ofValue (.list items)) = none := by
  rw [Datum.ofValue, Datum.list?]
  induction items with
  | nil =>
    obtain ⟨item, member, -⟩ := unread
    cases member
  | cons item items ih =>
    rw [Datum.ofValues, List.mapM_cons]
    cases first : read (Datum.ofValue item) with
    | none => rfl
    | some value =>
      have later : ∃ item ∈ items, read (Datum.ofValue item) = none := by
        obtain ⟨other, member, unread⟩ := unread
        rcases List.mem_cons.1 member with rfl | member
        · rw [first] at unread
          cases unread
        · exact ⟨other, member, unread⟩
      rw [ih later]
      rfl

theorem rejected_of_malformed {message : Value} (malformed : Malformed root message) :
    Rejected root message := by
  obtain ⟨method, known, document, uri, path, items, named, there, at_uri, present, led, noText, changes,
    unread⟩ := malformed
  refine ⟨.invalidContentChanges method uri "expected a list of changes", ?_⟩
  have whole : (document.textAt? "uri").filter (· ≠ "") = some uri := by
    rw [at_uri]
    simp [present]
  simp only [plan, named, there, whole, led, changesOf, noText, changes, list?_ofValue unread,
    known, not_true_eq_false, if_false]

theorem jobsOf_of_rejected {front back : List Value} {message : Value} (rejected : Rejected root message) :
    jobsOf root (front ++ message :: back) = jobsOf root (front ++ back) := by
  obtain ⟨reason, refused⟩ := rejected
  have nothing : (Shadow.react root message).effects = [] := by
    rw [Shadow.react, refused]
  rw [jobsOf, jobsOf, List.flatMap_append, List.flatMap_append, List.flatMap_cons, nothing,
    List.nil_append]

theorem Mirrors.readText (mirrors : Mirrors root files place done) {names : Place} (member : job ∈ done)
    (present : names ≠ []) (there : components job.path = spot root names) :
    files.readText job.path = .ok (textAt root done names) := by
  obtain ⟨absolute, found⟩ := mirrors.found job member
  obtain ⟨entry, led⟩ := found names there
  have holds : files.at? (place ++ names) = some entry := (arrives_of_resolve absolute led).holds
  rw [mirrors.holds names present, mirrored, if_pos ⟨job, member, there⟩] at holds
  cases holds
  simp only [FileSystem.readText, FileSystem.read, entry?, led, Text.utf8Decode?_utf8]

-- Documents with one file are named by the same bytes.
theorem pathBytes?_eq {first second path : String} (one : Uri.filePath? first = some path)
    (other : Uri.filePath? second = some path) : Uri.pathBytes? first = Uri.pathBytes? second := by
  obtain ⟨bytes, read, rfl⟩ := Option.map_eq_some_iff.1 one
  obtain ⟨others, again, same⟩ := Option.map_eq_some_iff.1 other
  rw [read, again, ofBytes_injective same]

-- The root is named by a path, as the empty one names none. Documents of which one lies in the other
-- are not excluded: there the operations do not all succeed.
theorem refinement (root : String) (named : root ≠ "") (messages : List Value) (files : FileSystem)
    (grounded : files.Grounded) (succeeds : Succeeds ⟨root, false⟩ files (jobsOf root messages))
    (onward : ∀ job ∈ jobsOf root messages, Component.parent ∉ components job.path) :
    let jobs := jobsOf root messages
    let after := (Writer.workAll ⟨root, false⟩ files jobs).2
    (jobs = [] → after = files) ∧
    (jobs ≠ [] → ∃ place, after.resolve true root = .ok (.present place .directory) ∧
      (∀ names, names ≠ [] → after.at? (place ++ names) = mirrored root jobs names) ∧
      ∀ job ∈ jobs, ∃ names, names ≠ [] ∧ components job.path = spot root names ∧
        after.readText job.path = .ok (textAt root jobs names)) ∧
    (∀ front message back, messages = front ++ message :: back → Rejected root message →
      (Writer.workAll ⟨root, false⟩ files (jobsOf root (front ++ back))).2 = after) ∧
    (∀ message, Malformed root message → Rejected root message) ∧
    ∀ first second path, Uri.filePath? first = some path → Uri.filePath? second = some path →
      Uri.pathBytes? first = Uri.pathBytes? second := by
  intro jobs after
  refine ⟨?_, ?_, ?_, fun message => rejected_of_malformed, fun first second path => pathBytes?_eq⟩
  · intro nothing
    simp only [after, nothing, Writer.workAll, List.foldl_nil]
  · intro present
    obtain ⟨job, member⟩ := List.exists_mem_of_ne_nil jobs present
    obtain ⟨message, -, planned⟩ := exists_plan_of_mem_jobsOf member
    have absolute := absolute_of_plan named planned
    have below : ∀ job ∈ jobs, Concerns root job := by
      intro other inside
      obtain ⟨message, -, planned⟩ := exists_plan_of_mem_jobsOf inside
      exact concerns_of_plan absolute planned (onward other inside)
    have rooted : Component.parent ∉ components root := by
      obtain ⟨-, tail, -, whole, -⟩ := exists_tail absolute planned
      intro up
      apply onward job member
      rw [whole]
      exact List.mem_append_left _ up
    obtain ⟨place, mirrors⟩ := mirrors_of_succeeds absolute rooted grounded below present succeeds
    refine ⟨place, mirrors.tree.led, mirrors.holds, ?_⟩
    intro other inside
    obtain ⟨-, front, name, there⟩ := below other inside
    have nonempty : front ++ [name] ≠ [] := by simp
    exact ⟨_, nonempty, there, mirrors.readText inside nonempty there⟩
  · intro front message back whole rejected
    simp only [after, jobs, whole, jobsOf_of_rejected rejected]

def changing (uri : String) (changes : List Value) : Value :=
  .object [("method", .text didChange),
    ("params", .object [("textDocument", .object [("uri", .text uri)]), ("contentChanges", .list changes)])]

def positionValue (line character : Int) : Value :=
  .object [("line", .number (.integer line)), ("character", .number (.integer character))]

def insertion (text : String) (line character : Int) : Value :=
  .object [("text", .text text), ("range", .object [("start", positionValue line character),
    ("end", positionValue line character)])]

def garbled : Value := changing "file:///m/x" [insertion "?" 0 0, .null]

def conversation : List Value :=
  [opening "file:///m/x" "hi", garbled, changing "file:///m/x" [insertion "!" 0 2]]

def stale : FileSystem := ⟨[(["m"], .directory), (["m", "old"], .file [] false)], []⟩

theorem grounded_stale : stale.Grounded := by
  intro place name there
  have present : place ++ [name] ≠ [] := by simp
  simp only [at?, stale, present, if_false, List.lookup_cons, List.lookup_nil] at there
  split at there
  · rename_i first
    have same : place ++ [name] = [] ++ ["m"] := eq_of_beq first
    rw [(List.append_inj' same rfl).1]
    rfl
  · split at there
    · rename_i second
      have same : place ++ [name] = ["m"] ++ ["old"] := eq_of_beq second
      rw [(List.append_inj' same rfl).1]
      rfl
    · exact absurd rfl there

theorem resolve_root {fs : FileSystem} (there : fs.at? ["m"] = some .directory) (follow : Bool) :
    fs.resolve follow "/m" = .ok (.present ["m"] .directory) := by
  have parts : segments "/m" = ["", "m"] := by decide
  have name : Named "m" := ⟨by decide, by decide⟩
  have noLink : ∀ goal, Entry.directory ≠ .link goal := nofun
  rw [resolve_eq_walk (by decide) (by decide), parts, walk_stay rfl rfl, walk_down rfl name there noLink]
  exact walk_nil there

theorem removeAll_stale : stale.removeAll "/m" = .ok ⟨[], []⟩ := by
  rw [removeAll, resolve_root rfl]
  rfl

theorem createAll_empty : FileSystem.createAll ⟨[], []⟩ "/m" = (.ok (), mirrorOnly) := by
  have parts : segments "/m" = ["", "m"] := by decide
  have whole : withoutEnd "/m" = "/m" := by decide
  have name : Named "m" := ⟨by decide, by decide⟩
  have free : FileSystem.resolve ⟨[], []⟩ false "/m" = .ok (.absent ["m"]) := by
    rw [resolve_eq_walk (by decide) (by decide), parts, walk_stay rfl rfl, walk_free rfl name rfl]
    rfl
  have made : FileSystem.createDirectory ⟨[], []⟩ "/m" = .ok mirrorOnly := by
    rw [createDirectory, whole, free]
    rfl
  have present : "/m" ≠ "" := by decide
  simp only [createAll, parts, List.length_cons, createUpTo, wanted?, made, ensureDirectory, present,
    if_false]

theorem createAll_root {fs : FileSystem} (there : fs.at? ["m"] = some .directory) :
    fs.createAll "/m" = (.ok (), fs) :=
  createUpTo_of_directory (by decide) (resolve_root there true) _

theorem resolve_document {fs : FileSystem} (there : fs.at? ["m"] = some .directory) :
    fs.resolve true "/m/x" = fs.walk true linkLimit ["m"] ["x"] := by
  have parts : segments "/m/x" = ["", "m", "x"] := by decide
  have name : Named "m" := ⟨by decide, by decide⟩
  have noLink : ∀ goal, Entry.directory ≠ .link goal := nofun
  rw [resolve_eq_walk (by decide) (by decide), parts, walk_stay rfl rfl, walk_down rfl name there noLink]
  rfl

theorem performs_of_written {above : String} {file : TextFile}
    (read : TextFile.read files job.path = .ok file) (parent : parent? job.path = some above)
    (ready : files.createAll above = (.ok (), files))
    (written : ∀ content, ∃ after, files.write job.path content = .ok after) : Performs job files := by
  have itself : file.path = job.path := path_of_read read
  obtain ⟨after, success⟩ := written (Text.utf8 (file.change job.changes).text)
  simp only [TextFile.change] at success
  simp only [Performs, read, TextFile.write, TextFile.change, itself, parent, ready, success, attempt]

def opened : Job := ⟨"/m/x", [⟨"hi", none⟩]⟩
def amended : Job := ⟨"/m/x", [⟨"!", some ⟨⟨0, 2⟩, ⟨0, 2⟩⟩⟩]⟩

def greeting : FileSystem := mirrorOnly.put ["m", "x"] (.file (Text.utf8 "hi") false)

theorem resolve_opened : mirrorOnly.resolve true opened.path = .ok (.absent ["m", "x"]) := by
  have name : Named "x" := ⟨by decide, by decide⟩
  rw [opened, resolve_document rfl, walk_free rfl name rfl]
  rfl

theorem resolve_amended :
    greeting.resolve true amended.path = .ok (.present ["m", "x"] (.file (Text.utf8 "hi") false)) := by
  have name : Named "x" := ⟨by decide, by decide⟩
  have there : greeting.at? (["m"] ++ ["x"]) = some (.file (Text.utf8 "hi") false) := rfl
  rw [amended, resolve_document rfl, walk_down rfl name there nofun]
  exact walk_nil there

theorem performs_opened : Performs opened mirrorOnly := by
  have read : TextFile.read mirrorOnly opened.path = .ok ⟨opened.path, ""⟩ := by
    simp only [TextFile.read, FileSystem.readText, FileSystem.read, entry?, resolve_opened]
  refine performs_of_written read (by decide) (createAll_root rfl) fun content => ?_
  rw [FileSystem.write, if_neg (by decide), resolve_opened]
  exact ⟨_, rfl⟩

theorem performs_amended : Performs amended greeting := by
  have read : TextFile.read greeting amended.path = .ok ⟨amended.path, "hi"⟩ := by
    simp only [TextFile.read, FileSystem.readText, FileSystem.read, entry?, resolve_amended,
      Text.utf8Decode?_utf8]
  refine performs_of_written read (by decide) (createAll_root rfl) fun content => ?_
  rw [FileSystem.write, if_neg (by decide), resolve_amended]
  exact ⟨_, rfl⟩

theorem succeeds_conversation : Succeeds ⟨"/m", false⟩ stale (jobsOf "/m" conversation) := by
  have jobs : jobsOf "/m" conversation = [opened, amended] := rfl
  have resets : Resets "/m" stale := by
    rw [Resets, removeAll_stale]
    exact congrArg Prod.fst createAll_empty
  have emptied : reset "/m" stale = mirrorOnly := by
    rw [reset, removeAll_stale]
    exact congrArg Prod.snd createAll_empty
  have done : perform opened mirrorOnly = greeting :=
    perform_new resolve_opened (by decide) (by decide) (createAll_root rfl)
  rw [jobs]
  refine ⟨.inr resets, ?_, .inl rfl, ?_, trivial⟩
  · show Performs opened (reset "/m" stale)
    rw [emptied]
    exact performs_opened
  · show Performs amended (perform opened (reset "/m" stale))
    rw [emptied, done]
    exact performs_amended

theorem refinement_of_conversation :
    "/m" ≠ "" ∧ stale.Grounded ∧ Succeeds ⟨"/m", false⟩ stale (jobsOf "/m" conversation) ∧
      (∀ job ∈ jobsOf "/m" conversation, Component.parent ∉ components job.path) ∧
      Malformed "/m" garbled ∧
      let after := (Writer.workAll ⟨"/m", false⟩ stale (jobsOf "/m" conversation)).2
      (∃ place, after.resolve true "/m" = .ok (.present place .directory) ∧
        after.at? (place ++ ["x"]) = some (.file (Text.utf8 "hi!") false) ∧
        after.at? (place ++ ["old"]) = none) ∧
      (Writer.workAll ⟨"/m", false⟩ stale (jobsOf "/m" (conversation.eraseIdx 1))).2 = after := by
  have named : "/m" ≠ "" := by decide
  have jobs : jobsOf "/m" conversation = [opened, amended] := rfl
  have onward : ∀ job ∈ jobsOf "/m" conversation, Component.parent ∉ components job.path := by
    rw [jobs]
    decide
  have malformed : Malformed "/m" garbled :=
    ⟨didChange, by decide, _, "file:///m/x", "/m/x", _, rfl, rfl, rfl, by decide, rfl, rfl, rfl, .null,
      by simp, rfl⟩
  obtain ⟨-, tree, without, rejects, -⟩ :=
    refinement "/m" named conversation stale grounded_stale succeeds_conversation onward
  obtain ⟨place, led, holds, -⟩ := tree (by rw [jobs]; nofun)
  refine ⟨named, grounded_stale, succeeds_conversation, onward, malformed, ⟨place, led, ?_, ?_⟩, ?_⟩
  · rw [holds _ (by decide)]
    rfl
  · rw [holds _ (by decide)]
    rfl
  · exact without [_] garbled [_] rfl (rejects garbled malformed)

end LanguageRelay.Mirror
