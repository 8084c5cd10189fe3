import LanguageRelay.Proofs.Relay.Isolation
namespace LanguageRelay

theorem modify_concat {α : Type} (items : List α) (last : α) (f : α → α) :
    (items ++ [last]).modify items.length f = items ++ [f last] := by
  induction items with
  | nil => rfl
  | cons first rest ih => exact congrArg (first :: ·) ih

namespace Machine
variable {m next : Machine} {setup : Setup} {event : Event} {events : List Event} {t : TaskId}
  {key : String} {c : ConnectionId} {message : Option Message} {below : List Activity}

def status (m : Machine) (key : String) (spec : LaunchSpec) : ServerStatus :=
  match m.map.find? key with
  | none => ServerStatus.idle spec
  | some s => { ServerStatus.idle spec with
      state := (m.session s).state, subscriberCount := (m.session s).subscribers.length }

-- The machine with one more task, which may hold the lock of the map.
def joined (m : Machine) (lock : Option TaskId) (task : Task) : Machine :=
  { m with mapLock := lock, tasks := m.tasks ++ [task] }

theorem joined_of_free (free : m.mapLock = none) (task : Task) :
    m.joined none task = { m with tasks := m.tasks ++ [task] } := by
  rw [joined, ← free]

theorem task_joined (lock : Option TaskId) (task : Task) :
    (m.joined lock task).task m.tasks.length = task := by
  simp [joined, Machine.task]

theorem updateTask_joined (lock : Option TaskId) (task : Task) (f : Task → Task) :
    (m.joined lock task).updateTask m.tasks.length f = m.joined lock (f task) := by
  simp only [joined, updateTask, modify_concat]

theorem advance_joined {lock after : Option TaskId} {a : Activity} {rest new : List Activity}
    {reply answered : Option Reply}
    (performed : (m.joined lock ⟨a :: rest, reply⟩).perform setup m.tasks.length a =
      some (m.joined after ⟨a :: rest, answered⟩, new)) :
    (m.joined lock ⟨a :: rest, reply⟩).advance setup (.run m.tasks.length) =
      some (m.joined after ⟨new ++ rest, answered⟩) := by
  simp only [advance, turn, task_joined, performed, Option.map_some, updateTask_joined]

def told (setup : Setup) (m : Machine) (key : String) : ServerStatus :=
  match setup.specs.find? key with
  | some spec => m.status key spec
  | none => default

theorem runs_reportState (keys : List String) (found : Keyed ServerStatus)
    (known : ∀ key ∈ keys, (setup.specs.find? key).isSome) : ∃ n,
    (m.joined (some m.tasks.length) ⟨[.reportState keys found], none⟩).runs setup
      (.replicate n (.run m.tasks.length)) = some (m.joined none ⟨[], some (.report (.ofSessions
        (keys.foldl (fun found key => found.insert key (told setup m key)) found)))⟩) := by
  induction keys generalizing found with
  | nil =>
    have ends : (m.joined (some m.tasks.length) ⟨[.reportState [] found], none⟩).perform setup
        m.tasks.length (.reportState [] found) =
        some (m.joined none ⟨[.reportState [] found], some (.report (.ofSessions found))⟩, []) := by
      show some ((m.joined none _).answer _ _, []) = _
      rw [answer, updateTask_joined]
      rfl
    refine ⟨1, ?_⟩
    rw [List.replicate_one, runs, advance_joined ends]
    rfl
  | cons key rest ih =>
    obtain ⟨spec, own⟩ := Option.isSome_iff_exists.1 (known key List.mem_cons_self)
    obtain ⟨n, ran⟩ := ih (found.insert key (told setup m key)) fun key later =>
      known key (List.mem_cons_of_mem _ later)
    cases there : m.map.find? key with
    | none =>
      have reads : (m.joined (some m.tasks.length) ⟨[.reportState (key :: rest) found], none⟩).perform
          setup m.tasks.length (.reportState (key :: rest) found) =
          some (m.joined (some m.tasks.length) ⟨[.reportState (key :: rest) found], none⟩,
            [.reportState rest (found.insert key (told setup m key))]) := by
        simp only [perform, reportState, joined, there, statusOf, told, own, status]
        rfl
      refine ⟨n + 1, ?_⟩
      rw [List.replicate_succ, runs, advance_joined reads]
      exact ran
    | some s =>
      have reads : (m.joined (some m.tasks.length) ⟨[.reportState (key :: rest) found], none⟩).perform
          setup m.tasks.length (.reportState (key :: rest) found) =
          some (m.joined (some m.tasks.length) ⟨[.reportState (key :: rest) found], none⟩,
            [.reportCount key (m.session s).state s rest found]) := by
        simp only [perform, reportState, joined, there]
        rfl
      have counts : (m.joined (some m.tasks.length)
            ⟨[.reportCount key (m.session s).state s rest found], none⟩).perform
          setup m.tasks.length (.reportCount key (m.session s).state s rest found) =
          some (m.joined (some m.tasks.length)
              ⟨[.reportCount key (m.session s).state s rest found], none⟩,
            [.reportState rest (found.insert key (told setup m key))]) := by
        simp only [perform, reportCount, joined, statusOf, told, own, status, there]
        rfl
      refine ⟨n + 2, ?_⟩
      rw [List.replicate_succ, runs, advance_joined reads, Option.bind_some, List.replicate_succ]
      rw [List.cons_append, List.nil_append, runs, advance_joined counts]
      exact ran

theorem runs_report (free : m.mapLock = none) : ∃ n found,
    m.runs setup (.call .report :: .replicate n (.run m.tasks.length)) =
      some { m with tasks := m.tasks ++ [⟨[], some (.report (.ofSessions found))⟩] } ∧
    ∀ key, found.find? key = (setup.specs.find? key).map (m.status key) := by
  have known : ∀ key ∈ setup.specs.keys, (setup.specs.find? key).isSome := by
    intro key member
    apply Classical.byContradiction
    intro absent
    exact Keyed.find?_eq_none_iff.1 (Option.not_isSome_iff_eq_none.1 absent) member
  obtain ⟨n, ran⟩ := runs_reportState (m := m) setup.specs.keys [] known
  have begins : (m.joined none ⟨[.report], none⟩).perform setup m.tasks.length .report =
      some (m.joined (some m.tasks.length) ⟨[.report], none⟩, [.reportState setup.specs.keys []]) := by
    simp only [perform, report, joined]
    rfl
  have call : m.advance setup (.call .report) = some (m.joined none ⟨[.report], none⟩) := by
    rw [joined_of_free free]
    rfl
  refine ⟨n + 1, setup.specs.keys.foldl (fun found key => found.insert key (told setup m key)) [], ?_,
    fun key => ?_⟩
  · rw [runs, call, Option.bind_some, List.replicate_succ, runs, advance_joined begins,
      ← joined_of_free free]
    exact ran
  · rw [Keyed.find?_foldl_insert (told setup m)]
    by_cases own : key ∈ setup.specs.keys
    · obtain ⟨spec, found⟩ := Option.isSome_iff_exists.1 (known key own)
      simp [own, found, told]
    · rw [if_neg own, Keyed.find?_eq_none_iff.2 own]
      rfl

theorem advance_top {a : Activity} {rest : List Activity} (stack : m.frames t = a :: rest) :
    m.advance setup (.run t) = (m.perform setup t a).map fun (after, new) =>
      after.updateTask t fun task => { task with frames := new ++ rest } := by
  simp only [advance, turn]
  rw [show (m.task t).frames = a :: rest from stack]

theorem refuses_unknown (stack : m.frames t = .enter key c message :: below)
    (unknown : setup.specs.find? key = none) : m.advance setup (.run t) =
      some (m.updateTask t fun _ => ⟨below, some (.refused
        (if m.isShutDown then .shutDown else .unknownServerKey key))⟩) := by
  have joins (error : RouteError) : (((m.updateTask t fun task => { task with reply := none }).answer t
      (.refused error)).updateTask t fun task => { task with frames := [] ++ below }) =
      m.updateTask t fun _ => ⟨below, some (.refused error)⟩ := by
    simp only [answer, updateTask, List.modify_modify_eq]
    rfl
  rw [advance_top stack]
  simp only [perform, enter, unknown, Option.isNone_none, if_true, refuse]
  by_cases announced : m.isShutDown
  · rw [if_pos announced, if_pos announced]
    exact congrArg some (joins .shutDown)
  · rw [if_neg announced, if_neg announced]
    exact congrArg some (joins (.unknownServerKey key))

-- Reports are truthful, and requests for a key, by a call or from a socket, leave all other keys alone.
theorem keys_apart (ran : initial.runs setup events = some m) :
    (m.mapLock = none → ∃ n found,
      m.runs setup (.call .report :: .replicate n (.run m.tasks.length)) =
        some { m with tasks := m.tasks ++ [⟨[], some (.report (.ofSessions found))⟩] } ∧
      ∀ key, found.find? key = (setup.specs.find? key).map (m.status key)) ∧
    ∀ t key c message below, m.frames t = .enter key c message :: below →
      (setup.specs.find? key = none → m.advance setup (.run t) =
        some (m.updateTask t fun _ => ⟨below, some (.refused
          (if m.isShutDown then .shutDown else .unknownServerKey key))⟩)) ∧
      ∀ later, ∀ step ∈ errand t below (m.steps setup later), step.event.task? = some t →
        Apart step.before step.after key := by
  refine ⟨runs_report, fun t key c message below stack => ⟨refuses_unknown stack, fun later => ?_⟩⟩
  have about : ∀ f ∈ [Activity.enter key c message], About m key f := by
    intro f member
    rw [List.mem_singleton.1 member]
    exact rfl
  exact apart_of_request about stack (sound_initial.runs ran) (.runs ran)

-- Two keys. The server of one is running when a request for the other and one for neither come in.
def twoKeys : Setup :=
  ⟨[("j", ⟨"j", "json-server", [], ["json"], 3, none, [], []⟩), ("k", default)], .standard, []⟩

def twoRequests : List Event :=
  ([.connect 8, .call (.subscribe "j" 0)] : List Event) ++ (.replicate 11 (.run 0) : List Event) ++
    ([.launch 0 none] : List Event) ++ (.replicate 5 (.run 0) : List Event) ++
    ([.call (.route "k" 0 ⟨"{}"⟩), .call (.route "i" 0 ⟨"{}"⟩)] : List Event)

theorem keys_apart_of_two_requests : ∃ m n found, initial.runs twoKeys twoRequests = some m ∧
    m.runs twoKeys (.call .report :: .replicate n (.run m.tasks.length)) =
      some { m with tasks := m.tasks ++ [⟨[], some (.report (.ofSessions found))⟩] } ∧
    found.find? "j" = some ⟨.running, ["json"], 1, 3, none, []⟩ ∧
    found.find? "k" = some (.idle default) ∧ found.find? "i" = none ∧
    m.advance twoKeys (.run 4) =
      some (m.updateTask 4 fun _ => ⟨[], some (.refused (.unknownServerKey "i"))⟩) ∧
    ∀ later, ∀ step ∈ errand 3 [] (m.steps twoKeys later), step.event.task? = some 3 →
      Apart step.before step.after "k" := by
  obtain ⟨m, ran, facts⟩ := Option.map_eq_some_iff.1 (show (initial.runs twoKeys twoRequests).map
    (fun m => (m.map.find? "j", m.map.find? "k", (m.session 0).state, (m.session 0).subscribers,
      m.isShutDown, m.mapLock, m.frames 3, m.frames 4)) =
      some (some 0, none, .running, [0], false, none, [.enter "k" 0 (some ⟨"{}"⟩)],
        [.enter "i" 0 (some ⟨"{}"⟩)]) by rfl)
  simp only [Prod.mk.injEq] at facts
  obtain ⟨used, unused, state, subscribers, running, free, other, neither⟩ := facts
  obtain ⟨report, requests⟩ := keys_apart ran
  obtain ⟨n, found, reported, truthful⟩ := report free
  refine ⟨m, n, found, ran, reported, ?_, ?_, ?_, ?_, (requests 3 _ _ _ _ other).2⟩
  · refine (truthful "j").trans (congrArg some (?_ : m.status "j" _ = _))
    simp only [status, used, state, subscribers]
    rfl
  · refine (truthful "k").trans (congrArg some (?_ : m.status "k" _ = _))
    simp only [status, unused]
  · exact truthful "i"
  · have refused := (requests 4 _ _ _ _ neither).1 rfl
    simp only [running] at refused
    exact refused

end Machine
end LanguageRelay
