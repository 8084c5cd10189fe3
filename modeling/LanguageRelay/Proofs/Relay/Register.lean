import LanguageRelay.Proofs.Relay.Changes
namespace LanguageRelay

structure Register where
  isShutDown : Bool
  map : Keyed SessionId
  sessions : Nat
  tasks : Nat

def Activity.registers : Activity → Bool
  | .planTeardown _ | .checkUsed _ | .findSession _ _ _ | .shutDown | .drain => true
  | _ => false

namespace Machine
variable {m next after : Machine} {setup : Setup} {event : Event} {t u : TaskId} {s : SessionId}
  {a f : Activity} {new : List Activity}

def register (m : Machine) : Register := ⟨m.isShutDown, m.map, m.sessions.length, m.tasks.length⟩

def reply (m : Machine) (u : TaskId) : Option Reply := (m.task u).reply

structure Discreet (m : Machine) (t : TaskId) (next : Machine) : Prop where
  register : next.register = m.register
  reply : ∀ u, u ≠ t → next.reply u = m.reply u

theorem Discreet.refl : Discreet m t m := ⟨rfl, fun _ _ => rfl⟩

theorem Discreet.congr (discreet : Discreet m t next) (isShutDown : after.isShutDown = next.isShutDown)
    (map : after.map = next.map) (sessions : after.sessions.length = next.sessions.length)
    (tasks : after.tasks = next.tasks) : Discreet m t after := by
  refine ⟨?_, fun u other => ?_⟩
  · rw [← discreet.register]
    simp only [Machine.register, isShutDown, map, sessions, tasks]
  · rw [← discreet.reply u other]
    simp only [Machine.reply, task, tasks]

theorem Discreet.updateSession (discreet : Discreet m t next) (s : SessionId)
    (f : Session → Session) : Discreet m t (next.updateSession s f) :=
  discreet.congr rfl rfl (List.length_modify ..) rfl

theorem reply_updateTask_self (there : t < m.tasks.length) (f : Task → Task) :
    (m.updateTask t f).reply t = (f (m.task t)).reply := by
  simp [reply, task, updateTask, List.getD_eq_getElem?_getD, there]

theorem reply_updateTask (t : TaskId) (f : Task → Task) (u : TaskId) :
    (m.updateTask t f).reply u = m.reply u ∨
      u = t ∧ (m.updateTask t f).reply u = (f (m.task t)).reply := by
  by_cases here : u = t
  · subst u
    by_cases there : t < m.tasks.length
    · exact .inr ⟨rfl, reply_updateTask_self there f⟩
    · left; simp [reply, task, updateTask, List.modify_eq_self (Nat.le_of_not_lt there)]
  · left; simp [reply, task, updateTask, List.getD_eq_getElem?_getD, Ne.symm here]

theorem Discreet.updateTask (discreet : Discreet m t next) (v : TaskId) {f : Task → Task}
    (same : v = t ∨ ∀ task, (f task).reply = task.reply) : Discreet m t (next.updateTask v f) := by
  refine ⟨?_, fun u other => ?_⟩
  · rw [← discreet.register]
    simp only [Machine.register, Machine.updateTask, List.length_modify]
  · rw [← discreet.reply u other]
    rcases reply_updateTask (m := next) v f u with kept | ⟨rfl, changed⟩
    · exact kept
    · rw [changed]
      exact (same.resolve_left other) _

theorem Discreet.answer (discreet : Discreet m t next) (reply : Reply) :
    Discreet m t (next.answer t reply) := discreet.updateTask t (.inl rfl)

theorem Discreet.askListeners {result : Option Message} {direction : Direction} {message : Message}
    (asked : m.askListeners setup direction s message = (result, next)) : Discreet m t next := by
  cases asked; exact Discreet.refl.congr rfl rfl rfl rfl

theorem Discreet.undelivered {sender : Sender} (told : m.undelivered t sender = (next, new)) :
    Discreet m t next := by
  cases sender with
  | client s c => cases told; exact .refl
  | outside => cases told; exact Discreet.refl.answer _

theorem Discreet.attend {k : SocketId} {attention : Attention}
    (attended : m.attend k attention = some (next, new)) : Discreet m t next := by
  unfold Machine.attend at attended
  dsimp only at attended
  split at attended
  · cases attended
  · split at attended <;> cases attended <;> exact Discreet.refl.congr rfl rfl rfl rfl
  all_goals
    split at attended <;> cases attended
    exact .refl

theorem Takes.discreet (taken : Takes setup m t a next new) (other : a.registers = false) :
    Discreet m t next := by
  have still : Discreet m t m := .refl
  cases taken with
  | fails failed => cases failed; exact still
  | breaks _ broke => cases broke; exact (still.updateSession _ _).congr rfl rfl rfl rfl
  | attends attended => exact .attend attended
  | performs performed =>
    cases a with
    | planTeardown | checkUsed | findSession | shutDown | drain => cases other
    -- Delivering events.
    | broadcast s event | tellState s c | notify s c text => cases performed; exact still
    | deliver s pending gone event =>
      simp only [perform, Machine.deliver] at performed
      split at performed
      · cases performed; exact still
      · split at performed <;> cases performed
        · exact still.congr rfl rfl rfl rfl
        · exact still
        · exact still
    | evict c => cases performed; exact still.congr rfl rfl rfl rfl
    | remove s gone | setState s state | unlock s | clear s | newEpoch s c | close s =>
      cases performed; exact still.updateSession _ _
    -- Starting a server.
    | look s after =>
      simp only [perform, Machine.look] at performed
      split at performed
      · cases performed
      · split at performed
        · cases performed; exact still.updateSession _ _
        · split at performed <;> cases performed
          · exact still.answer _
          · exact (still.updateSession _ _).updateSession _ _
    | begin s after =>
      simp only [perform, Machine.begin] at performed
      split at performed <;> cases performed
      · exact still
      · exact still.updateSession _ _
    | spawn | breakdown => cases performed
    | started s after p | refused s after error =>
      cases performed; exact (still.updateSession _ _).answer _
    -- The end of a server.
    | awaitExit s generation p | awaitKilled p =>
      simp only [perform, Machine.awaitExit, Machine.awaitKilled, Option.map_eq_some_iff,
        Prod.mk.injEq] at performed
      obtain ⟨exit, _, rfl, rfl⟩ := performed
      exact still
    | vacate s generation exit =>
      simp only [perform, Machine.vacate] at performed
      split at performed
      · cases performed
      · split at performed <;> cases performed
        · exact still.updateSession _ _
        · exact still
    | stop p grace => cases performed; exact still.congr rfl rfl rfl rfl
    | askToFinish p grace deadline =>
      simp only [perform, Machine.askToFinish] at performed
      split at performed
      · cases performed; exact still.congr rfl rfl rfl rfl
      · split at performed <;> cases performed
        exact still
    | awaitEnd p deadline =>
      simp only [perform, Machine.awaitEnd] at performed
      split at performed
      · cases performed; exact still
      · split at performed <;> cases performed
        exact still.congr rfl rfl rfl rfl
    | abandon p exit =>
      cases performed
      have stopped : Discreet m t (m.setServer p (m.server p).stopWriter) := still.congr rfl rfl rfl rfl
      exact stopped.answer _
    -- Subscribers.
    | subscribe s c | startTimer s epoch => cases performed; exact still
    | attach s c =>
      simp only [perform, Machine.attach] at performed
      split at performed <;> cases performed
      · exact still
      · exact still.updateSession _ _
    | detach s c =>
      simp only [perform, Machine.detach] at performed
      split at performed <;> cases performed
      · exact (still.updateSession _ _).answer _
      · exact still.answer _
    -- Idle sessions.
    | awaitTimer s epoch deadline =>
      simp only [perform, Machine.awaitTimer] at performed
      split at performed <;> cases performed
      exact still
    | teardown s epoch =>
      simp only [perform, Machine.teardown] at performed
      split at performed
      · cases performed
      · split at performed <;> cases performed
        · exact still.updateSession _ _
        · exact still
    | teardownUnlessUsed s =>
      simp only [perform, Machine.teardownUnlessUsed] at performed
      split at performed <;> cases performed <;> exact still.updateSession _ _
    -- Messages.
    | route s c message | fanOut s message =>
      simp only [perform, Machine.route, Machine.fanOut] at performed
      split at performed <;> rename_i asked <;> cases performed <;> exact .askListeners asked
    | offer sender p message =>
      simp only [perform, Machine.offer] at performed
      split at performed
      · cases performed; exact still
      · exact .undelivered (Option.some.inj performed)
    | enqueue sender p message =>
      simp only [perform, Machine.enqueue] at performed
      split at performed
      · cases performed
      · rename_i server put
        cases performed
        have taken : Discreet m t (m.setServer p server) := still.congr rfl rfl rfl rfl
        exact taken.answer _
      · exact .undelivered (Option.some.inj performed)
    | pump s p =>
      simp only [perform, Machine.pump] at performed
      split at performed <;> cases performed <;> exact still.congr rfl rfl rfl rfl
    | next p =>
      simp only [perform, Machine.next] at performed
      split at performed <;> rename_i server read <;> cases performed
      · have taken : Discreet m t (m.setServer p server) := still.congr rfl rfl rfl rfl
        exact taken.answer _
      · have taken : Discreet m t (m.setServer p server) := still.congr rfl rfl rfl rfl
        exact taken.answer _
    -- Closing a session.
    | takeSlot s =>
      simp only [perform, Machine.takeSlot] at performed
      split at performed <;> cases performed
      exact still.updateSession _ _
    -- The relay as a whole.
    | enter key c message =>
      have asked := still.updateTask t (f := fun task => { task with reply := none }) (.inl rfl)
      simp only [perform, Machine.enter, Machine.refuse] at performed
      split at performed
      · cases performed; exact asked.answer _
      · split at performed <;> cases performed
        · exact asked.answer _
        · exact asked
    | leaveAll c | report =>
      simp only [perform, Machine.leaveAll, Machine.report] at performed
      split at performed <;> cases performed
      exact still.congr rfl rfl rfl rfl
    | reportState keys found =>
      simp only [perform, Machine.reportState] at performed
      split at performed
      · cases performed
        have unlocked : Discreet m t { m with mapLock := none } := still.congr rfl rfl rfl rfl
        exact unlocked.answer _
      · split at performed <;> cases performed <;> exact still
    | reportCount key state s keys found => cases performed; exact still
    | join tasks =>
      simp only [perform, Machine.join] at performed
      split at performed <;> cases performed
      exact still
    -- Sockets.
    | reportRefusal k =>
      simp only [perform, Machine.reportRefusal] at performed
      split at performed <;> cases performed
      · refine Discreet.updateTask ?_ t (.inl rfl)
        exact still.congr rfl rfl rfl rfl
      · exact still
    | listen k => cases performed
    | leave k => cases performed; exact still.congr rfl rfl rfl rfl
    | awaitFlush k deadline =>
      simp only [perform, Machine.awaitFlush] at performed
      split at performed
      · cases performed; exact still
      · split at performed <;> cases performed
        have closed : Discreet m t ((m.setConnection (m.socket k).connection
            (m.connection (m.socket k).connection).hangUp).updateSocket k
              fun socket => { socket with closed := true }) := still.congr rfl rfl rfl rfl
        exact closed.updateTask _ (.inr fun _ => rfl)
    | forward k =>
      simp only [perform, Machine.forward] at performed
      split at performed
      · split at performed <;> cases performed <;> exact still.congr rfl rfl rfl rfl
      · split at performed <;> cases performed
        exact still.congr rfl rfl rfl rfl

-- The frames that a task may begin with while another one takes a step that starts no server.
def Begins (m : Machine) : Activity → Activity → Prop
  | .planTeardown s, f => f = .startTimer s (m.custody s).epoch
  | .checkUsed s, f => f = .planTeardown s
  | .drain, f => ∃ e ∈ m.map, f = .close e.2
  | _, _ => False

theorem begins_cases (begins : Begins m a f) :
    (∃ s, a = .planTeardown s ∧ f = .startTimer s (m.custody s).epoch) ∨
    (∃ s, a = .checkUsed s ∧ f = .planTeardown s) ∨ ∃ e ∈ m.map, a = .drain ∧ f = .close e.2 := by
  cases a with
  | planTeardown s => exact .inl ⟨s, rfl, begins⟩
  | checkUsed s => exact .inr (.inl ⟨s, rfl, begins⟩)
  | drain =>
    obtain ⟨e, member, same⟩ := begins
    exact .inr (.inr ⟨e, member, rfl, same⟩)
  | _ => exact begins.elim

theorem frames_drain (entries : Keyed SessionId) (u : TaskId) :
    (entries.foldl (fun machine e => machine.addTask [.close e.2]) m).frames u =
      if u < m.tasks.length then m.frames u
      else (entries[u - m.tasks.length]?.map fun e => [Activity.close e.2]).getD [] := by
  induction entries generalizing m with
  | nil =>
    by_cases old : u < m.tasks.length
    · simp [old]
    · simp [old, frames_of_length_le (Nat.le_of_not_lt old)]
  | cons e rest ih =>
    rw [List.foldl_cons, ih, length_addTask, frames_addTask]
    rcases Nat.lt_trichotomy u m.tasks.length with old | first | later
    · simp [old, Nat.lt_succ_of_lt old, Nat.ne_of_lt old]
    · simp [first]
    · obtain ⟨k, rfl⟩ := Nat.exists_eq_add_of_lt later
      have both : m.tasks.length + k + 1 - m.tasks.length = k + 1 ∧
          m.tasks.length + k + 1 - (m.tasks.length + 1) = k := by omega
      have none : ¬ m.tasks.length + k + 1 < m.tasks.length + 1 ∧
          ¬ m.tasks.length + k + 1 < m.tasks.length := by omega
      rw [if_neg none.1, if_neg none.2, both.1, both.2, List.getElem?_cons_succ]

theorem kept_drain (entries : Keyed SessionId) :
    let closing := entries.foldl (fun machine e => machine.addTask [.close e.2]) m
    closing.isShutDown = m.isShutDown ∧ closing.map = m.map ∧ closing.sessions = m.sessions := by
  induction entries generalizing m with
  | nil => exact ⟨rfl, rfl, rfl⟩
  | cons e rest ih => exact ih (m := m.addTask [.close e.2])

theorem Takes.begins (taken : Takes setup m t a next new) (beyond : m.tasks.length ≤ u)
    (member : f ∈ next.frames u) : Begins m a f := by
  have nothing : m.frames u = [] := frames_of_length_le beyond
  by_cases registers : a.registers
  · cases taken with
    | fails | breaks | attends => cases registers
    | performs performed =>
      cases a with
      | planTeardown s =>
        simp only [perform, Machine.planTeardown] at performed
        split at performed <;> cases performed
        · rw [nothing] at member; cases member
        · rw [frames_addTask] at member
          split at member
          · exact List.mem_singleton.1 member
          · rw [nothing] at member; cases member
      | checkUsed s =>
        cases performed
        split at member
        · rw [frames_addTask] at member
          split at member
          · exact List.mem_singleton.1 member
          · rw [nothing] at member; cases member
        · rw [nothing] at member; cases member
      | findSession key c message =>
        have same : next.tasks.length = m.tasks.length := by
          simp only [perform, Machine.findSession, Machine.refuse] at performed
          split at performed
          · cases performed
          · split at performed
            · cases performed
              simp [Machine.answer, Machine.updateTask]
            · split at performed <;> cases performed <;> rfl
        rw [frames_of_length_le (same ▸ beyond)] at member
        cases member
      | shutDown =>
        cases performed
        have same : ({ m with isShutDown := true } : Machine).frames = m.frames := frames_eq rfl
        rw [same, nothing] at member
        cases member
      | drain =>
        simp only [perform, Machine.drain] at performed
        split at performed <;> cases performed
        rw [frames_drain, if_neg (Nat.not_lt_of_le beyond)] at member
        dsimp only at member
        cases entry : m.map[u - m.tasks.length]? with
        | none => rw [entry] at member; cases member
        | some e =>
          rw [entry] at member
          exact ⟨e, List.mem_of_getElem? entry, List.mem_singleton.1 member⟩
      | _ => cases registers
  · have same := congrArg Register.tasks (taken.discreet (Bool.not_eq_true _ ▸ registers)).register
    have same : next.tasks.length = m.tasks.length := same
    rw [frames_of_length_le (same ▸ beyond)] at member
    cases member

-- What an event does to the register.
inductive Enters (m : Machine) (event : Event) (next : Machine) : Prop where
  | kept : next.isShutDown = m.isShutDown → next.map = m.map →
      next.sessions.length = m.sessions.length → Enters m event next
  | made {t key c message rest} : event.task? = some t →
      m.frames t = .findSession key c message :: rest → m.isShutDown = false →
      next.isShutDown = false → m.map.find? key = none →
      next.map = m.map.insert key m.sessions.length →
      next.sessions.length = m.sessions.length + 1 → Enters m event next
  | announced {t rest} : event.task? = some t → m.frames t = .shutDown :: rest →
      next.isShutDown = true → next.map = m.map → next.sessions.length = m.sessions.length →
      Enters m event next
  | drained {t rest} : event.task? = some t → m.frames t = .drain :: rest →
      next.isShutDown = m.isShutDown → next.map = [] →
      next.sessions.length = m.sessions.length → Enters m event next

theorem Enters.of_takes {made : Machine} {rest : List Activity} (taken : Takes setup m t a made new)
    (step : event.task? = some t) (stack : m.frames t = a :: rest)
    (isShutDown : next.isShutDown = made.isShutDown) (map : next.map = made.map)
    (sessions : next.sessions.length = made.sessions.length) : Enters m event next := by
  by_cases registers : a.registers
  · cases taken with
    | fails | breaks | attends => cases registers
    | performs performed =>
      cases a with
      | planTeardown s =>
        simp only [perform, Machine.planTeardown] at performed
        split at performed <;> cases performed <;> exact .kept isShutDown map sessions
      | checkUsed s =>
        cases performed
        split at isShutDown <;> split at map <;> split at sessions <;>
          exact .kept isShutDown map sessions
      | findSession key c message =>
        simp only [perform, Machine.findSession, Machine.refuse] at performed
        split at performed
        · cases performed
        · split at performed
          · cases performed; exact .kept isShutDown map sessions
          · rename_i running
            have running : m.isShutDown = false := Bool.eq_false_iff.2 running
            split at performed <;> rename_i found <;> cases performed
            · exact .kept isShutDown map sessions
            · exact .made step stack running (isShutDown.trans running) found map
                (sessions.trans (List.length_append ..))
      | shutDown => cases performed; exact .announced step stack isShutDown map sessions
      | drain =>
        simp only [perform, Machine.drain] at performed
        split at performed <;> cases performed
        obtain ⟨same, empty, still⟩ := kept_drain (m := { m with map := [] }) m.map
        exact .drained step stack (isShutDown.trans same) (map.trans empty) (by rw [sessions, still])
      | _ => cases registers
  · have same := (taken.discreet (Bool.not_eq_true _ ▸ registers)).register
    simp only [register, Register.mk.injEq] at same
    exact .kept (isShutDown.trans same.1) (map.trans same.2.1) (sessions.trans same.2.2.1)

theorem reply_addTask (frames : List Activity) (there : u < m.tasks.length) :
    (m.addTask frames).reply u = m.reply u := by
  simp [reply, task, addTask, List.getElem?_append, there]

theorem reply_drain (entries : Keyed SessionId) (there : u < m.tasks.length) :
    (entries.foldl (fun machine e => machine.addTask [.close e.2]) m).reply u = m.reply u := by
  induction entries generalizing m with
  | nil => rfl
  | cons e rest ih =>
    have still : u < (m.addTask [.close e.2]).tasks.length := by
      rw [length_addTask]; exact Nat.lt_succ_of_lt there
    exact (ih still).trans (reply_addTask _ there)

-- The frames that the tasks of a new socket begin with.
def socketFrames (m : Machine) (key : String) : List Activity :=
  [.enter key m.connections.length none, .reportRefusal m.sockets.length, .listen m.sockets.length,
    .forward m.sockets.length]

-- The world around the relay makes connections, sockets and tasks, but no sessions and no answers.
structure World (m : Machine) (event : Event) (next : Machine) : Prop where
  isShutDown : next.isShutDown = m.isShutDown
  map : next.map = m.map
  sessions : next.sessions = m.sessions
  connections : m.connections.length ≤ next.connections.length
  reply : ∀ u < m.tasks.length, next.reply u = m.reply u
  begins : ∀ u, m.tasks.length ≤ u → ∀ f ∈ next.frames u,
    (∃ operation, event = .call operation ∧ u = m.tasks.length ∧ f ∈ operation.frames) ∨
    ∃ key, event = .openSocket key ∧ f ∈ m.socketFrames key

theorem World.of_same (tasks : next.tasks = m.tasks) (isShutDown : next.isShutDown = m.isShutDown)
    (map : next.map = m.map) (sessions : next.sessions = m.sessions)
    (connections : m.connections.length ≤ next.connections.length) : World m event next := by
  refine ⟨isShutDown, map, sessions, connections, fun u _ => ?_, fun u beyond f member => ?_⟩
  · simp only [Machine.reply, task, tasks]
  · rw [frames_eq tasks, frames_of_length_le beyond] at member; cases member

theorem World.openSocket (key : String) (connection : Connection) :
    World m (.openSocket key) (m.openSocket key connection) := by
  refine ⟨rfl, rfl, rfl, ?_, fun u there => ?_, fun u beyond f member => .inr ⟨key, rfl, ?_⟩⟩
  · show m.connections.length ≤ (m.connections ++ [_]).length
    rw [List.length_append]; exact Nat.le_add_right ..
  · rw [Machine.openSocket, reply_addTask _ (by rw [length_addTask]; exact Nat.lt_succ_of_lt there)]
    exact reply_addTask (m := { m with connections := _, sockets := _ }) _ there
  · rw [Machine.openSocket, frames_addTask, frames_addTask] at member
    split at member
    · rw [List.mem_singleton.1 member]; simp [socketFrames]
    · split at member
      · simp only [List.mem_cons, List.not_mem_nil, or_false] at member
        rcases member with rfl | rfl | rfl <;> simp [socketFrames]
      · have nothing : f ∉ m.frames u := by rw [frames_of_length_le beyond]; simp
        exact absurd member nothing

theorem World.of_advance (outside : event.task? = none) (moved : m.advance setup event = some next) :
    World m event next := by
  cases event with
  | run | launch | attend => cases outside
  | call operation =>
    simp only [advance] at moved
    split at moved <;> cases moved
    refine ⟨rfl, rfl, rfl, Nat.le_refl _, fun u there => reply_addTask _ there,
      fun u beyond f member => .inl ⟨operation, rfl, ?_⟩⟩
    rw [frames_addTask] at member
    split at member
    · exact ⟨‹_›, member⟩
    · rw [frames_of_length_le beyond] at member; cases member
  | openSocket key => obtain rfl := openSocket_eq moved; exact .openSocket key _
  | connect capacity =>
    obtain rfl := connect_eq moved
    exact .of_same rfl rfl rfl rfl (by rw [List.length_append]; exact Nat.le_add_right ..)
  | hangUp =>
    cases moved
    exact .of_same rfl rfl rfl rfl (Nat.le_of_eq (List.length_set ..).symm)
  | receive c =>
    obtain ⟨r, _, rfl⟩ := Option.map_eq_some_iff.1 moved
    exact .of_same rfl rfl rfl rfl (Nat.le_of_eq (List.length_set ..).symm)
  | tick => cases moved; exact .of_same rfl rfl rfl rfl (Nat.le_refl _)
  | incoming | collect | startAlone | strayEnds =>
    simp only [advance] at moved
    split at moved <;> cases moved <;> exact .of_same rfl rfl rfl rfl (Nat.le_refl _)
  | release | write | watch | childReads | childWrites | inputCloses | outputCloses | childEnds =>
    simp only [advance, changeServer] at moved
    split at moved
    · obtain ⟨server, _, rfl⟩ := Option.map_eq_some_iff.1 moved
      exact .of_same rfl rfl rfl rfl (Nat.le_refl _)
    · cases moved

theorem enters (moved : m.advance setup event = some next) : Enters m event next := by
  rcases advance_cases moved with ⟨t, a, rest, made, new, step, stack, taken, rfl⟩ |
    ⟨t, s, after, rest, made, new, _, _, _, launched, rfl⟩ | outside
  · exact .of_takes taken step stack rfl rfl rfl
  · cases launched
    exact .kept rfl rfl (List.length_modify ..)
  · have world := World.of_advance outside moved
    exact .kept world.isShutDown world.map (congrArg List.length world.sessions)

theorem Takes.reply (taken : Takes setup m t a next new) (other : u ≠ t) (there : u < m.tasks.length) :
    next.reply u = m.reply u := by
  by_cases registers : a.registers
  · cases taken with
    | fails | breaks | attends => cases registers
    | performs performed =>
      cases a with
      | planTeardown s =>
        simp only [perform, Machine.planTeardown] at performed
        split at performed <;> cases performed
        · rfl
        · exact reply_addTask _ there
      | checkUsed s =>
        cases performed
        split
        · exact reply_addTask _ there
        · rfl
      | findSession key c message =>
        simp only [perform, Machine.findSession, Machine.refuse] at performed
        split at performed
        · cases performed
        · split at performed
          · cases performed
            exact (Discreet.refl.answer _).reply u other
          · split at performed <;> cases performed <;> rfl
      | shutDown => cases performed; rfl
      | drain =>
        simp only [perform, Machine.drain] at performed
        split at performed <;> cases performed
        exact reply_drain (m := { m with map := [] }) _ there
      | _ => cases registers
  · exact (taken.discreet (Bool.not_eq_true _ ▸ registers)).reply u other

end Machine
end LanguageRelay
