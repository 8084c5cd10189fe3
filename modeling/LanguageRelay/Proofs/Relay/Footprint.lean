import LanguageRelay.Proofs.Relay.Moves
namespace LanguageRelay

namespace Activity

def isEntry : Activity → Bool
  | .stop _ _ | .subscribe _ _ | .detach _ _ | .look _ .ensured | .planTeardown _ | .startTimer _ _
  | .route _ _ _ | .offer .outside _ _ | .next _ | .close _ | .enter _ _ _ | .leaveAll _ | .report
  | .shutDown | .reportRefusal _ | .listen _ | .forward _ => true
  | _ => false

def Announces (s : SessionId) : Activity → Prop
  | .look r _ | .begin r _ | .spawn r _ | .vacate r _ _ | .teardownUnlessUsed r | .takeSlot r => r = s
  | _ => False

end Activity

theorem Connection.queue_receive? {connection after : Connection} {event : ClientEvent}
    (received : connection.receive? = some (event, after)) :
    connection.queue = event :: after.queue := by
  unfold receive? at received
  split at received
  · cases received
  · rename_i queue
    cases received
    exact queue

theorem Connection.evicted_receive? {connection after : Connection} {event : ClientEvent}
    (received : connection.receive? = some (event, after)) :
    after.evicted = connection.evicted := by
  unfold receive? at received
  split at received <;> cases received
  rfl

namespace Machine

inductive Handles (m : Machine) : Activity → ServerId → Server → Prop where
  | stop {p grace} : Handles m (.stop p grace) p { m.server p with stopRequested := true }
  | finish {p grace deadline taken server} : (m.server p).enqueue? .finish = some (taken, server) →
      Handles m (.askToFinish p grace deadline) p server
  | kill {p deadline} : Handles m (.awaitEnd p deadline) p { m.server p with killRequested := true }
  | abandon {p exit} : Handles m (.abandon p exit) p (m.server p).stopWriter
  | enqueue {sender p message server} :
      (m.server p).enqueue? (.message sender message) = some (true, server) →
      Handles m (.enqueue sender p message) p server
  | pump {s p message server} : (m.server p).nextOutput = (.message message, server) →
      Handles m (.pump s p) p server
  | pumpEnd {s p server} : (m.server p).nextOutput = (.ended, server) →
      Handles m (.pump s p) p { server with output := { server.output with reading := false } }
  | next {p output server} : (m.server p).nextOutput = (output, server) → Handles m (.next p) p server

inductive Reaches (m : Machine) : Activity → ConnectionId → Connection → Prop where
  | queued {s c rest gone event connection} : (m.connection c).deliver event = (.queued, connection) →
      Reaches m (.deliver s (c :: rest) gone event) c connection
  | evicted {c} : Reaches m (.evict c) c (m.connection c).evict
  | refused {k key code text} : Reaches m (.reportRefusal k) (m.socket k).connection
      ((m.connection (m.socket k).connection).deliver (.error key code text)).2
  | drained {a c connection} : connection.queue <:+ (m.connection c).queue →
      connection.evicted = (m.connection c).evicted → Reaches m a c connection

structure Footprint (m : Machine) (a : Activity) (next : Machine) : Prop where
  key : ∀ s < m.sessions.length, (next.session s).key = (m.session s).key
  state : ∀ s, (next.session s).state = (m.session s).state ∨ a = .setState s (next.session s).state
  servers : next.servers = m.servers ∨
    ∃ p server, Handles m a p server ∧ next.servers = m.servers.set p server
  connections : next.connections = m.connections ∨
    ∃ c connection, Reaches m a c connection ∧ next.connections = m.connections.set c connection
  begun : ∀ u, m.tasks.length ≤ u → ∀ f ∈ next.frames u, f.isEntry

-- Which frame a new one stems from.
@[grind =]
def Stems (m : Machine) (a : Activity) : Activity → Prop
  | .pump s p => a = .pump s p
  | .fanOut s _ => ∃ p, a = .pump s p
  | .broadcast s (.message _) => ∃ original, a = .fanOut s original
  | .broadcast s (.status event) => a.Announces s ∧ event.key = (m.session s).key
  | .deliver s _ _ (.message message) => a = .broadcast s (.message message) ∨
      ∃ pending gone, a = .deliver s pending gone (.message message)
  | .deliver s _ _ event => a = .broadcast s event ∨ (∃ c, a = .tellState s c) ∨
      (∃ c text, a = .notify s c text) ∨ ∃ pending gone, a = .deliver s pending gone event
  | .evict c => ∃ s pending gone event, a = .deliver s (c :: pending) gone event
  | .tellState s c => a = .look s (.subscribed c)
  | .attach s c => a = .subscribe s c
  | .newEpoch s c => a = .attach s c
  | .look s (.subscribed c) => a = .newEpoch s c
  | .look s (.routing c _) => ∃ original, a = .route s c original
  | .begin s after => a = .look s after
  | .spawn s after => a = .begin s after
  | .started _ _ _ => False
  | .breakdown => ∃ s after, a = .spawn s after
  | .offer (.client s c) p message =>
      (∃ slot, (m.custody s).slot = some slot ∧ slot.server = p ∧ a = .look s (.routing c message)) ∨
        a = .started s (.routing c message) p
  | .offer .outside _ _ => False
  | .enqueue sender p message => a = .offer sender p message
  | .setState s _ => a.Announces s
  | .awaitTimer s epoch _ => a = .startTimer s epoch
  | .teardown s epoch => a = .planTeardown s ∨ ∃ deadline, a = .awaitTimer s epoch deadline
  | .teardownUnlessUsed s => ∃ epoch, a = .teardown s epoch
  | .takeSlot s => a = .close s
  | .clear s => a = .takeSlot s
  | .drain => a = .shutDown
  | .join _ => a = .drain
  | .checkUsed s => ∃ message, a = .fanOut s message
  | .planTeardown s => ∃ c, a = .detach s c
  | .startTimer _ _ | .close _ | .shutDown => False
  | _ => True

structure Leaves (m : Machine) (a : Activity) (next : Machine) (new : List Activity) : Prop where
  foot : Footprint m a next
  stems : ∀ f ∈ new, Stems m a f

variable {m next : Machine} {setup : Setup} {t u : TaskId} {s r : SessionId} {a : Activity}
  {new : List Activity}

theorem session_updateSession_proj {α : Type} {f : Session → Session} (g : Session → α)
    (same : ∀ session, g (f session) = g session) (r : SessionId) :
    g ((m.updateSession s f).session r) = g (m.session r) := by
  by_cases here : r = s
  · subst r
    by_cases there : s < m.sessions.length
    · rw [session_updateSession there, same]
    · simp only [session, updateSession, List.modify_eq_self (Nat.le_of_not_lt there)]
  · rw [session_updateSession_of_ne here]

theorem Footprint.still : Footprint m a m := by
  refine ⟨fun _ _ => rfl, fun _ => .inl rfl, .inl rfl, .inl rfl, fun u beyond f member => ?_⟩
  rw [frames_of_length_le beyond] at member
  cases member

theorem Footprint.congr {after : Machine} (foot : Footprint m a next)
    (sessions : after.sessions = next.sessions) (servers : after.servers = next.servers)
    (connections : after.connections = next.connections) (tasks : after.tasks = next.tasks) :
    Footprint m a after := by
  obtain ⟨_, _, _, _, _, _, _, _⟩ := after
  cases sessions; cases servers; cases connections; cases tasks
  exact ⟨foot.key, foot.state, foot.servers, foot.connections, foot.begun⟩

theorem Footprint.updateSession (foot : Footprint m a next) (s : SessionId) {f : Session → Session}
    (key : ∀ session, (f session).key = session.key)
    (state : ∀ session, (f session).state = session.state) :
    Footprint m a (next.updateSession s f) := by
  refine ⟨fun r there => ?_, fun r => ?_, foot.servers, foot.connections, foot.begun⟩
  · rw [session_updateSession_proj Session.key key]
    exact foot.key r there
  · rw [session_updateSession_proj Session.state state]
    exact foot.state r

theorem Footprint.setServer {p : ServerId} {server : Server} (foot : Footprint m a next)
    (same : next.servers = m.servers) (handles : Handles m a p server) :
    Footprint m a (next.setServer p server) := by
  refine ⟨foot.key, foot.state, .inr ⟨p, server, handles, ?_⟩, foot.connections, foot.begun⟩
  rw [Machine.setServer, same]

theorem Footprint.setConnection {c : ConnectionId} {connection : Connection}
    (foot : Footprint m a next) (same : next.connections = m.connections)
    (reaches : Reaches m a c connection) : Footprint m a (next.setConnection c connection) := by
  refine ⟨foot.key, foot.state, foot.servers, .inr ⟨c, connection, reaches, ?_⟩, foot.begun⟩
  rw [Machine.setConnection, same]

theorem Footprint.updateTask (foot : Footprint m a next) (u : TaskId) {f : Task → Task}
    (same : ∀ task, (f task).frames = task.frames ∨ (f task).frames = []) :
    Footprint m a (next.updateTask u f) := by
  refine ⟨foot.key, foot.state, foot.servers, foot.connections, fun v beyond g member => ?_⟩
  rw [frames_updateTask] at member
  split at member
  · rename_i here
    rcases same (next.task u) with kept | none
    · rw [kept] at member
      exact foot.begun v beyond g (here.1 ▸ member)
    · rw [none] at member; cases member
  · exact foot.begun v beyond g member

theorem Footprint.answer (foot : Footprint m a next) (u : TaskId) (reply : Reply) :
    Footprint m a (next.answer u reply) := foot.updateTask u fun _ => .inl rfl

theorem Footprint.addTask {f : Activity} (foot : Footprint m a next) (entry : f.isEntry) :
    Footprint m a (next.addTask [f]) := by
  refine ⟨foot.key, foot.state, foot.servers, foot.connections, fun u beyond g member => ?_⟩
  rw [frames_addTask] at member
  split at member
  · rw [List.mem_singleton.1 member]; exact entry
  · exact foot.begun u beyond g member

theorem Footprint.drain (entries : Keyed SessionId) (foot : Footprint m a next) :
    Footprint m a (entries.foldl (fun machine e => machine.addTask [.close e.2]) next) := by
  induction entries generalizing next with
  | nil => exact foot
  | cons e rest ih => exact ih (foot.addTask rfl)

theorem Footprint.newSession {key : String} {map : Keyed SessionId} :
    Footprint m a { m with sessions := m.sessions ++ [.new key], map := map } := by
  have still : Footprint m a m := .still
  refine ⟨fun r there => ?_, fun r => .inl ?_, .inl rfl, .inl rfl, still.begun⟩
  · simp [session, List.getElem?_append, there]
  · simp only [session, List.getD_eq_getElem?_getD, List.getElem?_append]
    by_cases old : r < m.sessions.length
    · simp [old]
    · cases beyond : ([Session.new key] : List Session)[r - m.sessions.length]? with
      | none => simp [old]
      | some session =>
        have first : session = .new key := List.mem_singleton.1 (List.mem_of_getElem? beyond)
        simp [old, first]; rfl

theorem Footprint.askListeners {result : Option Message} {direction : Direction} {message : Message}
    (foot : Footprint m a m) (asked : m.askListeners setup direction s message = (result, next)) :
    Footprint m a next := by
  cases asked; exact foot.congr rfl rfl rfl rfl

theorem Footprint.setState {state : SessionState} :
    Footprint m (.setState s state) (m.updateSession s fun session => { session with state }) := by
  have still : Footprint m (.setState s state) m := .still
  refine ⟨fun r there => ?_, fun r => ?_, .inl rfl, .inl rfl, still.begun⟩
  · rw [session_updateSession_proj (f := fun session => { session with state }) Session.key fun _ => rfl]
  · by_cases here : r = s
    · subst r
      by_cases there : s < m.sessions.length
      · right; rw [session_updateSession there]
      · left; simp only [session, Machine.updateSession, List.modify_eq_self (Nat.le_of_not_lt there)]
    · left; rw [session_updateSession_of_ne here]

theorem Footprint.closeSocket {k : SocketId} {connection : Connection}
    (mark : connection.evicted = (m.connection (m.socket k).connection).evicted) :
    Footprint m a ((m.setConnection (m.socket k).connection connection).closeSocket k) := by
  have still : Footprint m a m := .still
  let taken := m.setConnection (m.socket k).connection connection
  refine ⟨still.key, still.state, .inl rfl, .inr ⟨(m.socket k).connection,
    (taken.connection (m.socket k).connection).hangUp, .drained ?_ ?_, ?_⟩, still.begun⟩
  · exact List.nil_suffix
  · show (taken.connection (m.socket k).connection).evicted = _
    by_cases there : (m.socket k).connection < m.connections.length
    · simpa [taken, Machine.connection, Machine.setConnection, there] using mark
    · simp [taken, Machine.connection, Machine.setConnection,
        List.set_eq_of_length_le (Nat.le_of_not_lt there)]
  · exact List.set_set ..

theorem Leaves.forwards {k : SocketId} (performed : m.forward k = some (next, new)) :
    Leaves m (.forward k) next new := by
  simp only [Machine.forward] at performed
  split at performed
  · rename_i event connection received
    have suffix : connection.queue <:+ (m.connection (m.socket k).connection).queue := by
      rw [Connection.queue_receive? received]; exact List.suffix_cons ..
    have mark := Connection.evicted_receive? received
    split at performed
    · cases performed
      exact ⟨.closeSocket mark, by simp⟩
    · cases performed
      have taken : Footprint m (.forward k) (m.setConnection (m.socket k).connection connection) :=
        Footprint.still.setConnection rfl (.drained suffix mark)
      exact ⟨taken.congr rfl rfl rfl rfl, by simp [Stems]⟩
  · split at performed
    · cases performed
    · cases performed
      have hung : Footprint m (.forward k) (m.setConnection (m.socket k).connection
          (m.connection (m.socket k).connection).hangUp) :=
        Footprint.still.setConnection rfl (.drained List.nil_suffix rfl)
      exact ⟨hung.congr rfl rfl rfl rfl, by simp⟩

theorem Leaves.awaitFlush {k : SocketId} {deadline : Nat}
    (performed : m.awaitFlush k deadline = some (next, new)) :
    Leaves m (.awaitFlush k deadline) next new := by
  simp only [Machine.awaitFlush] at performed
  split at performed
  · cases performed
    exact ⟨.still, by simp⟩
  · split at performed
    · cases performed
      have hung : Footprint m (.awaitFlush k deadline) (m.setConnection (m.socket k).connection
          (m.connection (m.socket k).connection).hangUp) :=
        Footprint.still.setConnection rfl (.drained List.nil_suffix rfl)
      have closed : Footprint m (.awaitFlush k deadline) ((m.setConnection
          (m.socket k).connection (m.connection (m.socket k).connection).hangUp).updateSocket k
          fun socket => { socket with closed := true }) := hung.congr rfl rfl rfl rfl
      exact ⟨closed.updateTask _ fun _ => .inr rfl, by simp⟩
    · cases performed

theorem Leaves.attend {k : SocketId} {attention : Attention}
    (attended : m.attend k attention = some (next, new)) :
    Leaves m (.listen k) next new := by
  have still : Footprint m (.listen k) m := .still
  have leaves : ∀ f ∈ m.leaving k, Stems m (.listen k) f := by simp [leaving, Stems]
  unfold Machine.attend at attended
  dsimp only at attended
  split at attended
  · cases attended
  · split at attended
    · cases attended; exact ⟨still.congr rfl rfl rfl rfl, by simp [Stems]⟩
    · cases attended; exact ⟨still.congr rfl rfl rfl rfl, by simp [Stems]⟩
    · cases attended; exact ⟨still.congr rfl rfl rfl rfl, leaves⟩
  all_goals
    split at attended
    · cases attended; exact ⟨still, leaves⟩
    · cases attended

theorem Leaves.deliver {pending gone : List ConnectionId} {event : ClientEvent}
    (performed : m.deliver s pending gone event = some (next, new)) :
    Leaves m (.deliver s pending gone event) next new := by
  simp only [Machine.deliver] at performed
  split at performed
  · cases performed
    refine ⟨.still, ?_⟩
    split <;> simp [Stems]
  · split at performed
    · rename_i put
      cases performed
      refine ⟨Footprint.still.setConnection rfl (.queued put), ?_⟩
      cases event <;> simp [Stems]
    · cases performed
      refine ⟨.still, ?_⟩
      cases event <;> simp [Stems]
    · cases performed
      refine ⟨.still, ?_⟩
      cases event <;> simp [Stems]

theorem Leaves.look {after : AfterStart} (performed : m.look t s after = some (next, new)) :
    Leaves m (.look s after) next new := by
  have still : Footprint m (.look s after) m := .still
  have locked := still.updateSession s (f := fun session => { session with lock := some t })
    (fun _ => rfl) fun _ => rfl
  simp only [Machine.look] at performed
  split at performed
  · cases performed
  · split at performed
    · cases performed
      exact ⟨locked, by simp [Stems]⟩
    · rename_i slot occupied
      split at performed
      · cases performed
        refine ⟨still.answer t _, ?_⟩
        cases after with
        | subscribed c => simp [AfterStart.whenRunning, Stems]
        | ensured => simp [AfterStart.whenRunning]
        | routing c message =>
          simp only [AfterStart.whenRunning, List.mem_singleton, forall_eq]
          exact .inl ⟨slot, occupied, rfl, rfl⟩
      · cases performed
        refine ⟨locked.updateSession s (fun _ => rfl) fun _ => rfl, ?_⟩
        simp [publish, Stems, Activity.Announces]

theorem Leaves.begin {after : AfterStart} (performed : m.begin s after = some (next, new)) :
    Leaves m (.begin s after) next new := by
  have still : Footprint m (.begin s after) m := .still
  simp only [Machine.begin] at performed
  split at performed
  · cases performed
    exact ⟨still, by simp [Stems]⟩
  · cases performed
    refine ⟨still.updateSession s (fun _ => rfl) fun _ => rfl, ?_⟩
    simp [stateEvent, StatusEvent.plain, Stems, Activity.Announces]

theorem Leaves.vacate {generation : Nat} {exit : ServerExit}
    (performed : m.vacate t s generation exit = some (next, new)) :
    Leaves m (.vacate s generation exit) next new := by
  have still : Footprint m (.vacate s generation exit) m := .still
  simp only [Machine.vacate] at performed
  split at performed
  · cases performed
  · split at performed
    · cases performed
      refine ⟨still.updateSession s (fun _ => rfl) fun _ => rfl, ?_⟩
      simp [publish, Stems, Activity.Announces]
    · cases performed
      exact ⟨still, by simp⟩

theorem Leaves.askToFinish {p : ServerId} {grace deadline : Nat}
    (performed : m.askToFinish p grace deadline = some (next, new)) :
    Leaves m (.askToFinish p grace deadline) next new := by
  simp only [Machine.askToFinish] at performed
  split at performed
  · rename_i put
    cases performed
    exact ⟨Footprint.still.setServer rfl (.finish put), by simp [Stems]⟩
  · split at performed
    · cases performed
      exact ⟨.still, by simp [Stems]⟩
    · cases performed

theorem Leaves.awaitEnd {p : ServerId} {deadline : Nat}
    (performed : m.awaitEnd p deadline = some (next, new)) :
    Leaves m (.awaitEnd p deadline) next new := by
  simp only [Machine.awaitEnd] at performed
  split at performed
  · cases performed
    exact ⟨.still, by simp [Stems]⟩
  · split at performed
    · cases performed
      exact ⟨Footprint.still.setServer rfl .kill, by simp [Stems]⟩
    · cases performed

theorem Leaves.attach {c : ConnectionId} (performed : m.attach s c = some (next, new)) :
    Leaves m (.attach s c) next new := by
  have still : Footprint m (.attach s c) m := .still
  simp only [Machine.attach] at performed
  split at performed
  · cases performed
    exact ⟨still, by simp⟩
  · cases performed
    exact ⟨still.updateSession s (fun _ => rfl) fun _ => rfl, by simp [Stems]⟩

theorem Leaves.detach {c : ConnectionId} (performed : m.detach t s c = some (next, new)) :
    Leaves m (.detach s c) next new := by
  have still : Footprint m (.detach s c) m := .still
  simp only [Machine.detach] at performed
  split at performed
  · cases performed
    have left := still.updateSession s (f := fun session => { session with
      subscribers := (m.session s).subscribers.filter (· != c) }) (fun _ => rfl) fun _ => rfl
    refine ⟨left.answer t _, ?_⟩
    split <;> simp [Stems]
  · cases performed
    exact ⟨still.answer t _, by simp⟩

theorem Leaves.planTeardown (performed : m.planTeardown setup s = some (next, new)) :
    Leaves m (.planTeardown s) next new := by
  simp only [Machine.planTeardown] at performed
  split at performed
  · cases performed
    exact ⟨.still, by simp [Stems]⟩
  · cases performed
    exact ⟨Footprint.still.addTask rfl, by simp⟩

theorem Leaves.teardown {epoch : Nat} (performed : m.teardown t s epoch = some (next, new)) :
    Leaves m (.teardown s epoch) next new := by
  have still : Footprint m (.teardown s epoch) m := .still
  simp only [Machine.teardown] at performed
  split at performed
  · cases performed
  · split at performed
    · cases performed
      exact ⟨still.updateSession s (fun _ => rfl) fun _ => rfl, by simp [Stems]⟩
    · cases performed
      exact ⟨still, by simp⟩

theorem Leaves.teardownUnlessUsed
    (performed : m.teardownUnlessUsed setup s = some (next, new)) :
    Leaves m (.teardownUnlessUsed s) next new := by
  have still : Footprint m (.teardownUnlessUsed s) m := .still
  simp only [Machine.teardownUnlessUsed] at performed
  split at performed
  · cases performed
    refine ⟨still.updateSession s (fun _ => rfl) fun _ => rfl, ?_⟩
    simp [Stems, Activity.Announces]
  · cases performed
    exact ⟨still.updateSession s (fun _ => rfl) fun _ => rfl, by simp⟩

theorem Leaves.takeSlot (performed : m.takeSlot setup s = some (next, new)) :
    Leaves m (.takeSlot s) next new := by
  have still : Footprint m (.takeSlot s) m := .still
  simp only [Machine.takeSlot] at performed
  split at performed
  · cases performed
  · cases performed
    refine ⟨still.updateSession s (fun _ => rfl) fun _ => rfl, ?_⟩
    cases (m.session s).slot <;>
      simp [stateEvent, StatusEvent.plain, Stems, Activity.Announces]

theorem Leaves.undelivered {sender : Sender} (told : m.undelivered t sender = (next, new)) :
    Leaves m a next new := by
  have still : Footprint m a m := .still
  cases sender with
  | client s c => cases told; exact ⟨still, by simp [Stems]⟩
  | outside => cases told; exact ⟨still.answer t _, by simp⟩

theorem Leaves.offer {sender : Sender} {p : ServerId} {message : Message}
    (performed : m.offer t sender p message = some (next, new)) :
    Leaves m (.offer sender p message) next new := by
  simp only [Machine.offer] at performed
  split at performed
  · cases performed
    exact ⟨.still, by simp [Stems]⟩
  · exact .undelivered (Option.some.inj performed)

theorem Leaves.enqueue {sender : Sender} {p : ServerId} {message : Message}
    (performed : m.enqueue t sender p message = some (next, new)) :
    Leaves m (.enqueue sender p message) next new := by
  simp only [Machine.enqueue] at performed
  split at performed
  · cases performed
  · rename_i put
    cases performed
    have taken : Footprint m (.enqueue sender p message) (m.setServer p _) :=
      Footprint.still.setServer rfl (.enqueue put)
    exact ⟨taken.answer t _, by simp⟩
  · exact .undelivered (Option.some.inj performed)

theorem Leaves.pump {p : ServerId} (performed : m.pump s p = some (next, new)) :
    Leaves m (.pump s p) next new := by
  simp only [Machine.pump] at performed
  split at performed
  · cases performed
  · rename_i read
    cases performed
    exact ⟨Footprint.still.setServer rfl (.pump read), by simp [Stems]⟩
  · rename_i read
    cases performed
    exact ⟨Footprint.still.setServer rfl (.pumpEnd read), by simp⟩

theorem Leaves.nextOutput {p : ServerId} (performed : m.next t p = some (next, new)) :
    Leaves m (.next p) next new := by
  simp only [Machine.next] at performed
  split at performed
  · cases performed
  · rename_i read
    cases performed
    have taken : Footprint m (.next p) (m.setServer p _) := Footprint.still.setServer rfl (.next read)
    exact ⟨taken.answer t _, by simp⟩
  · rename_i read
    cases performed
    have taken : Footprint m (.next p) (m.setServer p _) := Footprint.still.setServer rfl (.next read)
    exact ⟨taken.answer t _, by simp⟩

theorem Leaves.enter {key : String} {c : ConnectionId} {message : Option Message}
    (performed : m.enter setup t key c message = some (next, new)) :
    Leaves m (.enter key c message) next new := by
  have still : Footprint m (.enter key c message) m := .still
  have asked := still.updateTask t (f := fun task => { task with reply := none }) fun _ => .inl rfl
  simp only [Machine.enter, Machine.refuse] at performed
  split at performed
  · cases performed; exact ⟨asked.answer t _, by simp⟩
  · split at performed
    · cases performed; exact ⟨asked.answer t _, by simp⟩
    · cases performed; exact ⟨asked, by simp [Stems]⟩

theorem Leaves.findSession {key : String} {c : ConnectionId} {message : Option Message}
    (performed : m.findSession t key c message = some (next, new)) :
    Leaves m (.findSession key c message) next new := by
  have still : Footprint m (.findSession key c message) m := .still
  simp only [Machine.findSession, Machine.refuse] at performed
  split at performed
  · cases performed
  · split at performed
    · cases performed; exact ⟨still.answer t _, by simp⟩
    · split at performed
      · cases performed
        refine ⟨still, ?_⟩
        cases message <;> simp [visit, Stems]
      · cases performed
        refine ⟨.newSession, ?_⟩
        cases message <;> simp [visit, Stems]

theorem Leaves.reportState {keys : List String} {found : Keyed ServerStatus}
    (performed : m.reportState setup t keys found = some (next, new)) :
    Leaves m (.reportState keys found) next new := by
  have still : Footprint m (.reportState keys found) m := .still
  simp only [Machine.reportState] at performed
  split at performed
  · cases performed
    have unlocked : Footprint m (.reportState [] found) { m with mapLock := none } :=
      still.congr rfl rfl rfl rfl
    exact ⟨unlocked.answer t _, by simp⟩
  · split at performed
    · cases performed; exact ⟨still, by simp [Stems]⟩
    · cases performed; exact ⟨still, by simp [Stems]⟩

theorem stems_whenRunning {after : AfterStart} {p : ServerId} :
    ∀ f ∈ after.whenRunning s p true, Stems m (.started s after p) f := by
  cases after <;> simp [AfterStart.whenRunning, Stems]

theorem Takes.leaves (taken : Takes setup m t a next new) :
    Leaves m a next new := by
  have still : Footprint m a m := .still
  cases taken with
  | fails failed => cases failed; exact ⟨still, by simp [Stems, Activity.Announces]⟩
  | @breaks s _ _ _ _ broke =>
    cases broke
    have freed := still.updateSession s (f := fun session => { session with lock := none }) (fun _ => rfl)
      fun _ => rfl
    exact ⟨freed.congr rfl rfl rfl rfl, by simp [Stems]⟩
  | attends attended => exact .attend attended
  | performs performed =>
    cases a with
    -- Delivering events.
    | broadcast s event =>
      cases performed
      refine ⟨still, ?_⟩
      cases event <;> simp [Stems]
    | deliver s pending gone event => exact .deliver performed
    | evict c => cases performed; exact ⟨still.setConnection rfl .evicted, by simp⟩
    | remove s gone | unlock s | clear s =>
      cases performed
      exact ⟨still.updateSession s (fun _ => rfl) fun _ => rfl, by simp⟩
    | setState s state => cases performed; exact ⟨.setState, by simp⟩
    | tellState s c => cases performed; exact ⟨still, by simp [stateEvent, Stems]⟩
    | notify s c text =>
      cases performed
      refine ⟨still, ?_⟩
      split <;> simp [Stems]
    -- Starting a server.
    | look s after => exact .look performed
    | begin s after => exact .begin performed
    | spawn | breakdown => cases performed
    | started s after p =>
      cases performed
      have freed := still.updateSession s (f := fun session => { session with lock := none })
        (fun _ => rfl) fun _ => rfl
      exact ⟨freed.answer t _, stems_whenRunning⟩
    | refused s after error =>
      cases performed
      have freed := still.updateSession s (f := fun session => { session with lock := none })
        (fun _ => rfl) fun _ => rfl
      refine ⟨freed.answer t _, ?_⟩
      cases after <;> simp [AfterStart.whenRefused, Stems]
    -- The end of a server.
    | awaitExit s generation p =>
      simp only [perform, Machine.awaitExit, Option.map_eq_some_iff, Prod.mk.injEq] at performed
      obtain ⟨exit, _, rfl, rfl⟩ := performed
      exact ⟨still, by simp [Stems]⟩
    | vacate s generation exit => exact .vacate performed
    | stop p grace => cases performed; exact ⟨still.setServer rfl .stop, by simp [Stems]⟩
    | askToFinish p grace deadline => exact .askToFinish performed
    | awaitEnd p deadline => exact .awaitEnd performed
    | awaitKilled p =>
      simp only [perform, Machine.awaitKilled, Option.map_eq_some_iff, Prod.mk.injEq] at performed
      obtain ⟨exit, _, rfl, rfl⟩ := performed
      exact ⟨still, by simp [Stems]⟩
    | abandon p exit =>
      cases performed
      have abandon : Handles m (.abandon p exit) p (m.server p).stopWriter := .abandon
      have stopped := still.setServer rfl abandon
      exact ⟨stopped.answer t _, by simp⟩
    -- Subscribers.
    | subscribe s c =>
      cases performed
      refine ⟨still, ?_⟩
      split <;> simp [Stems]
    | attach s c => exact .attach performed
    | newEpoch s c =>
      cases performed
      exact ⟨still.updateSession s (fun _ => rfl) fun _ => rfl, by simp [Stems]⟩
    | detach s c => exact .detach performed
    -- Idle sessions.
    | planTeardown s => exact .planTeardown performed
    | startTimer s epoch => cases performed; exact ⟨still, by simp [Stems]⟩
    | awaitTimer s epoch deadline =>
      simp only [perform, Machine.awaitTimer] at performed
      split at performed
      · cases performed; exact ⟨still, by simp [Stems]⟩
      · cases performed
    | teardown s epoch => exact .teardown performed
    | teardownUnlessUsed s => exact .teardownUnlessUsed performed
    -- Messages.
    | route s c message | fanOut s message =>
      simp only [perform, Machine.route, Machine.fanOut] at performed
      split at performed
      · rename_i asked; cases performed; exact ⟨still.askListeners asked, by simp⟩
      · rename_i asked; cases performed; exact ⟨still.askListeners asked, by simp [Stems]⟩
    | offer sender p message => exact .offer performed
    | enqueue sender p message => exact .enqueue performed
    | pump s p => exact .pump performed
    | checkUsed s =>
      cases performed
      refine ⟨?_, by simp⟩
      split
      · exact still.addTask rfl
      · exact still
    | next p => exact .nextOutput performed
    -- Closing a session.
    | close s =>
      cases performed
      exact ⟨still.updateSession s (fun _ => rfl) fun _ => rfl, by simp [Stems]⟩
    | takeSlot s => exact .takeSlot performed
    -- The relay as a whole.
    | enter key c message => exact .enter performed
    | findSession key c message => exact .findSession performed
    | leaveAll c =>
      simp only [perform, Machine.leaveAll] at performed
      split at performed
      · cases performed
      · cases performed
        refine ⟨still, fun f member => ?_⟩
        obtain ⟨e, _, rfl⟩ := List.mem_map.1 member
        trivial
    | report =>
      simp only [perform, Machine.report] at performed
      split at performed
      · cases performed
      · cases performed; exact ⟨still.congr rfl rfl rfl rfl, by simp [Stems]⟩
    | reportState keys found => exact .reportState performed
    | reportCount key state s keys found => cases performed; exact ⟨still, by simp [Stems]⟩
    | shutDown =>
      cases performed
      refine ⟨still.congr rfl rfl rfl rfl, ?_⟩
      split <;> simp [Stems]
    | drain =>
      simp only [perform, Machine.drain] at performed
      split at performed
      · cases performed
      · cases performed
        have emptied : Footprint m .drain { m with map := [] } := still.congr rfl rfl rfl rfl
        exact ⟨emptied.drain _, by simp [Stems]⟩
    | join tasks =>
      simp only [perform, Machine.join] at performed
      split at performed
      · cases performed; exact ⟨still, by simp⟩
      · cases performed
    -- Sockets.
    | reportRefusal k =>
      simp only [perform, Machine.reportRefusal] at performed
      split at performed
      · cases performed
        refine ⟨(Footprint.setConnection still rfl ?_).updateTask t fun _ => .inl rfl, by simp⟩
        exact .refused
      · cases performed; exact ⟨still, by simp⟩
    | listen k => cases performed
    | leave k => cases performed; exact ⟨still.congr rfl rfl rfl rfl, by simp [Stems]⟩
    | awaitFlush k deadline => exact .awaitFlush performed
    | forward k => exact .forwards performed

end Machine
end LanguageRelay
