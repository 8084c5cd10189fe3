import LanguageRelay.Proofs.Relay.Passages
namespace LanguageRelay

-- What a socket is to its reader.
structure Inlet where
  key : String
  connection : ConnectionId
  reader : TaskId
  incoming : List SocketFrame

def Socket.inlet (socket : Socket) : Inlet :=
  ⟨socket.key, socket.connection, socket.reader, socket.incoming⟩

namespace Activity

-- The frames of a request up to the subscription, and the one that waits for the next request.
def isRequest : Activity → Bool
  | .enter _ _ _ | .findSession _ _ _ | .subscribe _ _ | .attach _ _ | .listen _ => true
  | _ => false

def requests : Activity → Bool
  | .enter _ _ _ | .findSession _ _ _ | .subscribe _ _ | .listen _ => true
  | _ => false

end Activity

namespace Machine

def inlet (m : Machine) (k : SocketId) : Inlet := (m.socket k).inlet

inductive Attends (m : Machine) (k : SocketId) : Attention → Machine → List Activity → Prop where
  | text {body rest} : (m.socket k).incoming = .text body :: rest → Attends m k .frame
      (m.updateSocket k fun socket => { socket with incoming := rest })
      [.enter (m.socket k).key (m.socket k).connection (some ⟨body⟩), .reportRefusal k, .listen k]
  | other {rest} : (m.socket k).incoming = .other :: rest → Attends m k .frame
      (m.updateSocket k fun socket => { socket with incoming := rest }) [.listen k]
  | close {rest} : (m.socket k).incoming = .close :: rest → Attends m k .frame
      (m.updateSocket k fun socket => { socket with incoming := rest }) (m.leaving k)
  | leaves {attention} : attention ≠ .frame → Attends m k attention m (m.leaving k)

inductive Follows (m : Machine) : Activity → Activity → Prop where
  | finds {key c message} : Follows m (.enter key c message) (.findSession key c message)
  | subscribes {key c message s} : Follows m (.findSession key c message) (.subscribe s c)
  | attaches {s c} : Follows m (.subscribe s c) (.attach s c)
  | listens {k} : Follows m (.listen k) (.listen k)
  | asks {k body} : Follows m (.listen k)
      (.enter (m.socket k).key (m.socket k).connection (some ⟨body⟩))

def Step.arrived (k : SocketId) (step : Step) : Option SocketFrame :=
  match step.event with
  | .incoming j frame => if j = k ∧ k < step.before.sockets.length then some frame else none
  | _ => none

def Step.received (k : SocketId) (step : Step) : Option SocketFrame :=
  match step.event with
  | .attend t .frame =>
    match step.before.frames t with
    | .listen j :: _ => if j = k then (step.before.socket k).incoming.head? else none
    | _ => none
  | _ => none

variable {m made next : Machine} {setup : Setup} {event : Event} {events : List Event} {t u : TaskId}
  {s : SessionId} {c : ConnectionId} {j k : SocketId} {a f : Activity} {rest new : List Activity}

theorem socket_updateSocket (there : k < m.sockets.length) (f : Socket → Socket) :
    (m.updateSocket k f).socket k = f (m.socket k) := by
  simp [socket, updateSocket, List.getD_eq_getElem?_getD, there]

theorem socket_updateSocket_of_ne (other : j ≠ k) (f : Socket → Socket) :
    (m.updateSocket k f).socket j = m.socket j := by
  simp [socket, updateSocket, List.getD_eq_getElem?_getD, other.symm]

theorem socket_updateSocket_of_length_le (beyond : m.sockets.length ≤ k) (f : Socket → Socket) :
    (m.updateSocket k f).socket k = m.socket k := by
  simp only [socket, updateSocket, List.modify_eq_self beyond]

theorem socket_of_length_le (beyond : m.sockets.length ≤ k) : m.socket k = default := by
  simp [socket, List.getD_eq_getElem?_getD, beyond]

theorem socket_updateSocket_proj {α : Type} {f : Socket → Socket} (g : Socket → α)
    (same : ∀ socket, g (f socket) = g socket) (j : SocketId) :
    g ((m.updateSocket k f).socket j) = g (m.socket j) := by
  by_cases here : j = k
  · subst j
    by_cases there : k < m.sockets.length
    · rw [socket_updateSocket there, same]
    · rw [socket_updateSocket_of_length_le (Nat.le_of_not_lt there)]
  · rw [socket_updateSocket_of_ne here]

theorem inlet_updateSocket {f : Socket → Socket} (same : ∀ socket, (f socket).inlet = socket.inlet) :
    (m.updateSocket k f).inlet = m.inlet := by
  funext j
  exact socket_updateSocket_proj Socket.inlet same j

theorem inlet_drain (entries : Keyed SessionId) :
    (entries.foldl (fun machine e => machine.addTask [.close e.2]) m).inlet = m.inlet := by
  induction entries generalizing m with
  | nil => rfl
  | cons e rest ih => exact ih (m := m.addTask [.close e.2])

theorem inlet_askListeners {result : Option Message} {direction : Direction} {message : Message}
    (asked : m.askListeners setup direction s message = (result, next)) : next.inlet = m.inlet := by
  cases asked
  rfl

theorem isRequest_whenRunning {after : AfterStart} {p : ServerId} {isNew : Bool} :
    ∀ f ∈ after.whenRunning s p isNew, f.isRequest = false := by
  intro f member
  cases after with
  | subscribed c =>
    cases isNew with
    | false => rw [List.mem_singleton.1 member]; rfl
    | true => cases member
  | ensured => cases member
  | routing c message => rw [List.mem_singleton.1 member]; rfl

theorem Takes.unasked (taken : Takes setup m t a made new) (other : a.requests = false) :
    made.inlet = m.inlet ∧ ∀ f ∈ new, f.isRequest = false := by
  cases taken with
  | fails failed => cases failed; exact ⟨rfl, by simp [Activity.isRequest]⟩
  | breaks _ broke => cases broke; exact ⟨rfl, by simp [Activity.isRequest]⟩
  | attends => cases other
  | performs performed =>
    cases a with
    | enter | findSession | subscribe | listen => cases other
    -- Delivering events.
    | broadcast | evict | remove | tellState => cases performed; exact ⟨rfl, by simp [Activity.isRequest]⟩
    | notify s c text =>
      cases performed
      refine ⟨rfl, fun f member => ?_⟩
      split at member
      · rw [List.mem_singleton.1 member]; rfl
      · cases member
    | deliver s pending gone event =>
      simp only [perform, Machine.deliver] at performed
      split at performed
      · cases performed
        refine ⟨rfl, fun f member => ?_⟩
        split at member
        · cases member
        · rw [List.mem_singleton.1 member]; rfl
      · split at performed <;> cases performed <;> exact ⟨rfl, by simp [Activity.isRequest]⟩
    -- Starting a server.
    | look s after =>
      simp only [perform, Machine.look] at performed
      split at performed
      · cases performed
      · split at performed
        · cases performed; exact ⟨rfl, by simp [Activity.isRequest]⟩
        · split at performed <;> cases performed
          · exact ⟨rfl, isRequest_whenRunning⟩
          · exact ⟨rfl, by simp [publish, Activity.isRequest]⟩
    | begin s after =>
      simp only [perform, Machine.begin] at performed
      split at performed <;> cases performed <;> exact ⟨rfl, by simp [Activity.isRequest]⟩
    | spawn | breakdown => cases performed
    | started s after p => cases performed; exact ⟨rfl, isRequest_whenRunning⟩
    | refused s after error =>
      cases performed
      refine ⟨rfl, fun f member => ?_⟩
      cases after with
      | routing c message => rw [List.mem_singleton.1 member]; rfl
      | _ => cases member
    | setState | unlock | reportCount => cases performed; exact ⟨rfl, by simp [Activity.isRequest]⟩
    -- The end of a server.
    | awaitExit s generation p | awaitKilled p =>
      simp only [perform, Machine.awaitExit, Machine.awaitKilled, Option.map_eq_some_iff,
        Prod.mk.injEq] at performed
      obtain ⟨exit, _, rfl, rfl⟩ := performed
      exact ⟨rfl, by simp [Activity.isRequest]⟩
    | vacate s generation exit =>
      simp only [perform, Machine.vacate] at performed
      split at performed
      · cases performed
      · split at performed <;> cases performed <;>
          exact ⟨rfl, by simp [publish, Activity.isRequest]⟩
    | stop | abandon => cases performed; exact ⟨rfl, by simp [Activity.isRequest]⟩
    | askToFinish p grace deadline =>
      simp only [perform, Machine.askToFinish] at performed
      split at performed
      · cases performed; exact ⟨rfl, by simp [Activity.isRequest]⟩
      · split at performed <;> cases performed
        exact ⟨rfl, by simp [Activity.isRequest]⟩
    | awaitEnd p deadline =>
      simp only [perform, Machine.awaitEnd] at performed
      split at performed
      · cases performed; exact ⟨rfl, by simp [Activity.isRequest]⟩
      · split at performed <;> cases performed
        exact ⟨rfl, by simp [Activity.isRequest]⟩
    -- Subscribers.
    | attach s c =>
      simp only [perform, Machine.attach] at performed
      split at performed <;> cases performed <;> exact ⟨rfl, by simp [Activity.isRequest]⟩
    | newEpoch s c => cases performed; exact ⟨rfl, by simp [Activity.isRequest]⟩
    | detach s c =>
      simp only [perform, Machine.detach] at performed
      split at performed <;> cases performed
      · refine ⟨rfl, fun f member => ?_⟩
        split at member
        · rw [List.mem_singleton.1 member]; rfl
        · cases member
      · exact ⟨rfl, by simp⟩
    -- Idle sessions.
    | planTeardown s =>
      simp only [perform, Machine.planTeardown] at performed
      split at performed <;> cases performed <;> exact ⟨rfl, by simp [Activity.isRequest]⟩
    | startTimer s epoch => cases performed; exact ⟨rfl, by simp [Activity.isRequest]⟩
    | awaitTimer s epoch deadline =>
      simp only [perform, Machine.awaitTimer] at performed
      split at performed <;> cases performed
      exact ⟨rfl, by simp [Activity.isRequest]⟩
    | teardown s epoch =>
      simp only [perform, Machine.teardown] at performed
      split at performed
      · cases performed
      · split at performed <;> cases performed <;> exact ⟨rfl, by simp [Activity.isRequest]⟩
    | teardownUnlessUsed s =>
      simp only [perform, Machine.teardownUnlessUsed] at performed
      split at performed <;> cases performed <;> exact ⟨rfl, by simp [Activity.isRequest]⟩
    -- Messages.
    | route s c message | fanOut s message =>
      simp only [perform, Machine.route, Machine.fanOut] at performed
      split at performed <;> rename_i asked <;> cases performed <;>
        exact ⟨inlet_askListeners asked, by simp [Activity.isRequest]⟩
    | offer sender p message =>
      simp only [perform, Machine.offer] at performed
      split at performed
      · cases performed; exact ⟨rfl, by simp [Activity.isRequest]⟩
      · cases sender <;> cases performed <;> exact ⟨rfl, by simp [Activity.isRequest]⟩
    | enqueue sender p message =>
      simp only [perform, Machine.enqueue] at performed
      split at performed
      · cases performed
      · cases performed; exact ⟨rfl, by simp⟩
      · cases sender <;> cases performed <;> exact ⟨rfl, by simp [Activity.isRequest]⟩
    | pump s p =>
      simp only [perform, Machine.pump] at performed
      split at performed <;> cases performed <;> exact ⟨rfl, by simp [Activity.isRequest]⟩
    | checkUsed s =>
      cases performed
      refine ⟨?_, by simp⟩
      split <;> rfl
    | next p =>
      simp only [perform, Machine.next] at performed
      split at performed <;> cases performed <;> exact ⟨rfl, by simp⟩
    -- Closing a session.
    | close s | clear s => cases performed; exact ⟨rfl, by simp [Activity.isRequest]⟩
    | takeSlot s =>
      simp only [perform, Machine.takeSlot] at performed
      split at performed <;> cases performed
      refine ⟨rfl, fun f member => ?_⟩
      split at member <;> simp only [List.mem_append, List.mem_cons, List.not_mem_nil, or_false,
        false_or] at member
      · rcases member with rfl | rfl | rfl | rfl <;> rfl
      · rcases member with rfl | rfl | rfl <;> rfl
    -- The relay as a whole.
    | leaveAll c =>
      simp only [perform, Machine.leaveAll] at performed
      split at performed <;> cases performed
      refine ⟨rfl, fun f member => ?_⟩
      obtain ⟨e, _, rfl⟩ := List.mem_map.1 member
      rfl
    | report =>
      simp only [perform, Machine.report] at performed
      split at performed <;> cases performed
      exact ⟨rfl, by simp [Activity.isRequest]⟩
    | reportState keys found =>
      simp only [perform, Machine.reportState] at performed
      split at performed
      · cases performed; exact ⟨rfl, by simp⟩
      · split at performed <;> cases performed <;> exact ⟨rfl, by simp [Activity.isRequest]⟩
    | shutDown =>
      cases performed
      refine ⟨rfl, fun f member => ?_⟩
      split at member
      · cases member
      · rw [List.mem_singleton.1 member]; rfl
    | drain =>
      simp only [perform, Machine.drain] at performed
      split at performed <;> cases performed
      exact ⟨inlet_drain (m := { m with map := [] }) m.map, by simp [Activity.isRequest]⟩
    | join tasks =>
      simp only [perform, Machine.join] at performed
      split at performed <;> cases performed
      exact ⟨rfl, by simp⟩
    -- Sockets.
    | reportRefusal k =>
      simp only [perform, Machine.reportRefusal] at performed
      split at performed <;> cases performed <;> exact ⟨rfl, by simp⟩
    | leave k =>
      cases performed
      exact ⟨inlet_updateSocket fun _ => rfl, by simp [Activity.isRequest]⟩
    | awaitFlush k deadline =>
      simp only [perform, Machine.awaitFlush] at performed
      split at performed
      · cases performed; exact ⟨rfl, by simp⟩
      · split at performed <;> cases performed
        exact ⟨inlet_updateSocket (m := m.setConnection _ _) fun _ => rfl, by simp⟩
    | forward k =>
      simp only [perform, Machine.forward] at performed
      split at performed
      · split at performed <;> cases performed
        · exact ⟨inlet_updateSocket (m := (m.setConnection _ _).setConnection _ _) fun _ => rfl, by simp⟩
        · exact ⟨inlet_updateSocket (m := m.setConnection _ _) fun _ => rfl,
            by simp [Activity.isRequest]⟩
      · split at performed <;> cases performed
        exact ⟨inlet_updateSocket (m := m.setConnection _ _) fun _ => rfl, by simp⟩

theorem attends {attention : Attention} (attended : m.attend k attention = some (made, new)) :
    Attends m k attention made new := by
  unfold Machine.attend at attended
  dsimp only at attended
  split at attended
  · cases attended
  · rename_i frame rest incoming
    split at attended <;> cases attended
    · exact .text incoming
    · exact .other incoming
    · exact .close incoming
  all_goals
    split at attended <;> cases attended
    exact .leaves nofun

theorem Takes.follows (taken : Takes setup m t a made new) (added : f ∈ new)
    (request : f.isRequest) : Follows m a f := by
  by_cases requests : a.requests
  · cases taken with
    | fails | breaks => cases requests
    | attends attended =>
      cases Machine.attends attended with
      | text =>
        simp only [List.mem_cons, List.not_mem_nil, or_false] at added
        rcases added with rfl | rfl | rfl
        · exact .asks
        · cases request
        · exact .listens
      | other => rw [List.mem_singleton.1 added]; exact .listens
      | close | leaves =>
        simp only [leaving, List.mem_cons, List.not_mem_nil, or_false] at added
        rcases added with rfl | rfl <;> cases request
    | performs performed =>
      cases a with
      | enter key c message =>
        simp only [perform, Machine.enter, Machine.refuse] at performed
        split at performed
        · cases performed; cases added
        · split at performed <;> cases performed
          · cases added
          · rw [List.mem_singleton.1 added]; exact .finds
      | findSession key c message =>
        have visits {s : SessionId} (visited : f ∈ visit s c message) :
            Follows m (.findSession key c message) f := by
          rcases List.mem_cons.1 visited with rfl | routed
          · exact .subscribes
          · cases message with
            | none => cases routed
            | some message => rw [List.mem_singleton.1 routed] at request; cases request
        simp only [perform, Machine.findSession, Machine.refuse] at performed
        split at performed
        · cases performed
        · split at performed
          · cases performed; cases added
          · split at performed <;> cases performed <;> exact visits added
      | subscribe s c =>
        cases performed
        split at added
        · cases added
        · rw [List.mem_singleton.1 added]; exact .attaches
      | listen => cases performed
      | _ => cases requests
  · rw [(taken.unasked (Bool.not_eq_true _ ▸ requests)).2 f added] at request
    cases request

-- A socket stays with its key, its connection and its reader.
structure Seated (m next : Machine) : Prop where
  length : next.sockets.length = m.sockets.length
  key : ∀ k, (next.socket k).key = (m.socket k).key
  connection : ∀ k, (next.socket k).connection = (m.socket k).connection
  reader : ∀ k, (next.socket k).reader = (m.socket k).reader

theorem Seated.of_inlet (length : next.sockets.length = m.sockets.length)
    (same : next.inlet = m.inlet) : Seated m next :=
  ⟨length, fun k => congrArg Inlet.key (congrFun same k),
    fun k => congrArg Inlet.connection (congrFun same k),
    fun k => congrArg Inlet.reader (congrFun same k)⟩

theorem Seated.updateSocket {f : Socket → Socket}
    (same : ∀ socket, ((f socket).key, (f socket).connection, (f socket).reader) =
      (socket.key, socket.connection, socket.reader)) : Seated m (m.updateSocket k f) := by
  have kept := socket_updateSocket_proj (m := m) (k := k) (f := f)
    (fun socket => (socket.key, socket.connection, socket.reader)) same
  simp only [Prod.mk.injEq] at kept
  exact ⟨List.length_modify .., fun j => (kept j).1, fun j => (kept j).2.1, fun j => (kept j).2.2⟩

theorem Seated.attends {attention : Attention} (attends : Attends m k attention made new) :
    Seated m made := by
  cases attends with
  | text | other | close => exact .updateSocket fun _ => rfl
  | leaves => exact ⟨rfl, fun _ => rfl, fun _ => rfl, fun _ => rfl⟩

theorem inlet_of_world (outside : event.task? = none) (moved : m.advance setup event = some next)
    (closed : ∀ key, event ≠ .openSocket key) (silent : ∀ k frame, event ≠ .incoming k frame) :
    next.inlet = m.inlet ∧ next.sockets.length = m.sockets.length := by
  cases event with
  | run | launch | attend => cases outside
  | openSocket key => exact absurd rfl (closed key)
  | incoming k frame => exact absurd rfl (silent k frame)
  | hangUp | tick => cases moved; exact ⟨rfl, rfl⟩
  | call | startAlone | strayEnds =>
    simp only [advance] at moved
    split at moved <;> cases moved <;> exact ⟨rfl, rfl⟩
  | connect | receive =>
    obtain ⟨r, _, rfl⟩ := Option.map_eq_some_iff.1 moved
    exact ⟨rfl, rfl⟩
  | collect k =>
    simp only [advance] at moved
    split at moved <;> cases moved
    exact ⟨inlet_updateSocket fun _ => rfl, List.length_modify ..⟩
  | release | write | watch | childReads | childWrites | inputCloses | outputCloses | childEnds =>
    simp only [advance, changeServer] at moved
    split at moved
    · obtain ⟨server, _, rfl⟩ := Option.map_eq_some_iff.1 moved
      exact ⟨rfl, rfl⟩
    · cases moved

theorem Takes.inlet (taken : Takes setup m t a made new) (other : ∀ k, a ≠ .listen k) :
    made.inlet = m.inlet := by
  by_cases requests : a.requests
  · cases taken with
    | fails | breaks => cases requests
    | attends => exact absurd rfl (other _)
    | performs performed =>
      cases a with
      | enter key c message =>
        simp only [perform, Machine.enter, Machine.refuse] at performed
        split at performed
        · cases performed; rfl
        · split at performed <;> cases performed <;> rfl
      | findSession key c message =>
        simp only [perform, Machine.findSession, Machine.refuse] at performed
        split at performed
        · cases performed
        · split at performed
          · cases performed; rfl
          · split at performed <;> cases performed <;> rfl
      | subscribe => cases performed; rfl
      | listen => exact absurd rfl (other _)
      | _ => cases requests
  · exact (taken.unasked (Bool.not_eq_true _ ▸ requests)).1

theorem frames_openSocket {connection : Connection} (key : String) (u : TaskId) :
    (m.openSocket key connection).frames u =
    if u = m.tasks.length + 1 then [.forward m.sockets.length]
    else if u = m.tasks.length then
      [.enter key m.connections.length none, .reportRefusal m.sockets.length, .listen m.sockets.length]
    else m.frames u := by
  rw [Machine.openSocket, frames_addTask, frames_addTask, length_addTask]
  rfl

theorem length_openSocket {connection : Connection} (key : String) :
    (m.openSocket key connection).sockets.length = m.sockets.length + 1 := List.length_append ..

theorem inlet_openSocket (m : Machine) (key : String) (connection : Connection) (k : SocketId) :
    (m.openSocket key connection).inlet k =
      if k = m.sockets.length then ⟨key, m.connections.length, m.tasks.length, []⟩ else m.inlet k := by
  simp only [inlet, socket, Machine.openSocket, addTask, List.getD_eq_getElem?_getD,
    List.getElem?_append]
  by_cases old : k < m.sockets.length
  · simp [old, Nat.ne_of_lt old]
  · by_cases last : k = m.sockets.length
    · subst k; simp [Socket.inlet]
    · have after := Nat.lt_of_le_of_ne (Nat.le_of_not_lt old) (Ne.symm last)
      simp [last, old, Nat.sub_ne_zero_of_lt after]

theorem opened (m : Machine) (key : String) (connection : Connection) :
    ((m.openSocket key connection).socket m.sockets.length).connection = m.connections.length ∧
    ((m.openSocket key connection).socket m.sockets.length).reader = m.tasks.length ∧
    (m.openSocket key connection).frames m.tasks.length =
      [.enter key m.connections.length none, .reportRefusal m.sockets.length,
        .listen m.sockets.length] := by
  have same := inlet_openSocket m key connection m.sockets.length
  rw [if_pos rfl] at same
  refine ⟨congrArg Inlet.connection same, congrArg Inlet.reader same, ?_⟩
  rw [frames_openSocket, if_neg (Nat.ne_of_lt (Nat.lt_succ_self _)), if_pos rfl]

theorem seated (sound : Sound m) (moved : m.advance setup event = some next)
    (closed : ∀ key, event ≠ .openSocket key) : Seated m next := by
  rcases advance_cases moved with ⟨t, a, rest, made, new, _, stack, taken, rfl⟩ |
    ⟨t, s, after, rest, made, new, rfl, _, _, launched, rfl⟩ | outside
  · by_cases listens : ∃ k, a = .listen k
    · obtain ⟨k, rfl⟩ := listens
      cases taken with
      | performs performed => cases performed
      | attends attended =>
        have seated := Seated.attends (attends attended)
        exact ⟨seated.length, seated.key, seated.connection, seated.reader⟩
    · have same := taken.inlet fun k here => listens ⟨k, here⟩
      have within := sound.present.frames t a (stack ▸ List.mem_cons_self)
      exact .of_inlet (taken.inert sound.present within).1.sockets same
  · cases launched
    exact ⟨rfl, fun _ => rfl, fun _ => rfl, fun _ => rfl⟩
  · by_cases incoming : ∃ k frame, event = .incoming k frame
    · obtain ⟨k, frame, rfl⟩ := incoming
      simp only [advance] at moved
      split at moved <;> cases moved
      exact .updateSocket fun _ => rfl
    · obtain ⟨same, length⟩ := inlet_of_world outside moved closed fun k frame here =>
        incoming ⟨k, frame, here⟩
      exact .of_inlet length same

theorem lt_of_incoming {frame : SocketFrame} {waiting : List SocketFrame}
    (incoming : (m.socket k).incoming = frame :: waiting) : k < m.sockets.length := by
  refine Nat.lt_of_not_le fun beyond => ?_
  rw [socket_of_length_le beyond] at incoming
  cases incoming

theorem received_of_top (stack : m.frames t = .listen j :: rest) :
    Step.received k ⟨m, .attend t .frame, next⟩ =
      if j = k then (m.socket k).incoming.head? else none := by
  simp only [Step.received, stack]

theorem incoming_step (moved : m.advance setup event = some next) (k : SocketId) :
    (m.socket k).incoming ++ (Step.arrived k ⟨m, event, next⟩).toList =
      (Step.received k ⟨m, event, next⟩).toList ++ (next.socket k).incoming := by
  have still (same : next.inlet = m.inlet) : (m.socket k).incoming ++ [] =
      [] ++ (next.socket k).incoming := by
    rw [List.append_nil]
    exact (congrArg Inlet.incoming (congrFun same k)).symm
  cases event with
  | attend t attention =>
    obtain ⟨a, rest, made, new, stack, taken, rfl⟩ := turn_cases moved
    cases a with
    | listen j =>
      have reads {frame waiting} (incoming : (m.socket j).incoming = frame :: waiting) :
          (m.socket k).incoming ++ [] = (if j = k then (m.socket k).incoming.head? else none).toList ++
            ((m.updateSocket j fun socket => { socket with incoming := waiting }).socket k).incoming := by
        by_cases here : j = k
        · subst j
          rw [socket_updateSocket (lt_of_incoming incoming), incoming]
          simp
        · rw [socket_updateSocket_of_ne (Ne.symm here)]
          simp [here]
      cases attends taken with
      | text incoming | other incoming | close incoming =>
        rw [received_of_top stack]
        exact reads incoming
      | leaves other =>
        cases attention with
        | frame => exact absurd rfl other
        | _ => exact still rfl
    | _ => cases taken
  | incoming j frame =>
    simp only [advance] at moved
    split at moved <;> cases moved
    simp only [Step.arrived, Step.received]
    by_cases here : j = k
    · subst j
      by_cases there : k < m.sockets.length
      · rw [if_pos ⟨rfl, there⟩, socket_updateSocket there]; rfl
      · have same := socket_updateSocket_of_length_le (Nat.le_of_not_lt there) fun socket =>
          { socket with incoming := socket.incoming ++ [frame], otherGone := frame == .close }
        rw [if_neg fun both => there both.2, same]
        exact List.append_nil _
    · rw [if_neg fun both => here both.1, socket_updateSocket_of_ne (Ne.symm here)]
      exact List.append_nil _
  | openSocket key =>
    obtain rfl := openSocket_eq moved
    have opened := congrArg Inlet.incoming (inlet_openSocket m key (.new setup.settings.clientQueue) k)
    refine (List.append_nil _).trans (Eq.trans ?_ opened.symm)
    split
    · rename_i last
      rw [socket_of_length_le (Nat.le_of_eq last.symm)]
      rfl
    · rfl
  | run t =>
    obtain ⟨a, rest, made, new, _, taken, rfl⟩ := turn_cases moved
    refine still ((Takes.performs taken).inlet ?_)
    rintro j rfl
    cases taken
  | launch t failure =>
    obtain ⟨a, rest, made, new, _, taken, rfl⟩ := turn_cases moved
    cases a with
    | spawn s after =>
      cases failure with
      | some error => cases taken; exact still rfl
      | none =>
        simp only [spawned] at taken
        split at taken <;> cases taken <;> exact still rfl
    | _ => cases taken
  | _ => exact still (inlet_of_world rfl moved (by simp) (by simp)).1

theorem filterMap_concat {α β : Type} (g : α → Option β) (items : List α) (last : α) :
    (items ++ [last]).filterMap g = items.filterMap g ++ (g last).toList := by
  rw [List.filterMap_append]
  cases found : g last <;> simp [found]

-- Everything that has come in has been read in this order or still waits.
theorem incoming_runs (ran : initial.runs setup events = some m) :
    (∀ k, m.sockets.length ≤ k → (initial.steps setup events).filterMap (Step.arrived k) = []) ∧
    ∀ k, (initial.steps setup events).filterMap (Step.arrived k) =
      (initial.steps setup events).filterMap (Step.received k) ++ (m.socket k).incoming := by
  refine sound_initial.induction (motive := fun taken now =>
    (∀ k, now.sockets.length ≤ k → taken.filterMap (Step.arrived k) = []) ∧
    ∀ k, taken.filterMap (Step.arrived k) = taken.filterMap (Step.received k) ++ (now.socket k).incoming)
    ran ⟨fun _ _ => rfl, fun _ => rfl⟩ ?_
  intro taken before event after sound moved ⟨unopened, read⟩
  have longer : before.sockets.length ≤ after.sockets.length := by
    by_cases opens : ∃ key, event = .openSocket key
    · obtain ⟨key, rfl⟩ := opens
      obtain rfl := openSocket_eq moved
      rw [length_openSocket]
      exact Nat.le_succ _
    · exact Nat.le_of_eq (seated sound moved fun key here => opens ⟨key, here⟩).length.symm
  refine ⟨fun k beyond => ?_, fun k => ?_⟩
  · have beyond := Nat.le_trans longer beyond
    rw [filterMap_concat, unopened k beyond]
    unfold Step.arrived
    split
    · rw [if_neg fun both => Nat.not_lt_of_le beyond both.2]; rfl
    · rfl
  · rw [filterMap_concat, filterMap_concat, read, List.append_assoc, incoming_step moved, List.append_assoc]

end Machine
end LanguageRelay
