import LanguageRelay.Proofs.Keyed
import LanguageRelay.Proofs.Relay.Turns
namespace LanguageRelay

-- An inner frame may stand above one that gives a lock back, and so may one that sees a server end. A
-- bound frame relies on what the slot of its session holds.
inductive Role where
  | inner
  | finishing (p : ServerId)
  | freeing (s : SessionId)
  | bound
  | outer
deriving DecidableEq

namespace Activity

@[grind =]
def role : Activity → Role
  | .broadcast _ _ | .deliver _ _ _ _ | .evict _ | .remove _ _ | .setState _ _ | .abandon _ _ => .inner
  | .stop p _ | .askToFinish p _ _ | .awaitEnd p _ | .awaitKilled p => .finishing p
  | .begin s _ | .spawn s _ | .started s _ _ | .refused s _ _ | .unlock s
  | .teardownUnlessUsed s => .freeing s
  | .takeSlot _ | .clear _ | .awaitExit _ _ _ | .vacate _ _ _ => .bound
  | _ => .outer

-- The frames that lead to a teardown and hold no lock.
def plans : Activity → Bool
  | .checkUsed _ | .planTeardown _ | .startTimer _ _ | .awaitTimer _ _ _ | .teardown _ _ => true
  | _ => false

-- The sessions and sockets that a frame is about are there.
@[grind =]
def Within (m : Machine) : Activity → Prop
  | .broadcast s _ | .deliver s _ _ _ | .remove s _ | .tellState s _ | .notify s _ _ | .look s _
  | .begin s _ | .spawn s _ | .started s _ _ | .refused s _ _ | .setState s _ | .unlock s
  | .awaitExit s _ _ | .vacate s _ _ | .subscribe s _ | .attach s _ | .newEpoch s _ | .detach s _
  | .planTeardown s | .startTimer s _ | .awaitTimer s _ _ | .teardown s _ | .teardownUnlessUsed s
  | .route s _ _ | .offer (.client s _) _ _ | .enqueue (.client s _) _ _ | .pump s _ | .fanOut s _
  | .checkUsed s | .close s | .takeSlot s | .clear s | .reportCount _ _ s _ _ =>
    s < m.sessions.length
  | .reportRefusal k | .listen k | .leave k | .awaitFlush k _ | .forward k => k < m.sockets.length
  | _ => True

theorem Within.mono {m next : Machine} {a : Activity} (within : a.Within m)
    (sessions : m.sessions.length ≤ next.sessions.length)
    (sockets : m.sockets.length ≤ next.sockets.length) : a.Within next := by
  unfold Within at within ⊢
  split at within
  all_goals first
    | exact Nat.lt_of_lt_of_le within sessions
    | exact Nat.lt_of_lt_of_le within sockets
    | trivial

end Activity

namespace Machine
variable {m next : Machine} {setup : Setup} {t u : TaskId} {s : SessionId} {a : Activity}
  {new : List Activity}

def IsForwarder (frames : List Activity) : Prop := ∀ f ∈ frames, ∃ k, f = .forward k

-- A task may begin with frames that hold nothing, or to stop a server. A teardown does not wait below.
def IsLoose (frames : List Activity) : Prop :=
  (∀ f ∈ frames, f.role = .outer) ∧ (∀ f ∈ frames.tail, f.plans = false) ∨
    ∃ p grace, frames = [.stop p grace]

-- Sessions and sockets are only added, and the forwarder of a socket does nothing but forward. It is
-- the one task that another breaks off.
structure Present (m : Machine) : Prop where
  frames : ∀ u, ∀ f ∈ m.frames u, f.Within m
  map : ∀ e ∈ m.map, e.2 < m.sessions.length
  forwarder : ∀ k < m.sockets.length, (m.socket k).forwarder < m.tasks.length ∧
    IsForwarder (m.frames (m.socket k).forwarder)

-- What becomes of a task while another one takes a step: nothing, or it begins, or it is broken off.
def Elsewhere (m next : Machine) (u : TaskId) : Prop :=
  next.frames u = m.frames u ∨
  (m.tasks.length ≤ u ∧ IsLoose (next.frames u) ∧ ∀ f ∈ next.frames u, f.Within next) ∨
  (IsForwarder (m.frames u) ∧ next.frames u = [])

theorem Elsewhere.mono {after : Machine} (elsewhere : Elsewhere m next u)
    (same : after.frames u = next.frames u)
    (sessions : next.sessions.length ≤ after.sessions.length)
    (sockets : next.sockets.length ≤ after.sockets.length) : Elsewhere m after u := by
  unfold Elsewhere
  rw [same]
  rcases elsewhere with kept | ⟨new, loose, within⟩ | broken
  · exact .inl kept
  · exact .inr (.inl ⟨new, loose, fun f member => (within f member).mono sessions sockets⟩)
  · exact .inr (.inr broken)

-- What every step of a task that starts no server leaves alone.
structure Inert (m next : Machine) : Prop where
  fate : next.fate = m.fate
  servers : next.servers.length = m.servers.length
  sessions : m.sessions.length ≤ next.sessions.length
  map : ∀ e ∈ next.map, e.2 < next.sessions.length
  sockets : next.sockets.length = m.sockets.length
  forwarder : ∀ k, (next.socket k).forwarder = (m.socket k).forwarder
  tasks : m.tasks.length ≤ next.tasks.length
  elsewhere : ∀ u, Elsewhere m next u

theorem Inert.refl (present : Present m) : Inert m m :=
  ⟨rfl, rfl, Nat.le_refl _, present.map, rfl, fun _ => rfl, Nat.le_refl _, fun _ => .inl rfl⟩

theorem Inert.congr {after : Machine} (inert : Inert m next)
    (sessions : after.sessions = next.sessions) (servers : after.servers = next.servers)
    (map : after.map = next.map) (sockets : after.sockets = next.sockets)
    (tasks : after.tasks = next.tasks) : Inert m after := by
  obtain ⟨_, _, _, _, _, _, _, _⟩ := after
  cases sessions; cases servers; cases map; cases sockets; cases tasks
  exact ⟨inert.fate, inert.servers, inert.sessions, inert.map, inert.sockets, inert.forwarder,
    inert.tasks, inert.elsewhere⟩

theorem Inert.updateSession (inert : Inert m next) (s : SessionId) (f : Session → Session) :
    Inert m (next.updateSession s f) := by
  have length : (next.updateSession s f).sessions.length = next.sessions.length :=
    List.length_modify ..
  refine ⟨inert.fate, inert.servers, length ▸ inert.sessions, length ▸ inert.map, inert.sockets,
    inert.forwarder, inert.tasks, fun u => ?_⟩
  exact (inert.elsewhere u).mono rfl (Nat.le_of_eq length.symm) (Nat.le_refl _)

theorem Inert.setServer (inert : Inert m next) {p : ServerId} {server : Server}
    (same : server.fate = next.fate p) : Inert m (next.setServer p server) :=
  ⟨(fate_setServer same).trans inert.fate,
    (List.length_set ..).trans inert.servers, inert.sessions, inert.map, inert.sockets,
    inert.forwarder, inert.tasks, inert.elsewhere⟩

theorem Inert.setConnection (inert : Inert m next) (c : ConnectionId) (connection : Connection) :
    Inert m (next.setConnection c connection) := inert.congr rfl rfl rfl rfl rfl

theorem forwarder_updateSocket {k : SocketId} {f : Socket → Socket}
    (same : ∀ socket, (f socket).forwarder = socket.forwarder) (j : SocketId) :
    ((m.updateSocket k f).socket j).forwarder = (m.socket j).forwarder := by
  simp only [socket, Machine.updateSocket, List.getD_eq_getElem?_getD, List.getElem?_modify]
  cases found : m.sockets[j]? with
  | none => simp
  | some socket => by_cases here : k = j <;> simp [here, same]

theorem Inert.updateSocket (inert : Inert m next) (k : SocketId) {f : Socket → Socket}
    (same : ∀ socket, (f socket).forwarder = socket.forwarder) :
    Inert m (next.updateSocket k f) := by
  have length : (next.updateSocket k f).sockets.length = next.sockets.length := List.length_modify ..
  refine ⟨inert.fate, inert.servers, inert.sessions, inert.map, length.trans inert.sockets,
    fun j => (forwarder_updateSocket same j).trans (inert.forwarder j), inert.tasks, fun u => ?_⟩
  exact (inert.elsewhere u).mono rfl (Nat.le_refl _) (Nat.le_of_eq length.symm)

theorem Inert.updateTask (inert : Inert m next) (u : TaskId) {f : Task → Task}
    (same : ∀ task, (f task).frames = task.frames) : Inert m (next.updateTask u f) := by
  have frames : (next.updateTask u f).frames = next.frames := by
    funext v
    rw [frames_updateTask]
    split
    · rename_i here; rw [here.1, same]; rfl
    · rfl
  refine ⟨inert.fate, inert.servers, inert.sessions, inert.map, inert.sockets, inert.forwarder,
    ?_, fun v => ?_⟩
  · exact Nat.le_trans inert.tasks (Nat.le_of_eq (List.length_modify ..).symm)
  · exact (inert.elsewhere v).mono (congrFun frames v) (Nat.le_refl _) (Nat.le_refl _)

theorem Inert.answer (inert : Inert m next) (u : TaskId) (reply : Reply) :
    Inert m (next.answer u reply) := inert.updateTask u fun _ => rfl

theorem Inert.addTask (inert : Inert m next) {f : Activity} (outer : f.role = .outer)
    (within : f.Within next) : Inert m (next.addTask [f]) := by
  refine ⟨inert.fate, inert.servers, inert.sessions, inert.map, inert.sockets, inert.forwarder,
    ?_, fun v => ?_⟩
  · exact Nat.le_trans inert.tasks (by simp [Machine.addTask])
  · by_cases last : v = next.tasks.length
    · have begun : (next.addTask [f]).frames v = [f] := by rw [frames_addTask, if_pos last]
      refine .inr (.inl ⟨last ▸ inert.tasks, ?_, ?_⟩)
      · rw [begun]; exact .inl ⟨fun g member => List.mem_singleton.1 member ▸ outer, List.forall_mem_nil _⟩
      · rw [begun]; exact fun g member => List.mem_singleton.1 member ▸ within
    · have kept : (next.addTask [f]).frames v = next.frames v := by rw [frames_addTask, if_neg last]
      exact (inert.elsewhere v).mono kept (Nat.le_refl _) (Nat.le_refl _)

theorem Inert.map_empty (inert : Inert m next) : Inert m { next with map := [] } :=
  ⟨inert.fate, inert.servers, inert.sessions, by simp, inert.sockets, inert.forwarder, inert.tasks,
    inert.elsewhere⟩

theorem Inert.newSession (present : Present m) (key : String) :
    Inert m { m with
      sessions := m.sessions ++ [.new key], map := m.map.insert key m.sessions.length } := by
  refine ⟨rfl, rfl, by simp, fun e member => ?_, rfl, fun _ => rfl, Nat.le_refl _, fun _ => .inl rfl⟩
  rw [List.length_append, List.length_singleton]
  rcases Keyed.mem_insert member with rfl | old
  · exact Nat.lt_succ_self _
  · exact Nat.lt_succ_of_lt (present.map e old)

theorem Inert.breakOff (inert : Inert m next) (forwarder : IsForwarder (m.frames u)) :
    Inert m (next.updateTask u fun task => { task with frames := [] }) := by
  refine ⟨inert.fate, inert.servers, inert.sessions, inert.map, inert.sockets, inert.forwarder,
    ?_, fun v => ?_⟩
  · exact Nat.le_trans inert.tasks (Nat.le_of_eq (List.length_modify ..).symm)
  · by_cases here : v = u ∧ u < next.tasks.length
    · obtain ⟨rfl, _⟩ := here
      exact .inr (.inr ⟨forwarder, by rw [frames_updateTask, if_pos ⟨rfl, ‹_›⟩]⟩)
    · have kept := (frames_updateTask (m := next) (fun task => { task with frames := [] }) v).trans
        (if_neg here)
      exact (inert.elsewhere v).mono kept (Nat.le_refl _) (Nat.le_refl _)

theorem Inert.closeSocket (inert : Inert m next) (k : SocketId) : Inert m (next.closeSocket k) :=
  (inert.setConnection _ _).updateSocket k fun _ => rfl

theorem Inert.askListeners {result : Option Message} {direction : Direction} {message : Message}
    (inert : Inert m m) (asked : m.askListeners setup direction s message = (result, next)) :
    Inert m next := by
  cases asked; exact inert.congr rfl rfl rfl rfl rfl

theorem fate_enqueue? {server after : Server} {command : Command} {taken : Bool}
    (put : server.enqueue? command = some (taken, after)) : after.fate = server.fate := by
  obtain ⟨queue, rfl⟩ := Server.changes_enqueue? put
  rfl

theorem fate_nextOutput {server after : Server} {output : Output}
    (read : server.nextOutput = (output, after)) : after.fate = server.fate := by
  obtain ⟨_, _, _, rfl⟩ := Server.changes_nextOutput read
  rfl

theorem within_whenRunning {after : AfterStart} {p : ServerId} {isNew : Bool}
    (there : s < m.sessions.length) : ∀ f ∈ after.whenRunning s p isNew, f.Within m := by
  cases after <;> cases isNew <;> simp [AfterStart.whenRunning, Activity.Within, there]

theorem within_whenRefused {after : AfterStart} {error : StartError}
    (there : s < m.sessions.length) : ∀ f ∈ after.whenRefused s error, f.Within m := by
  cases after <;> simp [AfterStart.whenRefused, Activity.Within, there]

theorem Inert.undelivered {sender : Sender} (inert : Inert m m)
    (within : ∀ s c, sender = .client s c → s < m.sessions.length)
    (told : m.undelivered t sender = (next, new)) : Inert m next ∧ ∀ f ∈ new, f.Within next := by
  cases sender with
  | client s c => cases told; exact ⟨inert, by simpa [Activity.Within] using within s c rfl⟩
  | outside => cases told; exact ⟨inert.answer t _, by simp⟩

theorem Inert.drain (entries : Keyed SessionId)
    (known : ∀ e ∈ entries, e.2 < m.sessions.length) (inert : Inert m next) :
    Inert m (entries.foldl (fun machine e => machine.addTask [.close e.2]) next) := by
  induction entries generalizing next with
  | nil => exact inert
  | cons e rest ih =>
    refine ih (fun f member => known f (List.mem_cons_of_mem _ member)) (inert.addTask rfl ?_)
    exact Nat.lt_of_lt_of_le (known e List.mem_cons_self) inert.sessions

theorem Inert.attend {k : SocketId} {attention : Attention} (still : Inert m m)
    (there : k < m.sockets.length) (attended : m.attend k attention = some (next, new)) :
    Inert m next ∧ ∀ f ∈ new, f.Within next := by
  have gone : Inert m m ∧ ∀ f ∈ m.leaving k, f.Within m :=
    ⟨still, by simpa [leaving, Activity.Within] using there⟩
  unfold Machine.attend at attended
  dsimp only at attended
  split at attended
  · cases attended
  · rename_i rest _
    have taken := still.updateSocket k (f := fun socket => { socket with incoming := rest }) fun _ => rfl
    have there := taken.sockets ▸ there
    split at attended <;> cases attended
    · exact ⟨taken, by simpa [Activity.Within] using there⟩
    · exact ⟨taken, by simpa [Activity.Within] using there⟩
    · exact ⟨taken, by simpa [leaving, Activity.Within] using there⟩
  · split at attended <;> cases attended; exact gone
  · split at attended <;> cases attended; exact gone
  · split at attended <;> cases attended; exact gone

theorem Inert.deliver {pending gone event} (still : Inert m m) (within : s < m.sessions.length)
    (performed : m.deliver s pending gone event = some (next, new)) :
    Inert m next ∧ ∀ f ∈ new, f.Within next := by
  simp only [Machine.deliver] at performed
  split at performed
  · cases performed
    refine ⟨still, ?_⟩
    split
    · simp
    · simpa [Activity.Within] using within
  · split at performed <;> cases performed
    · have put := still.setConnection
      exact ⟨put _ _, by simpa [Activity.Within] using Nat.lt_of_lt_of_le within (put _ _).sessions⟩
    · exact ⟨still, by simpa [Activity.Within] using within⟩
    · exact ⟨still, by simpa [Activity.Within] using within⟩

theorem Inert.look {after} (still : Inert m m) (within : s < m.sessions.length)
    (performed : m.look t s after = some (next, new)) :
    Inert m next ∧ ∀ f ∈ new, f.Within next := by
  simp only [Machine.look] at performed
  split at performed
  · cases performed
  · split at performed
    · cases performed
      have locked := still.updateSession s fun session => { session with lock := some t }
      exact ⟨locked, by simpa [Activity.Within] using Nat.lt_of_lt_of_le within locked.sessions⟩
    · split at performed <;> cases performed
      · exact ⟨still.answer t _, within_whenRunning within⟩
      · have vacated := (still.updateSession s fun session => { session with lock := some t }).updateSession
          s fun session => { session with slot := none }
        have there := Nat.lt_of_lt_of_le within vacated.sessions
        refine ⟨vacated, ?_⟩
        simpa [publish, Activity.Within] using there

theorem Inert.begin {after} (still : Inert m m) (within : s < m.sessions.length)
    (performed : m.begin s after = some (next, new)) :
    Inert m next ∧ ∀ f ∈ new, f.Within next := by
  simp only [Machine.begin] at performed
  split at performed <;> cases performed
  · exact ⟨still, by simpa [Activity.Within] using within⟩
  · have begun := still.updateSession s fun session =>
      { session with generation := session.generation + 1 }
    exact ⟨begun, by simpa [Activity.Within] using Nat.lt_of_lt_of_le within begun.sessions⟩

theorem Inert.vacate {generation exit} (still : Inert m m) (within : s < m.sessions.length)
    (performed : m.vacate t s generation exit = some (next, new)) :
    Inert m next ∧ ∀ f ∈ new, f.Within next := by
  simp only [Machine.vacate] at performed
  split at performed
  · cases performed
  · split at performed <;> cases performed
    · have vacated := still.updateSession s fun session =>
        { session with lock := some t, slot := none }
      have there := Nat.lt_of_lt_of_le within vacated.sessions
      refine ⟨vacated, ?_⟩
      simpa [publish, Activity.Within] using there
    · exact ⟨still, by simp⟩

theorem Inert.askToFinish {p grace deadline} (still : Inert m m)
    (performed : m.askToFinish p grace deadline = some (next, new)) :
    Inert m next ∧ ∀ f ∈ new, f.Within next := by
  simp only [Machine.askToFinish] at performed
  split at performed
  · rename_i put
    cases performed
    exact ⟨still.setServer (fate_enqueue? put), by simp [Activity.Within]⟩
  · split at performed <;> cases performed
    exact ⟨still, by simp [Activity.Within]⟩

theorem Inert.awaitEnd {p deadline} (still : Inert m m)
    (performed : m.awaitEnd p deadline = some (next, new)) :
    Inert m next ∧ ∀ f ∈ new, f.Within next := by
  simp only [Machine.awaitEnd] at performed
  split at performed
  · cases performed; exact ⟨still, by simp [Activity.Within]⟩
  · split at performed <;> cases performed
    exact ⟨still.setServer rfl, by simp [Activity.Within]⟩

theorem Inert.attach {c} (still : Inert m m) (within : s < m.sessions.length)
    (performed : m.attach s c = some (next, new)) :
    Inert m next ∧ ∀ f ∈ new, f.Within next := by
  simp only [Machine.attach] at performed
  split at performed <;> cases performed
  · exact ⟨still, by simp⟩
  · have attached := still.updateSession s fun session =>
      { session with subscribers := session.subscribers ++ [c] }
    exact ⟨attached, by simpa [Activity.Within] using Nat.lt_of_lt_of_le within attached.sessions⟩

theorem Inert.detach {c} (still : Inert m m) (within : s < m.sessions.length)
    (performed : m.detach t s c = some (next, new)) :
    Inert m next ∧ ∀ f ∈ new, f.Within next := by
  simp only [Machine.detach] at performed
  split at performed <;> cases performed
  · have detached := (still.updateSession s fun session => { session with
      subscribers := (m.session s).subscribers.filter (· != c) }).answer t (.removed true)
    have there := Nat.lt_of_lt_of_le within detached.sessions
    refine ⟨detached, ?_⟩
    split
    · simpa [Activity.Within] using there
    · simp
  · exact ⟨still.answer t _, by simp⟩

theorem Inert.planTeardown (still : Inert m m) (within : s < m.sessions.length)
    (performed : m.planTeardown setup s = some (next, new)) :
    Inert m next ∧ ∀ f ∈ new, f.Within next := by
  simp only [Machine.planTeardown] at performed
  split at performed <;> cases performed
  · exact ⟨still, by simpa [Activity.Within] using within⟩
  · exact ⟨still.addTask rfl within, by simp⟩

theorem Inert.teardown {epoch} (still : Inert m m) (within : s < m.sessions.length)
    (performed : m.teardown t s epoch = some (next, new)) :
    Inert m next ∧ ∀ f ∈ new, f.Within next := by
  simp only [Machine.teardown] at performed
  split at performed
  · cases performed
  · split at performed <;> cases performed
    · have locked := still.updateSession s fun session => { session with lock := some t }
      exact ⟨locked, by simpa [Activity.Within] using Nat.lt_of_lt_of_le within locked.sessions⟩
    · exact ⟨still, by simp⟩

theorem Inert.teardownUnlessUsed (still : Inert m m) (within : s < m.sessions.length)
    (performed : m.teardownUnlessUsed setup s = some (next, new)) :
    Inert m next ∧ ∀ f ∈ new, f.Within next := by
  simp only [Machine.teardownUnlessUsed] at performed
  split at performed <;> cases performed
  · have emptied := still.updateSession s fun session => { session with slot := none }
    exact ⟨emptied, by simpa [Activity.Within] using Nat.lt_of_lt_of_le within emptied.sessions⟩
  · exact ⟨still.updateSession _ _, by simp⟩

theorem Inert.offer {sender p message} (still : Inert m m) (within : (Activity.offer sender p message).Within m)
    (performed : m.offer t sender p message = some (next, new)) :
    Inert m next ∧ ∀ f ∈ new, f.Within next := by
  simp only [Machine.offer] at performed
  have known : ∀ s c, sender = .client s c → s < m.sessions.length := by rintro s c rfl; exact within
  split at performed
  · cases performed
    refine ⟨still, ?_⟩
    cases sender with
    | client s c => simpa [Activity.Within] using known s c rfl
    | outside => simp [Activity.Within]
  · exact still.undelivered known (Option.some.inj performed)

theorem Inert.enqueue {sender p message} (still : Inert m m) (within : (Activity.enqueue sender p message).Within m)
    (performed : m.enqueue t sender p message = some (next, new)) :
    Inert m next ∧ ∀ f ∈ new, f.Within next := by
  simp only [Machine.enqueue] at performed
  have known : ∀ s c, sender = .client s c → s < m.sessions.length := by rintro s c rfl; exact within
  split at performed
  · cases performed
  · rename_i put
    cases performed
    exact ⟨(still.setServer (fate_enqueue? put)).answer t _, by simp⟩
  · exact still.undelivered known (Option.some.inj performed)

theorem Inert.pump {p} (still : Inert m m) (within : s < m.sessions.length)
    (performed : m.pump s p = some (next, new)) :
    Inert m next ∧ ∀ f ∈ new, f.Within next := by
  simp only [Machine.pump] at performed
  split at performed <;> rename_i read <;> cases performed
  · have after := still.setServer (fate_nextOutput read)
    exact ⟨after, by simpa [Activity.Within] using Nat.lt_of_lt_of_le within after.sessions⟩
  · have fate := fate_nextOutput read
    exact ⟨still.setServer fate, by simp⟩

theorem Inert.takeSlot (still : Inert m m) (within : s < m.sessions.length)
    (performed : m.takeSlot setup s = some (next, new)) :
    Inert m next ∧ ∀ f ∈ new, f.Within next := by
  simp only [Machine.takeSlot] at performed
  split at performed
  · cases performed
  · cases performed
    have emptied := still.updateSession s fun session => { session with slot := none }
    have there := Nat.lt_of_lt_of_le within emptied.sessions
    refine ⟨emptied, ?_⟩
    cases (m.session s).slot <;> simpa [Activity.Within] using there

theorem Inert.enter {key c message} (still : Inert m m)
    (performed : m.enter setup t key c message = some (next, new)) :
    Inert m next ∧ ∀ f ∈ new, f.Within next := by
  have asked := still.updateTask t (f := fun task => { task with reply := none }) fun _ => rfl
  simp only [Machine.enter, Machine.refuse] at performed
  split at performed
  · cases performed; exact ⟨asked.answer t _, by simp⟩
  · split at performed <;> cases performed
    · exact ⟨asked.answer t _, by simp⟩
    · exact ⟨asked, by simp [Activity.Within]⟩

theorem Inert.findSession {key c message} (present : Present m)
    (performed : m.findSession t key c message = some (next, new)) :
    Inert m next ∧ ∀ f ∈ new, f.Within next := by
  have still := Inert.refl present
  simp only [Machine.findSession, Machine.refuse] at performed
  split at performed
  · cases performed
  · split at performed
    · cases performed; exact ⟨still.answer t _, by simp⟩
    · split at performed <;> rename_i found <;> cases performed
      · have there := present.map _ (Keyed.mem_of_find? found)
        cases message <;> exact ⟨still, by simpa [visit, Activity.Within] using there⟩
      · have made := Inert.newSession present key
        cases message <;> exact ⟨made, by simp [visit, Activity.Within]⟩

theorem Inert.leaveAll {c} (present : Present m)
    (performed : m.leaveAll c = some (next, new)) :
    Inert m next ∧ ∀ f ∈ new, f.Within next := by
  have still := Inert.refl present
  simp only [Machine.leaveAll] at performed
  split at performed <;> cases performed
  refine ⟨still, fun f member => ?_⟩
  obtain ⟨e, known, rfl⟩ := List.mem_map.1 member
  exact present.map e known

theorem Inert.reportState {keys found} (present : Present m)
    (performed : m.reportState setup t keys found = some (next, new)) :
    Inert m next ∧ ∀ f ∈ new, f.Within next := by
  have still := Inert.refl present
  simp only [Machine.reportState] at performed
  split at performed
  · cases performed
    have unlocked : Inert m { m with mapLock := none } := still.congr rfl rfl rfl rfl rfl
    exact ⟨unlocked.answer t _, by simp⟩
  · split at performed <;> rename_i known <;> cases performed
    · exact ⟨still, by simp [Activity.Within]⟩
    · have there := present.map _ (Keyed.mem_of_find? known)
      exact ⟨still, by simpa [Activity.Within] using there⟩

theorem Inert.awaitFlush {k deadline} (present : Present m) (within : k < m.sockets.length)
    (performed : m.awaitFlush k deadline = some (next, new)) :
    Inert m next ∧ ∀ f ∈ new, f.Within next := by
  have still := Inert.refl present
  simp only [Machine.awaitFlush] at performed
  split at performed
  · cases performed; exact ⟨still, by simp⟩
  · split at performed <;> cases performed
    have closed := (still.setConnection (m.socket k).connection
      (m.connection (m.socket k).connection).hangUp).updateSocket k
        (f := fun socket => { socket with closed := true }) fun _ => rfl
    exact ⟨closed.breakOff (present.forwarder k within).2, by simp⟩

theorem Inert.forwards {k} (still : Inert m m) (within : k < m.sockets.length)
    (performed : m.forward k = some (next, new)) :
    Inert m next ∧ ∀ f ∈ new, f.Within next := by
  simp only [Machine.forward] at performed
  split at performed
  · rename_i event connection _
    split at performed <;> cases performed
    · exact ⟨(still.setConnection _ _).closeSocket k, by simp⟩
    · have sent := (still.setConnection (m.socket k).connection connection).updateSocket k
        (f := fun socket => { socket with
          outgoing := socket.outgoing ++ [event.toMessage.body] }) fun _ => rfl
      exact ⟨sent, by simpa [Activity.Within] using sent.sockets ▸ within⟩
  · split at performed <;> cases performed
    exact ⟨still.closeSocket k, by simp⟩

theorem Takes.inert (taken : Takes setup m t a next new) (present : Present m)
    (within : a.Within m) : Inert m next ∧ ∀ f ∈ new, f.Within next := by
  have still := Inert.refl present
  cases taken with
  | fails failed => cases failed; exact ⟨still, by simpa [Activity.Within] using within⟩
  | @breaks s _ _ _ _ broke =>
    cases broke
    have freed := still.updateSession s fun session => { session with lock := none }
    exact ⟨freed.congr rfl rfl rfl rfl rfl, by simp [Activity.Within]⟩
  | attends attended => exact still.attend within attended
  | performs performed =>
    cases a with
    -- Delivering events.
    | broadcast s event | tellState s c =>
      cases performed; exact ⟨still, by simpa [Activity.Within] using within⟩
    | notify s c text =>
      cases performed
      refine ⟨still, ?_⟩
      split
      · simpa [Activity.Within] using within
      · simp
    | deliver s pending gone event => exact still.deliver within performed
    | evict c => cases performed; exact ⟨still.setConnection _ _, by simp⟩
    | remove s gone | setState s state | unlock s | clear s =>
      cases performed; exact ⟨still.updateSession _ _, by simp⟩
    -- Starting a server.
    | look s after => exact still.look within performed
    | begin s after => exact still.begin within performed
    | spawn | breakdown => cases performed
    | started s after p =>
      cases performed
      have ended := (still.updateSession s fun session => { session with lock := none }).answer t
        (.started none)
      exact ⟨ended, within_whenRunning (Nat.lt_of_lt_of_le within ended.sessions)⟩
    | refused s after error =>
      cases performed
      have ended := (still.updateSession s fun session => { session with lock := none }).answer t
        (.started (some error))
      exact ⟨ended, within_whenRefused (Nat.lt_of_lt_of_le within ended.sessions)⟩
    -- The end of a server.
    | awaitExit s generation p =>
      simp only [perform, Machine.awaitExit, Option.map_eq_some_iff, Prod.mk.injEq] at performed
      obtain ⟨exit, _, rfl, rfl⟩ := performed
      exact ⟨still, by simpa [Activity.Within] using within⟩
    | vacate s generation exit => exact still.vacate within performed
    | stop p grace => cases performed; exact ⟨still.setServer rfl, by simp [Activity.Within]⟩
    | askToFinish p grace deadline => exact still.askToFinish performed
    | awaitEnd p deadline => exact still.awaitEnd performed
    | awaitKilled p =>
      simp only [perform, Machine.awaitKilled, Option.map_eq_some_iff, Prod.mk.injEq] at performed
      obtain ⟨exit, _, rfl, rfl⟩ := performed
      exact ⟨still, by simp [Activity.Within]⟩
    | abandon p exit =>
      cases performed
      have stopped : Inert m (m.setServer p (m.server p).stopWriter) := still.setServer rfl
      exact ⟨stopped.answer t _, by simp⟩
    -- Subscribers.
    | subscribe s c =>
      cases performed
      refine ⟨still, ?_⟩
      split
      · simp
      · simpa [Activity.Within] using within
    | attach s c => exact still.attach within performed
    | newEpoch s c =>
      cases performed
      have renewed := still.updateSession s fun session => { session with epoch := session.epoch + 1 }
      exact ⟨renewed, by simpa [Activity.Within] using Nat.lt_of_lt_of_le within renewed.sessions⟩
    | detach s c => exact still.detach within performed
    -- Idle sessions.
    | planTeardown s => exact still.planTeardown within performed
    | startTimer s epoch => cases performed; exact ⟨still, by simpa [Activity.Within] using within⟩
    | awaitTimer s epoch deadline =>
      simp only [perform, Machine.awaitTimer] at performed
      split at performed <;> cases performed
      exact ⟨still, by simpa [Activity.Within] using within⟩
    | teardown s epoch => exact still.teardown within performed
    | teardownUnlessUsed s => exact still.teardownUnlessUsed within performed
    -- Messages.
    | route s c message | fanOut s message =>
      simp only [perform, Machine.route, Machine.fanOut] at performed
      split at performed <;> rename_i asked <;> cases performed
      · exact ⟨still.askListeners asked, by simp⟩
      · have asked := still.askListeners asked
        have there := Nat.lt_of_lt_of_le within asked.sessions
        exact ⟨asked, by simpa [Activity.Within] using there⟩
    | offer sender p message => exact still.offer within performed
    | enqueue sender p message => exact still.enqueue within performed
    | pump s p => exact still.pump within performed
    | checkUsed s =>
      cases performed
      refine ⟨?_, by simp⟩
      split
      · exact still.addTask rfl within
      · exact still
    | next p =>
      simp only [perform, Machine.next] at performed
      split at performed <;> rename_i read <;> cases performed
      · exact ⟨(still.setServer (fate_nextOutput read)).answer t _, by simp⟩
      · exact ⟨(still.setServer (fate_nextOutput read)).answer t _, by simp⟩
    -- Closing a session.
    | close s =>
      cases performed
      have closed := still.updateSession s fun session => { session with closed := true }
      exact ⟨closed, by simpa [Activity.Within] using Nat.lt_of_lt_of_le within closed.sessions⟩
    | takeSlot s => exact still.takeSlot within performed
    -- The relay as a whole.
    | enter key c message => exact still.enter performed
    | findSession key c message => exact Inert.findSession present performed
    | leaveAll c => exact Inert.leaveAll present performed
    | report =>
      simp only [perform, Machine.report] at performed
      split at performed <;> cases performed
      exact ⟨still.congr rfl rfl rfl rfl rfl, by simp [Activity.Within]⟩
    | reportState keys found => exact Inert.reportState present performed
    | reportCount key state s keys found => cases performed; exact ⟨still, by simp [Activity.Within]⟩
    | shutDown =>
      cases performed
      refine ⟨still.congr rfl rfl rfl rfl rfl, ?_⟩
      split <;> simp [Activity.Within]
    | drain =>
      simp only [perform, Machine.drain] at performed
      split at performed <;> cases performed
      exact ⟨still.map_empty.drain _ present.map, by simp [Activity.Within]⟩
    | join tasks =>
      simp only [perform, Machine.join] at performed
      split at performed <;> cases performed
      exact ⟨still, by simp⟩
    -- Sockets.
    | reportRefusal k =>
      simp only [perform, Machine.reportRefusal] at performed
      split at performed <;> cases performed
      · exact ⟨(still.setConnection _ _).updateTask t fun _ => rfl, by simp⟩
      · exact ⟨still, by simp⟩
    | listen k => cases performed
    | leave k =>
      cases performed
      have left := still.updateSocket k (f := fun socket => { socket with held := false }) fun _ => rfl
      exact ⟨left, by simpa [Activity.Within] using left.sockets ▸ within⟩
    | awaitFlush k deadline => exact Inert.awaitFlush present within performed
    | forward k => exact still.forwards within performed

end Machine
end LanguageRelay
