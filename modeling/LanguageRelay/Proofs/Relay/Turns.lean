import Mathlib.Logic.Function.Basic
import LanguageRelay.Relay.Step
namespace LanguageRelay

structure Custody where
  lock : Option TaskId
  slot : Option Slot
  generation : Nat
  closed : Bool
  subscribers : List ConnectionId
  epoch : Nat

def Session.custody (session : Session) : Custody :=
  ⟨session.lock, session.slot, session.generation, session.closed, session.subscribers,
    session.epoch⟩

-- What a server is to its session. The watcher and the child write it, tasks do not.
structure Fate where
  session : Option SessionId
  child : ChildState
  exit : Option ServerExit

def Server.fate (server : Server) : Fate := ⟨server.session, server.child, server.exit⟩

-- The task whose step an event is. Every other event is a step of the world around the relay.
def Event.task? : Event → Option TaskId
  | .run t | .launch t _ | .attend t _ => some t
  | _ => none

namespace Machine
variable {m next : Machine} {setup : Setup} {t u : TaskId} {s r : SessionId} {p q : ServerId}

-- A task that is not there has no frames.
def frames (m : Machine) (t : TaskId) : List Activity := (m.task t).frames

def custody (m : Machine) (s : SessionId) : Custody := (m.session s).custody

def fate (m : Machine) (p : ServerId) : Fate := (m.server p).fate

theorem session_updateSession (there : s < m.sessions.length) (f : Session → Session) :
    (m.updateSession s f).session s = f (m.session s) := by
  simp [session, updateSession, List.getD_eq_getElem?_getD, there]

theorem session_updateSession_of_ne (other : r ≠ s) (f : Session → Session) :
    (m.updateSession s f).session r = m.session r := by
  simp [session, updateSession, List.getD_eq_getElem?_getD, other.symm]

theorem custody_updateSession (there : s < m.sessions.length) (f : Session → Session) :
    (m.updateSession s f).custody = Function.update m.custody s (f (m.session s)).custody := by
  funext r
  by_cases same : r = s
  · subst r; simp only [custody, session_updateSession there, Function.update_self]
  · simp only [custody, session_updateSession_of_ne same, Function.update_of_ne same]

theorem custody_updateSession_of_same {f : Session → Session}
    (same : ∀ session, (f session).custody = session.custody) :
    (m.updateSession s f).custody = m.custody := by
  by_cases there : s < m.sessions.length
  · rw [custody_updateSession there, same]; exact Function.update_eq_self _ _
  · funext r
    simp [custody, session, updateSession, List.modify_eq_self (Nat.le_of_not_lt there)]

theorem custody_eq (same : next.sessions = m.sessions) : next.custody = m.custody := by
  funext r; simp only [custody, session, same]

theorem fate_setServer {server : Server} (same : server.fate = m.fate p) :
    (m.setServer p server).fate = m.fate := by
  funext q
  by_cases here : q = p
  · subst q
    by_cases there : p < m.servers.length
    · simpa [fate, Machine.server, setServer, List.getD_eq_getElem?_getD, there] using same
    · simp [fate, Machine.server, setServer, List.getD_eq_getElem?_getD,
        List.set_eq_of_length_le (Nat.le_of_not_lt there)]
  · simp [fate, Machine.server, setServer, List.getD_eq_getElem?_getD, Ne.symm here]

theorem frames_eq (same : next.tasks = m.tasks) : next.frames = m.frames := by
  funext u; simp only [frames, task, same]

theorem frames_of_length_le (beyond : m.tasks.length ≤ u) : m.frames u = [] := by
  simp [frames, task, List.getD_eq_getElem?_getD, beyond, default]
  rfl

theorem frames_updateTask (f : Task → Task) (u : TaskId) :
    (m.updateTask t f).frames u =
      if u = t ∧ t < m.tasks.length then (f (m.task t)).frames else m.frames u := by
  by_cases same : u = t
  · subst u
    by_cases there : t < m.tasks.length
    · simp [frames, task, updateTask, List.getD_eq_getElem?_getD, there]
    · simp [frames, task, updateTask, List.modify_eq_self (Nat.le_of_not_lt there), there]
  · simp [frames, task, updateTask, List.getD_eq_getElem?_getD, same, Ne.symm same]

theorem frames_addTask (frames : List Activity) (u : TaskId) :
    (m.addTask frames).frames u = if u = m.tasks.length then frames else m.frames u := by
  simp only [Machine.frames, task, addTask, List.getD_eq_getElem?_getD, List.getElem?_append]
  by_cases before : u < m.tasks.length
  · simp [before, Nat.ne_of_lt before]
  · by_cases last : u = m.tasks.length
    · simp [last]
    · have beyond := Nat.lt_of_le_of_ne (Nat.le_of_not_lt before) (Ne.symm last)
      have absent : ([⟨frames, none⟩] : List Task)[u - m.tasks.length]? = none :=
        List.getElem?_eq_none (by simp only [List.length_singleton]; omega)
      simp [before, last, absent]

-- One step of a task that starts no server: the frame on top, the machine after it and the frames in
-- its place. What becomes of a failed start and what wakes a socket is up to the world. A start breaks
-- down when no queue can have the room that is asked for.
inductive Takes (setup : Setup) (m : Machine) (t : TaskId) :
    Activity → Machine → List Activity → Prop where
  | performs {a next new} : m.perform setup t a = some (next, new) → Takes setup m t a next new
  | fails {s after error next new} : m.notSpawned s after error = some (next, new) →
      Takes setup m t (.spawn s after) next new
  | breaks {s after next new} : Connection.greatestCapacity < setup.settings.processQueue →
      m.brokenDown s = some (next, new) → Takes setup m t (.spawn s after) next new
  | attends {k attention next new} : m.attend k attention = some (next, new) →
      Takes setup m t (.listen k) next new

theorem turn_cases {take : Activity → Turn} (turned : m.turn t take = some next) :
    ∃ a rest made new, m.frames t = a :: rest ∧ take a = some (made, new) ∧
      next = made.updateTask t fun task => { task with frames := new ++ rest } := by
  unfold turn at turned
  cases stack : (m.task t).frames with
  | nil => simp [stack] at turned
  | cons a rest =>
    rw [stack] at turned
    cases taken : take a with
    | none => simp [taken] at turned
    | some result =>
      simp only [taken, Option.map_some, Option.some.injEq] at turned
      exact ⟨a, rest, result.1, result.2, stack, taken, turned.symm⟩

theorem frames_of_isBroken {task : Task} (broken : task.isBroken) :
    ∃ below, task.frames = .breakdown :: below := by
  unfold Task.isBroken at broken
  split at broken
  · exact ⟨_, ‹_›⟩
  · cases broken

theorem start?_eq_some {session : Option SessionId} {limit : Nat} {server : Server} :
    Server.start? session limit = some server ↔
      limit ≤ Connection.greatestCapacity ∧ server = Server.start session limit := by
  rw [Server.start?, Option.ite_none_right_eq_some, Option.some.injEq, eq_comm]

theorem start?_eq_none {session : Option SessionId} {limit : Nat} :
    Server.start? session limit = none ↔ Connection.greatestCapacity < limit := by
  simp [Server.start?]

theorem connect_eq {capacity : Nat} (moved : m.advance setup (.connect capacity) = some next) :
    next = { m with connections := m.connections ++ [.new capacity] } := by
  simp only [advance, Connection.new?] at moved
  split at moved <;> cases moved
  rfl

theorem openSocket_eq {key : String} (moved : m.advance setup (.openSocket key) = some next) :
    next = m.openSocket key (.new setup.settings.clientQueue) := by
  simp only [advance, Connection.new?] at moved
  split at moved <;> cases moved
  rfl

theorem advance_cases {event : Event} (moved : m.advance setup event = some next) :
    (∃ t a rest made new, event.task? = some t ∧ m.frames t = a :: rest ∧
      Takes setup m t a made new ∧
      next = made.updateTask t fun task => { task with frames := new ++ rest }) ∨
    (∃ t s after rest made new, event = .launch t none ∧ m.frames t = .spawn s after :: rest ∧
      setup.settings.processQueue ≤ Connection.greatestCapacity ∧
      m.installed s after (.start (some s) setup.settings.processQueue) = some (made, new) ∧
      next = made.updateTask t fun task => { task with frames := new ++ rest }) ∨
    event.task? = none := by
  cases event with
  | run t =>
    obtain ⟨a, rest, made, new, stack, taken, rfl⟩ := turn_cases moved
    exact .inl ⟨t, a, rest, made, new, rfl, stack, .performs taken, rfl⟩
  | launch t failure =>
    obtain ⟨a, rest, made, new, stack, taken, rfl⟩ := turn_cases moved
    cases a with
    | spawn s after =>
      cases failure with
      | none =>
        simp only [spawned] at taken
        split at taken
        · obtain ⟨fits, rfl⟩ := start?_eq_some.1 ‹_›
          exact .inr (.inl ⟨t, s, after, rest, made, new, rfl, stack, fits, taken, rfl⟩)
        · exact .inl ⟨t, _, rest, made, new, rfl, stack, .breaks (start?_eq_none.1 ‹_›) taken, rfl⟩
      | some error => exact .inl ⟨t, _, rest, made, new, rfl, stack, .fails taken, rfl⟩
    | _ => cases taken
  | attend t attention =>
    obtain ⟨a, rest, made, new, stack, taken, rfl⟩ := turn_cases moved
    cases a with
    | listen k => exact .inl ⟨t, _, rest, made, new, rfl, stack, .attends taken, rfl⟩
    | _ => cases taken
  | _ => exact .inr (.inr rfl)

end Machine
end LanguageRelay
