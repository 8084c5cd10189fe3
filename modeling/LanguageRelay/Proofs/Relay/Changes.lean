import LanguageRelay.Proofs.Relay.Footprint
import LanguageRelay.Proofs.Relay.Runs
namespace LanguageRelay

def Event.server? : Event → Option ServerId
  | .release p | .write p _ | .watch p _ | .childReads p _ | .childWrites p _ | .inputCloses p
  | .outputCloses p | .childEnds p _ => some p
  | _ => none

namespace Machine

-- How the world around the relay, or one of the two tasks inside a server, changes the server.
inductive Serves (m : Machine) : Event → ServerId → Server → Prop where
  | released {p} : Serves m (.release p) p { m.server p with killRequested := true }
  | written {p count server} : (m.server p).write? count = some server →
      Serves m (.write p count) p server
  | watched {p wake server} : (m.server p).watch? m.clock wake = some server →
      Serves m (.watch p wake) p server
  | childReads {p count server} : (m.server p).childReads? count = some server →
      Serves m (.childReads p count) p server
  | childWrites {p bytes server} : (m.server p).childWrites? bytes = some server →
      Serves m (.childWrites p bytes) p server
  | inputCloses {p} : Serves m (.inputCloses p) p (m.server p).inputClosed
  | outputCloses {p} : Serves m (.outputCloses p) p (m.server p).outputClosed
  | childEnds {p code server} : (m.server p).childEnds? code = some server →
      Serves m (.childEnds p code) p server

structure Outside (m : Machine) (event : Event) (next : Machine) : Prop where
  sessions : next.sessions = m.sessions
  servers : event.server? = none ∧ next.servers = m.servers ∨
    (∃ p server, p < m.servers.length ∧ Serves m event p server ∧
      next.servers = m.servers.set p server) ∨
    ∃ limit, event = .startAlone limit ∧ next.servers = m.servers ++ [Server.start none limit]
  queue : ∀ c, (next.connection c).queue <:+ (m.connection c).queue
  evicted : ∀ c, (next.connection c).evicted = (m.connection c).evicted
  begun : ∀ u, m.tasks.length ≤ u → ∀ f ∈ next.frames u, f.isEntry
  tasks : m.tasks.length ≤ next.tasks.length

structure Launches (setup : Setup) (m : Machine) (t : TaskId) (s : SessionId) (after : AfterStart)
    (rest : List Activity) (next : Machine) : Prop where
  replaced : next.frames t = .setState s .running :: .broadcast s (m.stateEvent s .running) ::
    .started s after m.servers.length :: rest
  fits : setup.settings.processQueue ≤ Connection.greatestCapacity
  servers : next.servers = m.servers ++ [Server.start (some s) setup.settings.processQueue]
  connections : next.connections = m.connections
  key : ∀ r, (next.session r).key = (m.session r).key
  state : ∀ r, (next.session r).state = (m.session r).state

inductive Happens (setup : Setup) (m : Machine) (event : Event) (next : Machine) : Prop where
  | turned {t a rest made new} : event.task? = some t → Turned m t a rest new next →
      Takes setup m t a made new → Leaves m a next new →
      next = made.updateTask t (fun task => { task with frames := new ++ rest }) →
      Happens setup m event next
  | started {t s after rest} : event = .launch t none → Started m t s after rest next →
      Launches setup m t s after rest next → Happens setup m event next
  | ambient : event.task? = none → Ambient m next → Outside m event next →
      Happens setup m event next

variable {m next : Machine} {setup : Setup} {event : Event} {t u : TaskId} {s : SessionId}
  {p : ServerId} {c : ConnectionId} {a f : Activity} {rest new : List Activity}

theorem server_of_length_le (beyond : m.servers.length ≤ p) : m.server p = default := by
  simp [Machine.server, List.getD_eq_getElem?_getD, beyond]

theorem server_set {server : Server} (changed : next.servers = m.servers.set p server)
    (q : ServerId) : next.server q = if q = p ∧ p < m.servers.length then server else m.server q := by
  simp only [Machine.server, changed, List.getD_eq_getElem?_getD, List.getElem?_set]
  by_cases here : q = p
  · subst q
    by_cases there : p < m.servers.length
    · simp [there]
    · simp [there]
  · simp [here, Ne.symm here]

theorem server_append {server : Server} (added : next.servers = m.servers ++ [server])
    (q : ServerId) : next.server q = if q = m.servers.length then server else m.server q := by
  simp only [Machine.server, added, List.getD_eq_getElem?_getD, List.getElem?_append]
  by_cases old : q < m.servers.length
  · simp [old, Nat.ne_of_lt old]
  · by_cases last : q = m.servers.length
    · simp [last]
    · have after := Nat.lt_of_le_of_ne (Nat.le_of_not_lt old) (Ne.symm last)
      have beyond : ([server] : List Server)[q - m.servers.length]? = none :=
        List.getElem?_eq_none (Nat.succ_le_of_lt (Nat.sub_pos_of_lt after))
      simp [old, last, beyond]

theorem connection_set {connection : Connection}
    (changed : next.connections = m.connections.set c connection) (d : ConnectionId) :
    next.connection d = if d = c ∧ c < m.connections.length then connection else m.connection d := by
  simp only [Machine.connection, changed, List.getD_eq_getElem?_getD, List.getElem?_set]
  by_cases here : d = c
  · subst d
    by_cases there : c < m.connections.length
    · simp [there]
    · simp [there]
  · simp [here, Ne.symm here]

theorem queue_set {connection : Connection}
    (changed : next.connections = m.connections.set c connection)
    (drained : connection.queue <:+ (m.connection c).queue) (d : ConnectionId) :
    (next.connection d).queue <:+ (m.connection d).queue := by
  rw [connection_set changed]
  split
  · rename_i here
    rw [here.1]; exact drained
  · exact List.suffix_rfl

theorem evicted_set {connection : Connection}
    (changed : next.connections = m.connections.set c connection)
    (mark : connection.evicted = (m.connection c).evicted) (d : ConnectionId) :
    (next.connection d).evicted = (m.connection d).evicted := by
  rw [connection_set changed]
  split
  · rename_i here
    rw [here.1]; exact mark
  · rfl

theorem Connection.queue_of_receive? {connection : Connection} {r : ClientEvent × Connection}
    (received : connection.receive? = some r) : r.2.queue <:+ connection.queue := by
  obtain ⟨event, after⟩ := r
  rw [Connection.queue_receive? received]
  exact List.suffix_cons ..

theorem connection_append {capacity : Nat}
    (added : next.connections = m.connections ++ [Connection.new capacity]) (d : ConnectionId) :
    (next.connection d).queue = (m.connection d).queue ∧
      (next.connection d).evicted = (m.connection d).evicted := by
  simp only [Machine.connection, added, List.getD_eq_getElem?_getD, List.getElem?_append]
  by_cases old : d < m.connections.length
  · simp [old]
  · cases beyond : ([Connection.new capacity] : List Connection)[d - m.connections.length]? with
    | none => simp [old]
    | some connection =>
      have first : connection = .new capacity := List.mem_singleton.1 (List.mem_of_getElem? beyond)
      simp only [Option.getD_none, List.getElem?_eq_none (Nat.le_of_not_lt old), old, if_false,
        Option.getD_some, first, Connection.new]
      exact ⟨rfl, rfl⟩

theorem queue_append {capacity : Nat}
    (added : next.connections = m.connections ++ [Connection.new capacity]) (d : ConnectionId) :
    (next.connection d).queue <:+ (m.connection d).queue :=
  (connection_append added d).1 ▸ List.suffix_rfl

theorem begun_of_same (tasks : next.tasks = m.tasks) (beyond : m.tasks.length ≤ u) :
    ∀ f ∈ next.frames u, f.isEntry := by
  intro f member
  rw [frames_eq tasks, frames_of_length_le beyond] at member
  cases member

theorem Outside.of_same (other : event.server? = none) (sessions : next.sessions = m.sessions)
    (servers : next.servers = m.servers)
    (queue : ∀ c, (next.connection c).queue <:+ (m.connection c).queue)
    (evicted : ∀ c, (next.connection c).evicted = (m.connection c).evicted)
    (tasks : next.tasks = m.tasks) : Outside m event next :=
  ⟨sessions, .inl ⟨other, servers⟩, queue, evicted, fun _ => begun_of_same tasks,
    Nat.le_of_eq (by rw [tasks])⟩

theorem Outside.of_change {change : Server → Option Server}
    (changed : m.changeServer p change = some next)
    (serves : ∀ server, change (m.server p) = some server → Serves m event p server) :
    Outside m event next := by
  unfold changeServer at changed
  split at changed
  · rename_i there
    obtain ⟨server, made, rfl⟩ := Option.map_eq_some_iff.1 changed
    exact ⟨rfl, .inr (.inl ⟨p, server, there, serves server made, rfl⟩), fun _ => List.suffix_rfl,
      fun _ => rfl, fun _ => begun_of_same rfl, Nat.le_refl _⟩
  · cases changed

theorem entry_frames (operation : Operation) : ∀ f ∈ operation.frames, f.isEntry := by
  cases operation <;> simp [Operation.frames, Activity.isEntry]

theorem Outside.openSocket (key : String) (capacity : Nat) :
    Outside m (.openSocket key) (m.openSocket key (.new capacity)) := by
  refine ⟨rfl, .inl ⟨rfl, rfl⟩, queue_append rfl, fun c => (connection_append rfl c).2,
    fun u beyond f member => ?_, ?_⟩
  · rw [Machine.openSocket, frames_addTask, frames_addTask] at member
    split at member
    · rw [List.mem_singleton.1 member]; rfl
    · split at member
      · simp only [List.mem_cons, List.not_mem_nil, or_false] at member
        rcases member with rfl | rfl | rfl <;> rfl
      · exact begun_of_same rfl beyond f member
  · rw [Machine.openSocket, length_addTask, length_addTask]
    exact Nat.le_add_right m.tasks.length 2

theorem Outside.of_advance (outside : event.task? = none)
    (moved : m.advance setup event = some next) : Outside m event next := by
  have same : ∀ c, (m.connection c).queue <:+ (m.connection c).queue := fun _ => List.suffix_rfl
  have marks : ∀ c, (m.connection c).evicted = (m.connection c).evicted := fun _ => rfl
  cases event with
  | run | launch | attend => cases outside
  | call operation =>
    simp only [advance] at moved
    split at moved
    · cases moved
      refine ⟨rfl, .inl ⟨rfl, rfl⟩, same, marks, fun u beyond f member => ?_, ?_⟩
      · rw [frames_addTask] at member
        split at member
        · exact entry_frames operation f member
        · exact begun_of_same rfl beyond f member
      · rw [length_addTask]; exact Nat.le_succ _
    · cases moved
  | connect capacity =>
    obtain rfl := connect_eq moved
    exact .of_same rfl rfl rfl (queue_append rfl) (fun c => (connection_append rfl c).2) rfl
  | receive c =>
    obtain ⟨r, received, rfl⟩ := Option.map_eq_some_iff.1 moved
    obtain ⟨event, connection⟩ := r
    exact .of_same rfl rfl rfl (queue_set rfl (Connection.queue_of_receive? received))
      (evicted_set rfl (Connection.evicted_receive? received)) rfl
  | hangUp c =>
    cases moved
    exact .of_same rfl rfl rfl (queue_set rfl List.nil_suffix) (evicted_set rfl rfl) rfl
  | openSocket key => obtain rfl := openSocket_eq moved; exact .openSocket key _
  | incoming k frame =>
    simp only [advance] at moved
    split at moved
    · cases moved
    · cases moved; exact .of_same rfl rfl rfl same marks rfl
  | collect k =>
    simp only [advance] at moved
    split at moved
    · cases moved
    · cases moved; exact .of_same rfl rfl rfl same marks rfl
  | startAlone queueLimit =>
    simp only [advance] at moved
    split at moved <;> cases moved
    · obtain ⟨_, rfl⟩ := start?_eq_some.1 ‹_›
      exact ⟨rfl, .inr (.inr ⟨queueLimit, rfl, rfl⟩), same, marks, fun _ => begun_of_same rfl,
        Nat.le_refl _⟩
    · exact .of_same rfl rfl rfl same marks rfl
  | release p =>
    simp only [advance] at moved
    apply Outside.of_change moved
    intro server made
    cases made; exact .released
  | write p count =>
    simp only [advance] at moved
    exact .of_change moved fun _ => .written
  | watch p wake =>
    simp only [advance] at moved
    exact .of_change moved fun _ => .watched
  | childReads p count =>
    simp only [advance] at moved
    exact .of_change moved fun _ => .childReads
  | childWrites p bytes =>
    simp only [advance] at moved
    exact .of_change moved fun _ => .childWrites
  | inputCloses p =>
    simp only [advance] at moved
    apply Outside.of_change moved
    intro server made
    cases made; exact .inputCloses
  | outputCloses p =>
    simp only [advance] at moved
    apply Outside.of_change moved
    intro server made
    cases made; exact .outputCloses
  | childEnds p code =>
    simp only [advance] at moved
    exact .of_change moved fun _ => .childEnds
  | strayEnds place =>
    simp only [advance] at moved
    split at moved <;> cases moved
    exact .of_same rfl rfl rfl same marks rfl
  | tick milliseconds => cases moved; exact .of_same rfl rfl rfl same marks rfl

theorem Leaves.placed {made : Machine} {frames : List Activity} (leaves : Leaves m a made new)
    (there : t < m.tasks.length) :
    Leaves m a (made.updateTask t fun task => { task with frames := frames }) new := by
  have foot := leaves.foot
  refine ⟨⟨foot.key, foot.state, foot.servers, foot.connections, fun u beyond => ?_⟩, leaves.stems⟩
  have other : ¬ (u = t ∧ t < made.tasks.length) := by
    rintro ⟨rfl, _⟩
    exact Nat.not_lt_of_le beyond there
  rw [frames_updateTask, if_neg other]
  exact foot.begun u beyond

theorem Launches.of_installed {made : Machine} {after : AfterStart} (there : t < m.tasks.length)
    (fits : setup.settings.processQueue ≤ Connection.greatestCapacity)
    (launched : m.installed s after (.start (some s) setup.settings.processQueue) = some (made, new)) :
    Launches setup m t s after rest
      (made.updateTask t fun task => { task with frames := new ++ rest }) := by
  cases launched
  let added : Machine :=
    { m with servers := m.servers ++ [Server.start (some s) setup.settings.processQueue] }
  let fill : Session → Session := fun session => { session with
    slot := some ⟨(m.session s).generation, m.servers.length⟩, spawnCount := session.spawnCount + 1 }
  have still : t < (m.tasks.length + 1) + 1 := Nat.lt_add_right 2 there
  rw [← length_addTask [.pump s m.servers.length], ← length_addTask
    [.awaitExit s (m.session s).generation m.servers.length]] at still
  refine ⟨?_, fits, rfl, rfl, fun r => ?_, fun r => ?_⟩
  · exact (frames_updateTask _ t).trans (if_pos ⟨rfl, still⟩)
  · exact session_updateSession_proj (m := added) (f := fill) Session.key (fun _ => rfl) r
  · exact session_updateSession_proj (m := added) (f := fill) Session.state (fun _ => rfl) r

theorem Footprint.length_servers (foot : Footprint m a next) :
    next.servers.length = m.servers.length := by
  rcases foot.servers with same | ⟨p, server, _, same⟩
  · rw [same]
  · rw [same, List.length_set]

theorem Launches.length_servers {after : AfterStart}
    (launches : Launches setup m t s after rest next) :
    next.servers.length = m.servers.length + 1 := by
  rw [launches.servers, List.length_append]; rfl

theorem Outside.length_servers (outside : Outside m event next) :
    m.servers.length ≤ next.servers.length := by
  rcases outside.servers with ⟨_, same⟩ | ⟨p, server, _, _, same⟩ | ⟨limit, _, same⟩
  · exact Nat.le_of_eq (by rw [same])
  · exact Nat.le_of_eq (by rw [same, List.length_set])
  · rw [same, List.length_append]; exact Nat.le_add_right ..

theorem Sound.happens (sound : Sound m) (moved : m.advance setup event = some next) :
    Happens setup m event next := by
  rcases advance_cases moved with ⟨t, a, rest, made, new, step, stack, taken, shape⟩ |
    ⟨t, s, after, rest, made, new, launch, stack, fits, launched, shape⟩ | outside
  · have turned := (Turned.of_takes sound.present stack taken).1
    rw [← shape] at turned
    have there : t < m.tasks.length := lt_of_mem_frames (stack ▸ List.mem_cons_self)
    exact .turned step turned taken (shape ▸ taken.leaves.placed there) shape
  · have started := (Started.of_installed sound.present stack launched).1
    have there : t < m.tasks.length := lt_of_mem_frames (stack ▸ List.mem_cons_self)
    rw [← shape] at started
    exact .started launch started (shape ▸ .of_installed there fits launched)
  · exact .ambient outside (Ambient.of_advance sound.present outside moved).1
      (.of_advance outside moved)

theorem Sound.tasks_le (sound : Sound m) (moved : m.advance setup event = some next) :
    m.tasks.length ≤ next.tasks.length := by
  have within : ∀ {t a rest}, m.frames t = a :: rest → a.Within m := by
    intro t a rest stack
    exact sound.present.frames t a (stack ▸ List.mem_cons_self)
  rcases advance_cases moved with ⟨t, a, rest, made, new, _, stack, taken, rfl⟩ |
    ⟨t, s, after, rest, made, new, _, stack, _, launched, rfl⟩ | outside
  · have inert := (taken.inert sound.present (within stack)).1
    exact Nat.le_trans inert.tasks (Nat.le_of_eq (List.length_modify ..).symm)
  · have parts := (Made.of_installed (within stack) launched).1
    have more : m.tasks.length ≤ made.tasks.length := by
      rw [parts.tasks]; exact Nat.le_add_right _ 2
    exact Nat.le_trans more (Nat.le_of_eq (List.length_modify ..).symm)
  · exact (Outside.of_advance outside moved).tasks

theorem Happens.length_servers (happens : Happens setup m event next) :
    m.servers.length ≤ next.servers.length := by
  cases happens with
  | turned _ _ _ leaves _ => exact Nat.le_of_eq leaves.foot.length_servers.symm
  | started _ _ launches => rw [launches.length_servers]; exact Nat.le_succ _
  | ambient _ _ outside => exact outside.length_servers

theorem Happens.key (happens : Happens setup m event next) (there : s < m.sessions.length) :
    (next.session s).key = (m.session s).key := by
  cases happens with
  | turned _ _ _ leaves _ => exact leaves.foot.key s there
  | started _ _ launches => exact launches.key s
  | ambient _ _ outside => rw [session, outside.sessions]; rfl

theorem Happens.owner (happens : Happens setup m event next) (own : (m.fate p).session = some s) :
    (next.fate p).session = some s := by
  cases happens with
  | turned _ turned => rw [turned.fate]; exact own
  | started _ started =>
    rw [started.fate]
    have old : p ≠ m.servers.length := by
      rintro rfl
      rw [fate_of_length_le (Nat.le_refl _)] at own; cases own
    rw [Function.update_of_ne old]; exact own
  | ambient _ ambient => rw [ambient.session]; exact own

theorem Elsewhere.filterMap {α : Type} {g : Activity → Option α} (elsewhere : Elsewhere m next u)
    (entry : ∀ f : Activity, f.isEntry → g f = none) (forward : ∀ k, g (.forward k) = none)
    (begun : ∀ u, m.tasks.length ≤ u → ∀ f ∈ next.frames u, f.isEntry) :
    (next.frames u).filterMap g = (m.frames u).filterMap g := by
  rcases elsewhere with kept | ⟨beyond, _⟩ | ⟨forwards, broken⟩
  · rw [kept]
  · rw [frames_of_length_le beyond, List.filterMap_nil]
    exact List.filterMap_eq_nil_iff.2 fun f member => entry f (begun u beyond f member)
  · rw [broken, List.filterMap_nil]
    symm
    apply List.filterMap_eq_nil_iff.2
    intro f member
    obtain ⟨k, rfl⟩ := forwards f member
    exact forward k

theorem Happens.change (happens : Happens setup m event next) (p : ServerId) :
    next.server p = m.server p ∨
    (∃ session limit, m.server p = default ∧ next.server p = Server.start session limit) ∨
    (∃ t a rest, event.task? = some t ∧ m.frames t = a :: rest ∧ Handles m a p (next.server p)) ∨
    Serves m event p (next.server p) := by
  have begun : ∀ {session limit}, next.servers = m.servers ++ [Server.start session limit] →
      next.server p = m.server p ∨
        ∃ session limit, m.server p = default ∧ next.server p = Server.start session limit := by
    intro session limit added
    have here := server_append added p
    split at here
    · rename_i last
      exact .inr ⟨session, limit, server_of_length_le (Nat.le_of_eq last.symm), here⟩
    · exact .inl here
  cases happens with
  | turned step turned _ leaves _ =>
    rcases leaves.foot.servers with same | ⟨q, server, handles, changed⟩
    · exact .inl (by rw [Machine.server, same]; rfl)
    · have here := server_set changed p
      split at here
      · rename_i own
        obtain ⟨rfl, _⟩ := own
        exact .inr (.inr (.inl ⟨_, _, _, step, turned.stack, here ▸ handles⟩))
      · exact .inl here
  | started _ _ launches => exact (begun launches.servers).imp_right .inl
  | ambient _ _ outside =>
    rcases outside.servers with ⟨_, same⟩ | ⟨q, server, _, serves, changed⟩ | ⟨limit, _, added⟩
    · exact .inl (by rw [Machine.server, same]; rfl)
    · have here := server_set changed p
      split at here
      · rename_i own
        obtain ⟨rfl, _⟩ := own
        exact .inr (.inr (.inr (here ▸ serves)))
      · exact .inl here
    · exact (begun added).imp_right .inl

end Machine
end LanguageRelay
