import LanguageRelay.Proofs.Relay.Turns
namespace LanguageRelay

def Event.duration : Event → Nat
  | .tick milliseconds => milliseconds
  | _ => 0

namespace Machine
variable {m next : Machine} {setup : Setup} {event : Event} {t : TaskId} {s : SessionId} {p : ServerId} {a : Activity}
  {new : List Activity}

-- Time does not pass, and no child is left without anybody to wait for it.
structure Calm (m next : Machine) : Prop where
  clock : next.clock = m.clock
  strays : next.strays = m.strays

theorem calm_drain (entries : Keyed SessionId) :
    Calm m (entries.foldl (fun machine e => machine.addTask [.close e.2]) m) := by
  induction entries generalizing m with
  | nil => exact ⟨rfl, rfl⟩
  | cons e rest ih => exact ⟨ih.clock, ih.strays⟩

theorem calm_askListeners {s : SessionId} {result : Option Message} {direction : Direction}
    {message : Message} (asked : m.askListeners setup direction s message = (result, next)) :
    Calm m next := by
  cases asked; exact ⟨rfl, rfl⟩

theorem calm_undelivered {sender : Sender} (told : m.undelivered t sender = (next, new)) :
    Calm m next := by
  cases sender <;> cases told <;> exact ⟨rfl, rfl⟩

theorem calm_attend {k : SocketId} {attention : Attention}
    (attended : m.attend k attention = some (next, new)) : Calm m next := by
  unfold attend at attended
  dsimp only at attended
  split at attended
  · cases attended
  · split at attended <;> cases attended <;> exact ⟨rfl, rfl⟩
  all_goals
    split at attended <;> cases attended
    exact ⟨rfl, rfl⟩

theorem calm_perform (performed : m.perform setup t a = some (next, new)) :
    Calm m next := by
  cases a with
  | broadcast | evict | remove | tellState | notify | started | refused | setState | unlock | stop
  | abandon | subscribe | newEpoch | startTimer | close | clear | reportCount | shutDown | leave =>
    cases performed; exact ⟨rfl, rfl⟩
  | spawn | breakdown | listen => cases performed
  | awaitExit | awaitKilled =>
    obtain ⟨_, _, pair⟩ := Option.map_eq_some_iff.1 performed
    cases pair; exact ⟨rfl, rfl⟩
  | look | begin | vacate | askToFinish | awaitEnd | takeSlot | pump | next =>
    simp only [perform, Machine.look, Machine.begin, Machine.vacate, Machine.askToFinish,
      Machine.awaitEnd, Machine.takeSlot, Machine.pump, Machine.next] at performed
    repeat' split at performed
    all_goals cases performed <;> exact ⟨rfl, rfl⟩
  | deliver | attach | detach | planTeardown | awaitTimer | teardown | teardownUnlessUsed =>
    simp only [perform, Machine.deliver, Machine.attach, Machine.detach, Machine.planTeardown,
      Machine.awaitTimer, Machine.teardown, Machine.teardownUnlessUsed] at performed
    repeat' split at performed
    all_goals cases performed <;> exact ⟨rfl, rfl⟩
  | enter | findSession | leaveAll | report | reportState | join | reportRefusal | awaitFlush
  | forward =>
    simp only [perform, Machine.enter, Machine.refuse, Machine.findSession, Machine.leaveAll,
      Machine.report, Machine.reportState, Machine.join, Machine.reportRefusal, Machine.awaitFlush,
      Machine.forward] at performed
    repeat' split at performed
    all_goals cases performed <;> exact ⟨rfl, rfl⟩
  | route | fanOut =>
    simp only [perform, Machine.route, Machine.fanOut] at performed
    split at performed <;> rename_i asked <;> cases performed <;> exact calm_askListeners asked
  | offer =>
    simp only [perform, Machine.offer] at performed
    split at performed
    · cases performed; exact ⟨rfl, rfl⟩
    · exact calm_undelivered (Option.some.inj performed)
  | enqueue =>
    simp only [perform, Machine.enqueue] at performed
    split at performed
    · cases performed
    · cases performed; exact ⟨rfl, rfl⟩
    · exact calm_undelivered (Option.some.inj performed)
  | checkUsed =>
    cases performed
    split <;> exact ⟨rfl, rfl⟩
  | drain =>
    simp only [perform, Machine.drain] at performed
    split at performed <;> cases performed
    have calm := calm_drain (m := { m with map := [] }) m.map
    exact ⟨calm.clock, calm.strays⟩

theorem calm_changeServer {change : Server → Option Server}
    (changed : m.changeServer p change = some next) : Calm m next := by
  unfold changeServer at changed
  split at changed
  · obtain ⟨server, _, rfl⟩ := Option.map_eq_some_iff.1 changed
    exact ⟨rfl, rfl⟩
  · cases changed

-- Who begins to stray in an event.
def straying (setup : Setup) (m : Machine) : Event → List (Option SessionId)
  | .launch t none =>
    match m.frames t with
    | .spawn s _ :: _ => if setup.settings.processQueue ≤ Connection.greatestCapacity then [] else [some s]
    | _ => []
  | .startAlone limit => if limit ≤ Connection.greatestCapacity then [] else [none]
  | _ => []

def strayed (setup : Setup) (m : Machine) : Event → List (Option SessionId)
  | .strayEnds place => m.strays.eraseIdx place
  | event => m.strays ++ m.straying setup event

-- No step of a task and nothing that the world does besides takes any time. A child strays where a start
-- breaks down.
structure Passes (setup : Setup) (m : Machine) (event : Event) (next : Machine) : Prop where
  clock : next.clock = m.clock + event.duration
  strays : next.strays = m.strayed setup event

theorem Calm.passes {made : Machine} (calm : Calm m made) (clock : next.clock = made.clock)
    (strays : next.strays = made.strays) (timeless : event.duration = 0)
    (kept : m.strayed setup event = m.strays) : Passes setup m event next :=
  ⟨by rw [clock, calm.clock, timeless]; rfl, by rw [strays, calm.strays, kept]⟩

theorem passes (moved : m.advance setup event = some next) : Passes setup m event next := by
  cases event with
  | tick milliseconds => cases moved; exact ⟨rfl, (List.append_nil _).symm⟩
  | run t =>
    obtain ⟨a, rest, made, new, _, performed, rfl⟩ := turn_cases moved
    exact (calm_perform performed).passes rfl rfl rfl (List.append_nil _)
  | launch t failure =>
    obtain ⟨a, rest, made, new, stack, taken, rfl⟩ := turn_cases moved
    cases a with
    | spawn s after =>
      cases failure with
      | some error => cases taken; exact Calm.passes ⟨rfl, rfl⟩ rfl rfl rfl (List.append_nil _)
      | none =>
        refine ⟨?_, ?_⟩ <;> simp only [spawned] at taken <;> split at taken <;> cases taken
        · rfl
        · rfl
        · rename_i begun
          simp [strayed, straying, stack, (start?_eq_some.1 begun).1, addTask, updateSession, updateTask]
        · rename_i begun
          simp [strayed, straying, stack, Nat.not_le.2 (start?_eq_none.1 begun), updateTask]
    | _ => cases taken
  | attend t attention =>
    obtain ⟨a, rest, made, new, _, taken, rfl⟩ := turn_cases moved
    cases a with
    | listen => exact (calm_attend taken).passes rfl rfl rfl (List.append_nil _)
    | _ => cases taken
  | hangUp => cases moved; exact Calm.passes ⟨rfl, rfl⟩ rfl rfl rfl (List.append_nil _)
  | release | write | watch | childReads | childWrites | inputCloses | outputCloses | childEnds =>
    simp only [advance] at moved
    exact (calm_changeServer moved).passes rfl rfl rfl (List.append_nil _)
  | connect | openSocket | receive =>
    obtain ⟨_, _, rfl⟩ := Option.map_eq_some_iff.1 moved
    exact Calm.passes ⟨rfl, rfl⟩ rfl rfl rfl (List.append_nil _)
  | startAlone limit =>
    simp only [advance] at moved
    split at moved <;> cases moved
    · rename_i begun
      exact ⟨rfl, by simp [strayed, straying, (start?_eq_some.1 begun).1]⟩
    · rename_i begun
      exact ⟨rfl, by simp [strayed, straying, Nat.not_le.2 (start?_eq_none.1 begun)]⟩
  | call | incoming | collect =>
    simp only [advance] at moved
    split at moved <;> cases moved
    exact Calm.passes ⟨rfl, rfl⟩ rfl rfl rfl (List.append_nil _)
  | strayEnds place =>
    simp only [advance] at moved
    split at moved <;> cases moved
    exact ⟨rfl, rfl⟩

theorem greater_of_straying (stray : some s ∈ m.straying setup event) :
    Connection.greatestCapacity < setup.settings.processQueue := by
  unfold straying at stray
  split at stray
  · split at stray
    · split at stray
      · cases stray
      · exact Nat.not_le.1 ‹_›
    · cases stray
  · split at stray <;> simp at stray
  · cases stray

theorem Passes.mem_strays (passes : Passes setup m event next) (stray : some s ∈ next.strays) :
    some s ∈ m.strays ∨ Connection.greatestCapacity < setup.settings.processQueue := by
  rw [passes.strays] at stray
  cases event with
  | strayEnds place => exact .inl (List.mem_of_mem_eraseIdx stray)
  | _ => exact (List.mem_append.1 stray).imp_right greater_of_straying

theorem mem_strays {events : List Event} (ran : m.runs setup events = some next)
    (stray : some s ∈ next.strays) :
    some s ∈ m.strays ∨ Connection.greatestCapacity < setup.settings.processQueue := by
  induction events generalizing m with
  | nil => cases ran; exact .inl stray
  | cons event rest ih =>
    obtain ⟨middle, moved, ran⟩ := Option.bind_eq_some_iff.1 ran
    rcases ih ran with before | greater
    · exact (passes moved).mem_strays before
    · exact .inr greater

theorem clock_le (moved : m.advance setup event = some next) : m.clock ≤ next.clock := by
  rw [(passes moved).clock]
  exact Nat.le_add_right _ _

end Machine
end LanguageRelay
