import Mathlib.Data.List.Induction
import LanguageRelay.Proofs.Relay.SingleServer
namespace LanguageRelay.Machine
variable {m made next : Machine} {setup : Setup} {event : Event} {events : List Event}

structure Step where
  before : Machine
  event : Event
  after : Machine

def steps (setup : Setup) (m : Machine) : List Event → List Step
  | [] => []
  | event :: rest =>
    match m.advance setup event with
    | some next => ⟨m, event, next⟩ :: next.steps setup rest
    | none => []

theorem runs_append (first second : List Event) :
    m.runs setup (first ++ second) = (m.runs setup first).bind fun made => made.runs setup second := by
  induction first generalizing m with
  | nil => rfl
  | cons event rest ih =>
    simp only [List.cons_append, runs, Option.bind_assoc]
    exact Option.bind_congr fun made _ => ih

theorem runs_concat (ran : m.runs setup (events ++ [event]) = some next) :
    ∃ made, m.runs setup events = some made ∧ made.advance setup event = some next := by
  rw [runs_append] at ran
  obtain ⟨made, first, last⟩ := Option.bind_eq_some_iff.1 ran
  obtain ⟨_, moved, done⟩ := Option.bind_eq_some_iff.1 last
  cases done
  exact ⟨made, first, moved⟩

theorem steps_append (ran : m.runs setup events = some made) (more : List Event) :
    m.steps setup (events ++ more) = m.steps setup events ++ made.steps setup more := by
  induction events generalizing m with
  | nil => cases ran; rfl
  | cons event rest ih =>
    obtain ⟨middle, moved, ran⟩ := Option.bind_eq_some_iff.1 ran
    simp only [List.cons_append, steps, moved]
    rw [ih ran]

theorem steps_concat (ran : m.runs setup events = some made)
    (moved : made.advance setup event = some next) :
    m.steps setup (events ++ [event]) = m.steps setup events ++ [⟨made, event, next⟩] := by
  rw [steps_append ran]
  simp only [steps, moved]

theorem mem_steps (ran : m.runs setup events = some made)
    (moved : made.advance setup event = some next) (later : List Event) :
    ⟨made, event, next⟩ ∈ m.steps setup (events ++ event :: later) := by
  rw [steps_append ran]
  simp only [steps, moved]
  exact List.mem_append_right _ List.mem_cons_self

-- What holds at the start of a run and is kept by each of its steps holds at its end.
theorem Sound.induction {motive : List Step → Machine → Prop} (sound : Sound m)
    (ran : m.runs setup events = some next) (start : motive [] m)
    (onward : ∀ taken before event after, Sound before → before.advance setup event = some after →
      motive taken before → motive (taken ++ [⟨before, event, after⟩]) after) :
    motive (m.steps setup events) next := by
  induction events using List.reverseRecOn generalizing next with
  | nil => cases ran; exact start
  | append_singleton events event ih =>
    obtain ⟨made, first, moved⟩ := runs_concat ran
    rw [steps_concat first moved]
    exact onward _ made event next (sound.runs first) moved (ih first)

end LanguageRelay.Machine
