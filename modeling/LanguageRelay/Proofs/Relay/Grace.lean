import LanguageRelay.Proofs.Relay.Attachment
import LanguageRelay.Proofs.Relay.Idle
namespace LanguageRelay

namespace Activity

-- The frames of a task that waits to tear the session down.
def times (s : SessionId) : Activity → Prop
  | .startTimer r _ | .awaitTimer r _ _ | .teardown r _ | .teardownUnlessUsed r => r = s
  | _ => False

end Activity

namespace Machine
variable {m made next : Machine} {setup : Setup} {event : Event} {events : List Event} {t u : TaskId}
  {s : SessionId} {c : ConnectionId} {a f : Activity} {held : SessionId → Custody}
  {rest new : List Activity}

-- A timer for the epoch `epoch` of the session is started at `made`, after the events `earlier`.
structure Timer (setup : Setup) (t : TaskId) (s : SessionId) (epoch : Nat) (earlier : List Event)
    (made : Machine) : Prop where
  reached : initial.runs setup earlier = some made
  stack : ∃ rest, made.frames t = .startTimer s epoch :: rest
  planned : epoch ≤ (made.session s).epoch

-- The course of an idle teardown: the timer is started at `made`, the epochs are compared at `compared`.
structure Course (setup : Setup) (events : List Event) (t : TaskId) (s : SessionId) where
  earlier : List Event
  waiting : List Event
  holding : List Event
  epoch : Nat
  made : Machine
  compared : Machine
  split : events = earlier ++ .run t :: (waiting ++ .run t :: holding)
  timer : Timer setup t s epoch earlier made
  waited : made.runs setup (.run t :: waiting) = some compared
  due : ∃ rest, compared.frames t = .teardown s epoch :: rest
  current : (compared.session s).epoch = epoch

-- What there is behind the frame of a task that waits to tear the session down.
inductive Waits (setup : Setup) (events : List Event) (m : Machine) (t : TaskId) (s : SessionId) :
    Activity → Prop where
  | planned {epoch} : epoch ≤ (m.session s).epoch → Waits setup events m t s (.startTimer s epoch)
  | waiting {epoch earlier made deadline} (since : List Event) : Timer setup t s epoch earlier made →
      events = earlier ++ .run t :: since → Waits setup events m t s (.awaitTimer s epoch deadline)
  | due {epoch earlier made} (since : List Event) : Timer setup t s epoch earlier made →
      events = earlier ++ .run t :: since → Waits setup events m t s (.teardown s epoch)
  | deciding : Nonempty (Course setup events t s) → Waits setup events m t s (.teardownUnlessUsed s)

theorem Move.epoch (move : Move m t a held new) (s : SessionId) :
    (held s).epoch = (m.custody s).epoch ∨
    (∃ c, a = .newEpoch s c) ∧ (held s).epoch = (m.custody s).epoch + 1 := by
  cases move with
  | plain _ use _ =>
    cases use with
    | same same => exact .inl (by rw [same])
    | renewed changed =>
      rcases update_cases changed s with ⟨rfl, here⟩ | ⟨_, same⟩
      · exact .inr ⟨⟨_, rfl⟩, by rw [here]⟩
      · exact .inl (by rw [same])
    | attached _ changed | detached changed | removed changed | cleared changed =>
      rcases update_cases changed s with ⟨rfl, here⟩ | ⟨_, same⟩
      · exact .inl (by rw [here])
      · exact .inl (by rw [same])
  | finishing _ _ same | finished _ _ same | awaited _ same | refused _ same _ =>
    exact .inl (by rw [same])
  | vacated _ _ _ changed | vacant _ _ changed | outlived _ _ _ changed | locked _ _ changed
  | stopped _ _ changed | taken _ changed | released _ _ changed | begun _ changed
  | closed changed =>
    rcases update_cases changed s with ⟨rfl, here⟩ | ⟨_, same⟩
    · exact .inl (by rw [here])
    · exact .inl (by rw [same])

theorem Transition.epoch (transition : Transition m event next) (s : SessionId) :
    (next.custody s).epoch = (m.custody s).epoch ∨
    (∃ t c rest, event.task? = some t ∧ m.frames t = .newEpoch s c :: rest) ∧
      (next.custody s).epoch = (m.custody s).epoch + 1 := by
  cases transition with
  | turned step turned =>
    rcases turned.move.epoch s with same | ⟨⟨c, rfl⟩, more⟩
    · exact .inl same
    · exact .inr ⟨⟨_, c, _, step, turned.stack⟩, more⟩
  | started _ started =>
    rcases update_cases started.custody s with ⟨rfl, same⟩ | ⟨_, same⟩ <;> exact .inl (by rw [same])
  | ambient _ ambient => exact .inl (by rw [ambient.custody])

theorem Transition.unused (transition : Transition m event next)
    (unused : (m.custody s).subscribers = []) :
    (next.custody s).subscribers = [] ∨ ∃ t c, Step.Inserts ⟨m, event, next⟩ s t c := by
  cases after : (next.custody s).subscribers with
  | nil => exact .inl rfl
  | cons c others =>
    have fresh : c ∉ (m.custody s).subscribers := by rw [unused]; simp
    rcases transition.joins (after ▸ List.mem_cons_self) with old | ⟨t, rest, step, stack⟩
    · exact absurd old fresh
    · exact .inr ⟨t, c, step, ⟨rest, stack⟩, fresh⟩

theorem Sound.unused_iff (sound : Sound m) (ran : m.runs setup events = some next) :
    ((∀ step ∈ m.steps setup events, (step.before.session s).subscribers = []) ∧
      (next.session s).subscribers = []) ↔
    (m.session s).subscribers = [] ∧ ∀ step ∈ m.steps setup events, ∀ u c, ¬ step.Inserts s u c := by
  refine sound.induction (motive := fun taken now =>
    ((∀ step ∈ taken, (step.before.session s).subscribers = []) ∧ (now.session s).subscribers = []) ↔
      (m.session s).subscribers = [] ∧ ∀ step ∈ taken, ∀ u c, ¬ step.Inserts s u c) ran (by simp) ?_
  intro taken before event after sound moved ih
  simp only [List.forall_mem_append, List.forall_mem_singleton]
  constructor
  · rintro ⟨⟨earlier, now⟩, unused⟩
    obtain ⟨start, none⟩ := ih.1 ⟨earlier, now⟩
    refine ⟨start, none, fun u c inserts => ?_⟩
    have subscribed := (inserts.after sound moved).1
    rw [unused] at subscribed; cases subscribed
  · rintro ⟨start, none, last⟩
    obtain ⟨earlier, now⟩ := ih.2 ⟨start, none⟩
    refine ⟨⟨earlier, now⟩, ?_⟩
    rcases (advance_transition sound.present moved).1.unused now with unused | ⟨t, c, inserts⟩
    · exact unused
    · exact absurd inserts (last t c)

-- What is behind a frame stays behind it while other things happen.
theorem Waits.onward (waits : Waits setup events m t s f)
    (transition : Transition m event next) : Waits setup (events ++ [event]) next t s f := by
  cases waits with
  | planned known =>
    have epoch : (next.session s).epoch = (m.session s).epoch ∨
        (next.session s).epoch = (m.session s).epoch + 1 :=
      (transition.epoch s).imp_right And.right
    exact .planned (by omega)
  | waiting since timer split =>
    exact .waiting (since ++ [event]) timer (by simp [split])
  | due since timer split =>
    exact .due (since ++ [event]) timer (by simp [split])
  | deciding course =>
    obtain ⟨course⟩ := course
    exact .deciding ⟨{ course with
      holding := course.holding ++ [event]
      split := by simp [course.split] }⟩

theorem Waits.stems {made : Machine} (ran : initial.runs setup events = some m)
    (graced : setup.settings.idleTimeout ≠ 0) (stack : m.frames t = a :: rest)
    (waits : ∀ s, a.times s → Waits setup events m t s a) (taken : Takes setup m t a made new)
    (added : f ∈ new) (stems : Stems m a f) (times : f.times s) :
    Waits setup (events ++ [Event.run t]) next t s f := by
  cases f with
  | startTimer r epoch => cases stems
  | awaitTimer r epoch deadline =>
    cases times
    cases (show a = .startTimer s epoch from stems)
    cases waits s rfl with
    | planned known => exact .waiting [] ⟨ran, ⟨rest, stack⟩, known⟩ rfl
  | teardown r epoch =>
    cases times
    rcases (show a = .planTeardown s ∨ ∃ deadline, a = .awaitTimer s epoch deadline from stems) with
      rfl | ⟨deadline, rfl⟩
    -- A teardown without a timer is planned only when there is no grace.
    · cases taken with
      | performs performed =>
        simp only [perform, Machine.planTeardown, if_neg graced] at performed
        cases performed; cases added
    · cases waits s rfl with
      | waiting since timer split =>
        exact .due (since ++ [Event.run t]) timer (by simp [split])
  | teardownUnlessUsed r =>
    cases times
    obtain ⟨epoch, rfl⟩ : ∃ epoch, a = .teardown s epoch := stems
    cases waits s rfl with
    | @due _ earlier made since timer split =>
      cases taken with
      | performs performed =>
        simp only [perform, Machine.teardown] at performed
        split at performed
        · cases performed
        · split at performed <;> rename_i current <;> cases performed
          · refine .deciding ⟨⟨earlier, since, [], epoch, made, m, by simp [split], timer, ?_,
              ⟨rest, stack⟩, current⟩⟩
            rw [split, runs_append, timer.reached] at ran
            exact ran
          · cases added
  | _ => cases times

def patient : Setup := { oneKey with settings := { oneKey.settings with idleTimeout := 100 } }

end Machine
end LanguageRelay
