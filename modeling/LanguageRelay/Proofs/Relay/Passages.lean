import LanguageRelay.Proofs.Relay.Register
namespace LanguageRelay.Machine

-- The frames that a start puts into its own task and into the two that look after the server.
def startFrames (m : Machine) (s : SessionId) (after : AfterStart) : List Activity :=
  [.setState s .running, .broadcast s (m.stateEvent s .running), .started s after m.servers.length,
    .pump s m.servers.length, .awaitExit s (m.custody s).generation m.servers.length]

-- Where a frame comes from that a task has after a step.
inductive Arises (setup : Setup) (m : Machine) (event : Event) (u : TaskId) (f : Activity) :
    Prop where
  | kept : f ∈ m.frames u → Arises setup m event u f
  | stems {a rest made new} : event.task? = some u → m.frames u = a :: rest →
      Takes setup m u a made new → f ∈ new → Stems m a f → Arises setup m event u f
  | begins {t a rest} : event.task? = some t → m.frames t = a :: rest → m.tasks.length ≤ u →
      Begins m a f → Arises setup m event u f
  | starts {t s after rest} : event = .launch t none → m.frames t = .spawn s after :: rest →
      f ∈ m.startFrames s after → Arises setup m event u f
  | asked {operation} : event = .call operation → u = m.tasks.length → f ∈ operation.frames →
      Arises setup m event u f
  | opened {key} : event = .openSocket key → m.tasks.length ≤ u → f ∈ m.socketFrames key →
      Arises setup m event u f

variable {m made next : Machine} {setup : Setup} {event : Event} {events : List Event} {t u : TaskId}
  {s : SessionId} {a f : Activity} {above below rest : List Activity}

theorem Sound.arises (sound : Sound m) (moved : m.advance setup event = some next)
    (member : f ∈ next.frames u) : Arises setup m event u f := by
  cases sound.happens moved with
  | @turned t a rest made new step turned taken leaves shape =>
    by_cases here : u = t
    · subst u
      rw [turned.replaced] at member
      rcases List.mem_append.1 member with added | under
      · exact .stems step turned.stack taken added (leaves.stems f added)
      · exact .kept (turned.stack ▸ List.mem_cons_of_mem _ under)
    · rcases turned.elsewhere u here with kept | ⟨beyond, _⟩ | ⟨_, broken⟩
      · exact .kept (kept ▸ member)
      · rw [shape, frames_updateTask, if_neg fun both => here both.1] at member
        exact .begins step turned.stack beyond (taken.begins beyond member)
      · rw [broken] at member; cases member
  | @started t s after rest launch started launches =>
    by_cases here : u = t
    · subst u
      rw [launches.replaced] at member
      simp only [List.mem_cons] at member
      rcases member with rfl | rfl | rfl | under
      · exact .starts launch started.stack (by simp [startFrames])
      · exact .starts launch started.stack (by simp [startFrames])
      · exact .starts launch started.stack (by simp [startFrames])
      · exact .kept (started.stack ▸ List.mem_cons_of_mem _ under)
    · by_cases pump : u = m.tasks.length
      · rw [pump, started.pump] at member
        exact .starts launch started.stack (by rw [List.mem_singleton.1 member]; simp [startFrames])
      · by_cases awaits : u = m.tasks.length + 1
        · rw [awaits, started.awaitExit] at member
          exact .starts launch started.stack (by rw [List.mem_singleton.1 member]; simp [startFrames])
        · rw [started.elsewhere u here pump awaits] at member
          exact .kept member
  | ambient outside ambient =>
    rcases ambient.elsewhere u with kept | ⟨beyond, _⟩ | ⟨_, broken⟩
    · exact .kept (kept ▸ member)
    · rcases (World.of_advance outside moved).begins u beyond f member with
        ⟨operation, asked, first, inside⟩ | ⟨key, opened, inside⟩
      · exact .asked asked first inside
      · exact .opened opened beyond inside
    · rw [broken] at member; cases member

-- A frame that no task begins with and no start brings about was there, or stems from the one on top.
theorem Arises.inner (arises : Arises setup m event u f) (inner : f.isEntry = false)
    (unstarted : ∀ s after, f ∉ m.startFrames s after) :
    f ∈ m.frames u ∨ ∃ a rest made new, event.task? = some u ∧ m.frames u = a :: rest ∧
      Takes setup m u a made new ∧ f ∈ new ∧ Stems m a f := by
  have entered {P : Prop} (entry : f.isEntry) : P := by rw [inner] at entry; cases entry
  cases arises with
  | kept old => exact .inl old
  | stems step stack taken added stems => exact .inr ⟨_, _, _, _, step, stack, taken, added, stems⟩
  | begins _ _ _ begins =>
    rcases begins_cases begins with ⟨r, _, rfl⟩ | ⟨r, _, rfl⟩ | ⟨e, _, _, rfl⟩ <;> cases inner
  | starts _ _ member => exact absurd member (unstarted _ _)
  | @asked operation _ _ member => exact entered (entry_frames operation f member)
  | opened _ _ member =>
    simp only [socketFrames, List.mem_cons, List.not_mem_nil, or_false] at member
    rcases member with rfl | rfl | rfl | rfl <;> cases inner

-- A task breaks down only where the queue of a server is too large for a start.
theorem greater_of_broken (ran : initial.runs setup events = some m) (broken : .breakdown ∈ m.frames u) :
    Connection.greatestCapacity < setup.settings.processQueue := by
  refine sound_initial.induction (motive := fun _ now => ∀ u, .breakdown ∈ now.frames u →
    Connection.greatestCapacity < setup.settings.processQueue) ran (fun u broken => ?_) ?_ u broken
  · rw [frames_initial] at broken; cases broken
  · intro _ before event after sound moved earlier u broken
    rcases (sound.arises moved broken).inner rfl (by simp [startFrames]) with
      old | ⟨a, rest, made, new, _, _, taken, added, s, next, rfl⟩
    · exact earlier u old
    · cases taken with
      | performs performed => cases performed
      | fails failed => cases failed; simp at added
      | breaks greater => exact greater

theorem Sound.takes (sound : Sound m) (moved : m.advance setup event = some next)
    (step : event.task? = some t) (stack : m.frames t = a :: rest)
    (starts : ∀ s after, a ≠ .spawn s after) :
    ∃ made new, Takes setup m t a made new ∧ next.frames t = new ++ rest ∧
      next.session = made.session ∧
      next = made.updateTask t fun task => { task with frames := new ++ rest } := by
  cases sound.happens moved with
  | turned own turned taken _ shape =>
    cases own.symm.trans step
    cases turned.stack.symm.trans stack
    exact ⟨_, _, taken, turned.replaced, by rw [shape]; rfl, shape⟩
  | started launch started =>
    subst event
    cases step
    cases started.stack.symm.trans stack
    exact absurd rfl (starts _ _)
  | ambient outside => rw [outside] at step; cases step

theorem launch_of_spawn {after : AfterStart} (stack : m.frames t = .spawn s after :: rest)
    (step : event.task? = some t) (moved : m.advance setup event = some next) :
    ∃ failure, event = .launch t failure := by
  have stack : (m.task t).frames = .spawn s after :: rest := stack
  cases event with
  | run | attend => cases step; simp [advance, turn, stack, perform] at moved
  | launch u failure => cases step; exact ⟨failure, rfl⟩
  | _ => cases step

theorem run_of_top (stack : m.frames t = a :: rest) (step : event.task? = some t)
    (moved : m.advance setup event = some next) (starts : ∀ s after, a ≠ .spawn s after)
    (listens : ∀ k, a ≠ .listen k) : event = .run t := by
  have stack : (m.task t).frames = a :: rest := stack
  cases event with
  | run => cases step; rfl
  | launch u failure =>
    cases step
    cases a with
    | spawn => exact absurd rfl (starts _ _)
    | _ => simp [advance, turn, stack] at moved
  | attend u attention =>
    cases step
    cases a with
    | listen => exact absurd rfl (listens _)
    | _ => simp [advance, turn, stack] at moved
  | _ => cases step

theorem Transition.kept (transition : Transition m event next) (member : f ∈ m.frames u)
    (firm : ∀ k, f ≠ .forward k) :
    (event.task? = some u ∧ ∃ rest, m.frames u = f :: rest) ∨ f ∈ next.frames u := by
  cases transition with
  | turned step turned =>
    rcases turned.kept member firm with ⟨rfl, rfl⟩ | still
    · exact .inl ⟨step, _, turned.stack⟩
    · exact .inr still
  | started launch started =>
    rcases started.kept member with ⟨rfl, rfl⟩ | still
    · exact .inl ⟨launch ▸ rfl, _, started.stack⟩
    · exact .inr still
  | ambient _ ambient => exact .inr ((ambient.elsewhere u).kept member firm)

theorem Transition.stack (transition : Transition m event next) (stack : m.frames t = a :: rest)
    (firm : ¬ IsForwarder (a :: rest)) :
    (event.task? = some t ∧ ∃ new, next.frames t = new ++ rest) ∨
    event.task? ≠ some t ∧ next.frames t = a :: rest := by
  have there : t < m.tasks.length := lt_of_mem_frames (stack ▸ List.mem_cons_self)
  have kept : Elsewhere m next t → next.frames t = a :: rest := by
    rintro (same | ⟨beyond, _⟩ | ⟨broken, _⟩)
    · rw [same, stack]
    · exact absurd there (Nat.not_lt_of_le beyond)
    · rw [stack] at broken; exact absurd broken firm
  cases transition with
  | @turned u b below new step turned =>
    by_cases here : t = u
    · subst u
      have same := turned.stack
      rw [stack] at same
      cases same
      exact .inl ⟨step, new, turned.replaced⟩
    · refine .inr ⟨?_, kept (turned.elsewhere t here)⟩
      rw [step]; exact fun same => here (Option.some.inj same).symm
  | @started u s after below launch started =>
    subst event
    by_cases here : t = u
    · subst u
      have same := started.stack
      rw [stack] at same
      cases same
      obtain ⟨inner, _, replaced⟩ := started.replaced
      exact .inl ⟨rfl, inner ++ [Activity.started s after m.servers.length], by simpa using replaced⟩
    · refine .inr ⟨fun same => here (Option.some.inj same).symm, ?_⟩
      rw [started.elsewhere t here (Nat.ne_of_lt there) (Nat.ne_of_lt (Nat.lt_succ_of_lt there)), stack]
  | ambient outside ambient =>
    exact .inr ⟨by rw [outside]; simp, kept (ambient.elsewhere t)⟩

theorem Transition.idle (transition : Transition m event next) (there : t < m.tasks.length)
    (idle : m.frames t = []) : next.frames t = [] ∧ event.task? ≠ some t := by
  have still : Elsewhere m next t → next.frames t = [] := by
    rintro (same | ⟨beyond, _⟩ | ⟨_, broken⟩)
    · exact same.trans idle
    · exact absurd there (Nat.not_lt_of_le beyond)
    · exact broken
  cases transition with
  | @turned u b below new step turned =>
    have other : t ≠ u := by
      rintro rfl
      rw [turned.stack] at idle; cases idle
    exact ⟨still (turned.elsewhere t other), fun same => other (Option.some.inj (same.symm.trans step))⟩
  | @started u s after below launch started =>
    have other : t ≠ u := by
      rintro rfl
      rw [started.stack] at idle; cases idle
    subst event
    refine ⟨?_, fun same => other (Option.some.inj same).symm⟩
    rw [started.elsewhere t other (Nat.ne_of_lt there) (Nat.ne_of_lt (Nat.lt_succ_of_lt there)), idle]
  | ambient outside ambient =>
    exact ⟨still (ambient.elsewhere t), by rw [outside]; simp⟩

-- A task takes up the frames `stack` in the course of a run: the run up to there, the step and the
-- rest of the run.
structure Passage (setup : Setup) (m : Machine) (events : List Event) (next : Machine) (t : TaskId)
    (stack : List Activity) where
  first : List Event
  before : Machine
  event : Event
  after : Machine
  second : List Event
  split : events = first ++ event :: second
  reached : m.runs setup first = some before
  stack : before.frames t = stack
  step : event.task? = some t
  moved : before.advance setup event = some after
  onward : after.runs setup second = some next

def Passage.later (passage : Passage setup made events next t rest)
    (moved : m.advance setup event = some made) : Passage setup m (event :: events) next t rest where
  __ := passage
  first := event :: passage.first
  split := congrArg (event :: ·) passage.split
  reached := by rw [runs, moved]; exact passage.reached

-- The step that takes the frame up, with what is known of the machine on both sides of it.
theorem Passage.takes (passage : Passage setup m events next t (f :: below)) (sound : Sound m)
    (starts : ∀ s after, f ≠ .spawn s after) :
    Sound passage.before ∧ Sound passage.after ∧
    ∃ made new, Takes setup passage.before t f made new ∧ passage.after.frames t = new ++ below := by
  have sound := sound.runs passage.reached
  obtain ⟨made, new, taken, replaced, _⟩ :=
    sound.takes passage.moved passage.step passage.stack starts
  exact ⟨sound, sound.advance passage.moved, made, new, taken, replaced⟩

-- Whatever the task did above the frame, it comes to the frame before it comes to what is below.
theorem Sound.passes (sound : Sound m) (above : List Activity)
    (ran : m.runs setup events = some next) (stack : m.frames t = above ++ f :: below)
    (firm : ∀ k, f ≠ .forward k) (returned : next.frames t = below) :
    Nonempty (Passage setup m events next t (f :: below)) := by
  have still (above : List Activity) : ¬ IsForwarder (above ++ f :: below) := by
    intro forwards
    obtain ⟨k, same⟩ := forwards f (by simp)
    exact firm k same
  induction events generalizing m above with
  | nil =>
    cases ran
    have short := congrArg List.length (stack.symm.trans returned)
    simp only [List.length_append, List.length_cons] at short
    omega
  | cons event rest ih =>
    obtain ⟨after, moved, onward⟩ := Option.bind_eq_some_iff.1 ran
    have transition := (advance_transition sound.present moved).1
    have later (above : List Activity) (stack : after.frames t = above ++ f :: below) :
        Nonempty (Passage setup m (event :: rest) next t (f :: below)) :=
      (ih (sound.advance moved) above onward stack).map fun passage => passage.later moved
    cases above with
    | nil =>
      rcases transition.stack stack (still []) with ⟨step, _⟩ | ⟨_, kept⟩
      · exact ⟨⟨[], m, event, after, rest, rfl, rfl, stack, step, moved, onward⟩⟩
      · exact later [] kept
    | cons b above =>
      rcases transition.stack stack (still (b :: above)) with ⟨_, new, replaced⟩ | ⟨_, kept⟩
      · refine later (new ++ above) ?_
        rw [List.append_assoc]; exact replaced
      · exact later (b :: above) kept

end LanguageRelay.Machine
