import LanguageRelay.Proofs.Relay.Exits
namespace LanguageRelay

open SessionState

namespace Machine

def Holds (m : Machine) (s : SessionId) (p : ServerId) : Prop :=
  ∃ slot, (m.session s).slot = some slot ∧ slot.server = p

-- Some task waits for the exit of the server in the slot, or brings it to the session.
def Awaits (m : Machine) (s : SessionId) : Prop :=
  ∃ slot u, (m.session s).slot = some slot ∧
    (.awaitExit s slot.generation slot.server ∈ m.frames u ∨
      ∃ exit, .vacate s slot.generation exit ∈ m.frames u)

namespace Step

-- The step takes the server out of the slot.
def TakesOut (step : Step) (s : SessionId) (p : ServerId) : Prop :=
  step.before.Holds s p ∧ ¬ step.after.Holds s p

-- The state of the session stays, changes along an edge, or is set to stopped by a task that has closed
-- the session and will clear it.
def Follows (step : Step) (s : SessionId) : Prop :=
  (step.after.session s).state = (step.before.session s).state ∨
  Edge (step.before.session s).state (step.after.session s).state ∨
  ((step.after.session s).state = .stopped ∧ (step.before.session s).closed = true ∧
    ∃ t, step.event.task? = some t ∧ .clear s ∈ step.before.frames t)

def Performs (step : Step) (t : TaskId) (f : Activity) : Prop :=
  step.event.task? = some t ∧ ∃ rest, step.before.frames t = f :: rest

-- The task that waits for the server, or somebody who finds it dead, goes on to set the state that the
-- end of the server calls for and to tell everyone, with the code of its child.
structure Publishes (step : Step) (s : SessionId) (p : ServerId) (t : TaskId) (exit : ServerExit) :
    Prop where
  finds : (∃ slot, (step.before.session s).slot = some slot ∧
      step.Performs t (.vacate s slot.generation exit)) ∨ ∃ after, step.Performs t (.look s after)
  own : (step.before.server p).exit = some exit
  child : (step.before.server p).child = .ended exit.code
  announces : ∃ rest, step.after.frames t = .setState s exit.state ::
    .broadcast s (.status ⟨(step.before.session s).key, exit.state, exit.code, none⟩) :: rest

-- An idle teardown, or whoever has closed the session, goes on to stop the server.
structure Withdraws (step : Step) (s : SessionId) (p : ServerId) : Prop where
  finds : ∃ t, (step.Performs t (.teardownUnlessUsed s) ∧ (step.before.session s).subscribers = [] ∨
    step.Performs t (.takeSlot s) ∧ (step.before.session s).closed = true) ∧
    ∃ grace rest, step.after.frames t = .stop p grace :: .setState s .stopped :: rest

-- A task that brings the exit of an earlier server changes no session and goes on to nothing.
def Spares (step : Step) : Prop := ∀ t s g exit, step.Performs t (.vacate s g exit) →
  (∀ slot, (step.before.session s).slot = some slot → slot.generation ≠ g) →
  step.after.sessions = step.before.sessions ∧
    .vacate s g exit :: step.after.frames t = step.before.frames t

end Step

-- The end of a server has been made known in a step; what that calls for is done or still to be done.
def Published (m : Machine) (step : Step) (later : List Step) (s : SessionId) (p : ServerId) : Prop :=
  ∃ t exit, step.Publishes s p t exit ∧
    ∀ f ∈ step.before.publish s exit, f ∈ m.frames t ∨ ∃ other ∈ later, other.Performs t f

variable {m made next : Machine} {setup : Setup} {event : Event} {events : List Event} {t u : TaskId}
  {s r : SessionId} {p q : ServerId} {a f : Activity} {rest new : List Activity} {taken : List Step}

theorem Happens.kept (happens : Happens setup m event next) (member : f ∈ m.frames u)
    (part : ∀ k, f ≠ .forward k) : f ∈ next.frames u ∨ Step.Performs ⟨m, event, next⟩ u f := by
  cases happens with
  | turned step turned _ _ _ =>
    rcases turned.kept member part with ⟨rfl, rfl⟩ | after
    · exact .inr ⟨step, _, turned.stack⟩
    · exact .inl after
  | started launch started _ =>
    rcases started.kept member with ⟨rfl, rfl⟩ | after
    · exact .inr ⟨by rw [launch]; rfl, _, started.stack⟩
    · exact .inl after
  | ambient _ ambient _ => exact .inl ((ambient.elsewhere u).kept member part)

theorem Published.later {step : Step} {later : List Step} (published : m.Published step later s p)
    (happens : Happens setup m event next) :
    next.Published step (later ++ [⟨m, event, next⟩]) s p := by
  obtain ⟨t, exit, publishes, done⟩ := published
  refine ⟨t, exit, publishes, fun f member => ?_⟩
  rcases done f member with waiting | ⟨other, among, performs⟩
  · have part : ∀ k, f ≠ .forward k := by
      rintro k rfl; simp [publish] at member
    rcases happens.kept waiting part with still | performs
    · exact .inl still
    · exact .inr ⟨_, List.mem_append_right _ (List.mem_singleton.2 rfl), performs⟩
  · exact .inr ⟨other, List.mem_append_left _ among, performs⟩

theorem Step.Publishes.not_withdraws {step : Step} {exit : ServerExit}
    (publishes : step.Publishes s p t exit) : ¬ step.Withdraws s p := by
  rintro ⟨u, withdraws, _⟩
  have one : ∀ {f g : Activity}, step.Performs t f → step.Performs u g → f = g := by
    rintro f g ⟨task, _, stack⟩ ⟨other, _, also⟩
    rw [task] at other
    cases other
    rw [stack] at also
    exact (List.cons.inj also).1
  rcases publishes.finds with ⟨slot, _, performs⟩ | ⟨after, performs⟩ <;>
    rcases withdraws with ⟨other, _⟩ | ⟨other, _⟩ <;> exact nomatch one performs other

theorem Holds.lt (sound : Sound m) (holds : m.Holds s p) : p < m.servers.length := by
  obtain ⟨slot, occupied, rfl⟩ := holds
  apply Nat.lt_of_not_le
  intro beyond
  have owned := sound.accounted.owned s slot occupied
  rw [fate_of_length_le beyond] at owned
  cases owned

theorem Happens.holds (happens : Happens setup m event next) (holds : next.Holds s p) :
    m.Holds s p ∨ p = m.servers.length := by
  obtain ⟨slot, occupied, rfl⟩ := holds
  cases happens with
  | turned _ turned _ _ _ =>
    rcases turned.move.slot s with same | ⟨empty, _⟩
    · exact .inl ⟨slot, same.symm.trans occupied, rfl⟩
    · cases empty.symm.trans occupied
  | started _ started _ =>
    rcases started.slot occupied with ⟨_, rfl⟩ | ⟨_, before⟩
    · exact .inr rfl
    · exact .inl ⟨slot, before, rfl⟩
  | ambient _ ambient _ =>
    have same : (next.custody s).slot = (m.custody s).slot := by rw [ambient.custody]
    exact .inl ⟨slot, same.symm.trans occupied, rfl⟩

theorem Happens.session (happens : Happens setup m event next)
    (owned : (next.server p).session = some s) :
    (m.server p).session = some s ∨ p = m.servers.length ∧ next.Holds s p := by
  cases happens with
  | turned _ turned _ _ _ => exact .inl (congrFun turned.fate p ▸ owned : (m.fate p).session = some s)
  | started _ started _ =>
    rename_i t r after rest
    have fate : (next.fate p).session = some s := owned
    rw [started.fate] at fate
    by_cases here : p = m.servers.length
    · rw [here, Function.update_self] at fate
      cases fate
      refine .inr ⟨here, ⟨(m.custody s).generation, m.servers.length⟩, ?_, here.symm⟩
      show (next.custody s).slot = _
      rw [started.custody, Function.update_self]
    · rw [Function.update_of_ne here] at fate
      exact .inl fate
  | ambient _ ambient _ => exact .inl (ambient.session p ▸ owned : (m.fate p).session = some s)

theorem takesOut_cases (stately : Stately setup m) (watched : Watched m) (sound : Sound m)
    (happens : Happens setup m event next) (takesOut : Step.TakesOut ⟨m, event, next⟩ s p) :
    next.Published ⟨m, event, next⟩ [] s p ∨ Step.Withdraws ⟨m, event, next⟩ s p := by
  obtain ⟨⟨slot, occupied, rfl⟩, gone⟩ := takesOut
  have left : (next.custody s).slot ≠ (m.custody s).slot :=
    fun same => gone ⟨slot, same.trans occupied, rfl⟩
  have published : ∀ {t exit last}, event.task? = some t →
      next.frames t = m.publish s exit ++ last → (m.server slot.server).exit = some exit →
      ((∃ slot, (m.session s).slot = some slot ∧
        Step.Performs ⟨m, event, next⟩ t (.vacate s slot.generation exit)) ∨
        ∃ after, Step.Performs ⟨m, event, next⟩ t (.look s after)) →
      next.Published ⟨m, event, next⟩ [] s slot.server := by
    intro t exit last task frames ended finds
    refine ⟨t, exit, ⟨finds, ended, (watched.recorded _ exit ended).2, last, frames⟩, fun f member => ?_⟩
    left; rw [frames]; exact List.mem_append_left _ member
  cases happens with
  | @turned t a rest made new task turned taken leaves shape =>
    have top : a ∈ m.frames t := turned.stack ▸ List.mem_cons_self
    have shifts := turned.shifts sound taken shape s
    generalize held : next.custody s = custody at shifts
    rw [held] at left
    cases shifts with
    | vacated _ found own =>
      cases occupied.symm.trans found
      subst own
      refine .inl (published task (turned.replaced.trans (List.append_assoc ..))
        (watched.own t s _ _ slot top occupied rfl) (.inl ⟨slot, occupied, task, rest, turned.stack⟩))
    | outlived _ found ended =>
      cases occupied.symm.trans found
      exact .inl (published task (turned.replaced.trans (List.append_assoc ..)) ended
        (.inr ⟨_, task, rest, turned.stack⟩))
    | stopped unused found =>
      cases occupied.symm.trans found
      exact .inr ⟨t, .inl ⟨⟨task, rest, turned.stack⟩, unused⟩, _, _, turned.replaced⟩
    | taken _ stops =>
      rcases stops with ⟨empty, _⟩ | ⟨other, grace, found, rfl⟩
      · cases occupied.symm.trans empty
      · cases occupied.symm.trans found
        exact .inr ⟨t, .inr ⟨⟨task, rest, turned.stack⟩, sound.accounted.closing t s top⟩, _, _,
          turned.replaced⟩
    | aside _ _ same => exact absurd same left
    | _ => exact absurd rfl left
  | started launch started launches =>
    rcases update_cases started.custody s with ⟨rfl, _⟩ | ⟨_, same⟩
    · have empty : (m.custody s).slot = none := by
        rcases stately.phase s with orderly | shut
        · exact (orderly.top sound stately.tied started.stack rfl).2.1.1
        · exact shut.empty
      cases occupied.symm.trans empty
    · exact absurd (by rw [same]) left
  | ambient _ ambient _ => exact absurd (by rw [ambient.custody]) left

structure Ends (m : Machine) (taken : List Step) : Prop where
  known : ∀ step ∈ taken, ∀ s p, step.before.Holds s p → p < m.servers.length
  ended : ∀ s p, (m.server p).session = some s →
    (m.Holds s p ∧ ∀ step ∈ taken, ¬ step.TakesOut s p) ∨
    (¬ m.Holds s p ∧ ∃ front step back, taken = front ++ step :: back ∧ step.TakesOut s p ∧
      (∀ other ∈ front ++ back, ¬ other.TakesOut s p) ∧
      (m.Published step back s p ∨ step.Withdraws s p))

theorem Ends.advance (ends : Ends m taken) (stately : Stately setup m) (watched : Watched m)
    (sound : Sound m) (happens : Happens setup m event next) :
    Ends next (taken ++ [⟨m, event, next⟩]) := by
  have more := happens.length_servers
  refine ⟨fun step member s p holds => ?_, fun s p owned => ?_⟩
  · rcases List.mem_append.1 member with old | last
    · exact Nat.lt_of_lt_of_le (ends.known step old s p holds) more
    · cases List.mem_singleton.1 last
      exact Nat.lt_of_lt_of_le (holds.lt sound) more
  · rcases happens.session owned with before | ⟨rfl, holds⟩
    · rcases ends.ended s p before with ⟨holds, stays⟩ | ⟨gone, front, step, back, rfl, out, once, how⟩
      · by_cases still : next.Holds s p
        · refine .inl ⟨still, fun step member => ?_⟩
          rcases List.mem_append.1 member with old | last
          · exact stays step old
          · cases List.mem_singleton.1 last
            exact fun takesOut => takesOut.2 still
        · refine .inr ⟨still, taken, _, [], rfl, ⟨holds, still⟩, ?_,
            takesOut_cases stately watched sound happens ⟨holds, still⟩⟩
          rw [List.append_nil]
          exact stays
      · have gone_ : ¬ next.Holds s p := by
          intro again
          rcases happens.holds again with holds | rfl
          · exact gone holds
          · rw [server_of_length_le (Nat.le_refl _)] at before
            cases before
        refine .inr ⟨gone_, front, step, back ++ [⟨m, event, next⟩], by simp, out, fun other member => ?_,
          how.imp_left fun published => published.later happens⟩
        rw [← List.append_assoc] at member
        rcases List.mem_append.1 member with old | last
        · exact once other old
        · cases List.mem_singleton.1 last
          exact fun takesOut => gone takesOut.1
    · refine .inl ⟨holds, fun step member takesOut => ?_⟩
      rcases List.mem_append.1 member with old | last
      · exact absurd (ends.known step old s _ takesOut.1) (Nat.lt_irrefl _)
      · cases List.mem_singleton.1 last
        exact absurd (takesOut.1.lt sound) (Nat.lt_irrefl _)

-- Whoever waits for the end of an earlier server finds another one in the slot, or none, and goes.
theorem Happens.spares (happens : Happens setup m event next) : Step.Spares ⟨m, event, next⟩ := by
  intro t s g exit performs other
  obtain ⟨task, rest, stack⟩ := performs
  cases happens with
  | turned step turned taken leaves shape =>
    cases task.symm.trans step
    cases stack.symm.trans turned.stack
    rw [turned.replaced, turned.stack, shape]
    cases taken with
    | performs performed =>
      simp only [perform, Machine.vacate] at performed
      split at performed
      · cases performed
      · split at performed <;> rename_i own <;> cases performed
        · obtain ⟨slot, found, same⟩ := (Option.any_eq_true _ _).1 own
          exact absurd (beq_iff_eq.1 same) (other slot found)
        · exact ⟨rfl, rfl⟩
  | started launch started _ =>
    subst launch
    cases task
    cases stack.symm.trans started.stack
  | ambient world _ _ =>
    rw [world] at task; cases task

structure Chronicle (setup : Setup) (m : Machine) (taken : List Step) : Prop where
  stately : Stately setup m
  watched : Watched m
  ends : Ends m taken
  follows : ∀ step ∈ taken, ∀ s, step.Follows s
  spares : ∀ step ∈ taken, step.Spares

theorem Chronicle.advance (chronicle : Chronicle setup m taken) (sound : Sound m)
    (happens : Happens setup m event next) : Chronicle setup next (taken ++ [⟨m, event, next⟩]) := by
  refine ⟨chronicle.stately.advance sound happens, chronicle.watched.advance sound happens,
    chronicle.ends.advance chronicle.stately chronicle.watched sound happens,
    fun step member s => ?_, fun step member => ?_⟩
  · rcases List.mem_append.1 member with old | last
    · exact chronicle.follows step old s
    · cases List.mem_singleton.1 last
      exact chronicle.stately.change happens
  · rcases List.mem_append.1 member with old | last
    · exact chronicle.spares step old
    · cases List.mem_singleton.1 last
      exact happens.spares

theorem Chronicle.runs (ran : initial.runs setup events = some m) :
    Chronicle setup m (initial.steps setup events) := by
  refine sound_initial.induction (motive := fun taken now => Chronicle setup now taken) ran
    ⟨stately_initial, watched_initial, ⟨by simp, fun s p owned => nomatch owned⟩, by simp, by simp⟩ ?_
  intro taken before event after sound moved chronicle
  exact chronicle.advance sound (sound.happens moved)

-- The state of a session changes along the edges alone, unless somebody shuts the session down. While the
-- lock is free and the session is open, it runs exactly when there is a server in the slot, and it is
-- starting only where the queue of a server is too large for a start. A server that a session has started
-- is in the slot, and its exit awaited, until one step of the run takes it out. Then its end is made known,
-- unless that was an idle teardown or a shutdown; nothing comes of it later.
theorem session_states (ran : initial.runs setup events = some m) :
    (∀ step ∈ initial.steps setup events, ∀ s, step.Follows s) ∧
    (∀ s, (m.session s).lock = none → (m.session s).closed = false →
      ((m.session s).state = .running ↔ (m.session s).slot ≠ none) ∧
        ((m.session s).state = .starting →
          Connection.greatestCapacity < setup.settings.processQueue)) ∧
    (∀ s p, (m.server p).session = some s →
      (m.Holds s p ∧ m.Awaits s ∧ ∀ step ∈ initial.steps setup events, ¬ step.TakesOut s p) ∨
      (¬ m.Holds s p ∧ ∃ front step back,
        initial.steps setup events = front ++ step :: back ∧ step.TakesOut s p ∧
        (∀ other ∈ front ++ back, ¬ other.TakesOut s p) ∧
        (m.Published step back s p ↔ ¬ step.Withdraws s p))) ∧
    ∀ step ∈ initial.steps setup events, step.Spares := by
  have chronicle := Chronicle.runs ran
  refine ⟨chronicle.follows, fun s free isOpen => ?_, fun s p owned => ?_, chronicle.spares⟩
  · obtain ⟨occupied, empty⟩ := chronicle.stately.settled free isOpen
    by_cases none : (m.session s).slot = none
    · rcases empty none with stopped | crashed | ⟨starting, greater⟩
      · rw [state] at stopped
        simp [none, stopped]
      · rw [state] at crashed
        simp [none, crashed]
      · rw [state] at starting
        simp [none, starting, greater]
    · have running := occupied none
      rw [state] at running
      simp [none, running]
  · rcases chronicle.ends.ended s p owned with ⟨holds, stays⟩ |
      ⟨gone, front, step, back, split, out, once, how⟩
    · obtain ⟨slot, occupied, rfl⟩ := holds
      obtain ⟨u, waits⟩ := chronicle.watched.waits s slot occupied
      exact .inl ⟨⟨slot, occupied, rfl⟩, ⟨slot, u, occupied, waits⟩, stays⟩
    · refine .inr ⟨gone, front, step, back, split, out, once, ?_, how.resolve_right⟩
      rintro ⟨t, exit, publishes, _⟩
      exact publishes.not_withdraws

-- After the restart the task that waits for the first server comes too late.
def succession : List Event := restart ++ .replicate 5 (.run 3) ++ .replicate 2 (.run 2)

def Activity.empties : Activity → Bool
  | .teardownUnlessUsed _ | .takeSlot _ => true
  | _ => false

def Step.emptied (step : Step) : Bool :=
  step.event.task?.any fun t => (step.before.frames t).head?.any Activity.empties

theorem session_states_after_restart : ∃ m, initial.runs oneKey succession = some m ∧
    (m.session 0).slot = some ⟨2, 1⟩ ∧ (m.session 0).state = .running ∧
    ∃ front step back, initial.steps oneKey succession = front ++ step :: back ∧
      (∀ other ∈ front ++ back, ¬ other.TakesOut 0 0) ∧ m.Published step back 0 0 := by
  obtain ⟨m, ran, facts⟩ := (Option.any_eq_true _ _).1 (show (initial.runs oneKey succession).any
    (fun m => (m.session 0).lock == none && !(m.session 0).closed &&
      (m.session 0).slot == some ⟨2, 1⟩ && (m.server 0).session == some 0) by decide)
  obtain ⟨⟨⟨free, isOpen⟩, second⟩, owned⟩ : (((m.session 0).lock = none ∧
      (m.session 0).closed = false) ∧ (m.session 0).slot = some ⟨2, 1⟩) ∧
      (m.server 0).session = some 0 := by simpa using facts
  have unstopped : (initial.steps oneKey succession).all (fun step => !step.emptied) := by decide
  obtain ⟨_, settled, ended, _⟩ := session_states ran
  have running := ((settled 0 free isOpen).1.2 (by rw [second]; simp))
  rcases ended 0 0 owned with ⟨⟨slot, first, same⟩, _⟩ | ⟨_, front, step, back, split, _, once, published⟩
  · rw [second] at first
    cases first; cases same
  · refine ⟨m, ran, second, running, front, step, back, split, once, published.2 ?_⟩
    rintro ⟨t, how, _⟩
    have stays := List.all_eq_true.1 unstopped step (by rw [split]; simp)
    rcases how with ⟨⟨task, rest, stack⟩, _⟩ | ⟨⟨task, rest, stack⟩, _⟩ <;>
      · simp [Step.emptied, task, stack, Activity.empties] at stays

def oneBreakdown : List Event :=
  ([.connect 8, .call (.subscribe "k" 0)] : List Event) ++ (.replicate 11 (.run 0) : List Event) ++
    ([.launch 0 none, .strayEnds 0] : List Event)

-- Nobody has made the end of the child known, and nobody is left who could.
theorem starting_after_breakdown : ∃ m, initial.runs tooLarge oneBreakdown = some m ∧
    (m.session 0).lock = none ∧ (m.session 0).closed = false ∧ (m.session 0).slot = none ∧
    (m.session 0).state = .starting ∧ m.strays = [] ∧ m.tasks.length = 1 ∧ m.frames 0 = [.breakdown] := by
  obtain ⟨m, ran, facts⟩ := Option.map_eq_some_iff.1 (show (initial.runs tooLarge oneBreakdown).map
    (fun m => ((m.session 0).lock, (m.session 0).closed, (m.session 0).slot, (m.session 0).state, m.strays,
      m.tasks.length, m.frames 0)) = some (none, false, none, .starting, [], 1, [.breakdown]) by rfl)
  simp only [Prod.mk.injEq] at facts
  exact ⟨m, ran, facts⟩

end Machine
end LanguageRelay
