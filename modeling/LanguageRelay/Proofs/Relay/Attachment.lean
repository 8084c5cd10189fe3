import LanguageRelay.Proofs.Relay.Passages
import LanguageRelay.Proofs.Relay.Retiring
import LanguageRelay.Proofs.Relay.Shifts
namespace LanguageRelay.Machine
variable {m made back next : Machine} {setup : Setup} {event : Event} {events during : List Event}
  {t u : TaskId} {s : SessionId} {c : ConnectionId} {a : Activity} {held : SessionId → Custody}
  {rest new : List Activity}

-- An idle teardown of the session holds the lock: it has still to decide, or sees the server to its
-- end.
def TearsDown (m : Machine) (s : SessionId) (u : TaskId) : Prop :=
  .teardownUnlessUsed s ∈ m.frames u ∨ m.Retires s u

-- A subscription makes sure of its server: one is there whose exit nobody has recorded, or one is
-- started, whether that succeeds or not, or the session is closed.
inductive Ensures (m : Machine) (t : TaskId) (s : SessionId) (c : ConnectionId)
    (rest : List Activity) : Event → Prop where
  | finds {event : Event} {slot} : event.task? = some t → m.frames t = .look s (.subscribed c) :: rest →
      (m.session s).slot = some slot → (m.server slot.server).exit = none →
      Ensures m t s c rest event
  | attempts {failure} : m.frames t = .spawn s (.subscribed c) :: rest →
      Ensures m t s c rest (.launch t failure)
  | barred {event : Event} : event.task? = some t → m.frames t = .begin s (.subscribed c) :: rest →
      (m.session s).closed = true → Ensures m t s c rest event

-- The task `u` inserts the connection into the subscribers. Its new epoch is still to come.
def Step.Inserts (step : Step) (s : SessionId) (u : TaskId) (c : ConnectionId) : Prop :=
  step.event.task? = some u ∧ (∃ rest, step.before.frames u = .attach s c :: rest) ∧
    c ∉ (step.before.session s).subscribers

-- Nobody gets into the subscribers but by a subscription.
theorem Move.joins (move : Move m t a held new) (joined : c ∈ (held s).subscribers) :
    c ∈ (m.custody s).subscribers ∨ a = .attach s c := by
  cases move with
  | plain _ use _ =>
    cases use with
    | same same => exact .inl (by rw [← same]; exact joined)
    | attached _ changed =>
      rcases update_cases changed s with ⟨rfl, here⟩ | ⟨_, same⟩
      · rw [here] at joined
        rcases List.mem_append.1 joined with old | last
        · exact .inl old
        · exact .inr (by rw [List.mem_singleton.1 last])
      · exact .inl (same ▸ joined)
    | renewed changed =>
      rcases update_cases changed s with ⟨rfl, here⟩ | ⟨_, same⟩
      · exact .inl (by rw [here] at joined; exact joined)
      · exact .inl (same ▸ joined)
    | detached changed | removed changed =>
      rcases update_cases changed s with ⟨rfl, here⟩ | ⟨_, same⟩
      · rw [here] at joined
        exact .inl (List.mem_filter.1 joined).1
      · exact .inl (same ▸ joined)
    | cleared changed =>
      rcases update_cases changed s with ⟨rfl, here⟩ | ⟨_, same⟩
      · rw [here] at joined; cases joined
      · exact .inl (same ▸ joined)
  | finishing _ _ same | finished _ _ same | awaited _ same | refused _ same _ =>
    exact .inl (by rw [← same]; exact joined)
  | vacated _ _ _ changed | vacant _ _ changed | outlived _ _ _ changed | locked _ _ changed
  | stopped _ _ changed | taken _ changed | released _ _ changed | begun _ changed
  | closed changed =>
    rcases update_cases changed s with ⟨rfl, here⟩ | ⟨_, same⟩
    · exact .inl (by rw [here] at joined; exact joined)
    · exact .inl (same ▸ joined)

theorem Transition.joins (transition : Transition m event next)
    (joined : c ∈ (next.custody s).subscribers) :
    c ∈ (m.custody s).subscribers ∨
    ∃ t rest, event.task? = some t ∧ m.frames t = .attach s c :: rest := by
  cases transition with
  | turned step turned =>
    exact (turned.move.joins joined).imp_right fun top => ⟨_, _, step, top ▸ turned.stack⟩
  | started _ started =>
    rcases update_cases started.custody s with ⟨rfl, same⟩ | ⟨_, same⟩
    · exact .inl (by rw [same] at joined; exact joined)
    · exact .inl (same ▸ joined)
  | ambient _ ambient => exact .inl (by rw [ambient.custody] at joined; exact joined)

theorem Locked.not_tearsDown (locked : Locked m) (free : (m.custody s).lock = none) (u : TaskId) :
    ¬ m.TearsDown s u := by
  rintro (decides | retires)
  · have mine := locked.held u _ decides s rfl
    rw [free] at mine; cases mine
  · exact locked.not_retires free retires

-- Whoever has taken the lock for a start is alone with it.
theorem Locked.not_tearsDown_of_start (locked : Locked m) (stack : m.frames t = a :: rest)
    (freeing : a.role = .freeing s) (decides : a ≠ .teardownUnlessUsed s) (unlocks : a ≠ .unlock s)
    (u : TaskId) : ¬ m.TearsDown s u := by
  have alone : ∀ f ∈ m.frames u, f.role = .freeing s → f = a := by
    intro f member part
    have top := locked.held t a (stack ▸ List.mem_cons_self) s freeing
    have here : u = t := Option.some.inj ((locked.held u f member s part).symm.trans top)
    rw [here, stack] at member
    rcases List.mem_cons.1 member with same | under
    · exact same
    · have loose := locked.below stack freeing under
      rw [part] at loose; cases loose
  rintro (member | ⟨member, _⟩)
  · exact decides (alone _ member rfl).symm
  · exact unlocks (alone _ member rfl).symm

-- While somebody is subscribed no task comes to retire the server.
theorem Sound.not_retires (sound : Sound m) (ran : m.runs setup events = some next)
    (used : ∀ step ∈ m.steps setup events, (step.before.session s).subscribers ≠ [])
    (none : ∀ u, ¬ m.Retires s u) : ∀ u, ¬ next.Retires s u := by
  refine sound.induction (motive := fun taken now =>
    (∀ step ∈ taken, (step.before.session s).subscribers ≠ []) → ∀ u, ¬ now.Retires s u) ran
    (fun _ => none) ?_ used
  intro taken before event after sound moved ih used u retires
  have still := ih fun step member => used step (List.mem_append_left _ member)
  rcases retires.earlier sound.locked (advance_transition sound.present moved).1 with
    earlier | ⟨_, _, unused, _⟩
  · exact still u earlier
  · exact used ⟨before, event, after⟩ (by simp) unused

theorem Step.Inserts.after (inserts : Step.Inserts ⟨m, event, next⟩ s u c) (sound : Sound m)
    (moved : m.advance setup event = some next) :
    c ∈ (next.session s).subscribers ∧ .newEpoch s c ∈ next.frames u := by
  obtain ⟨step, ⟨rest, stack⟩, fresh⟩ := inserts
  have within := sound.present.frames u _ (stack ▸ List.mem_cons_self)
  obtain ⟨made, new, taken, replaced, sessions, _⟩ := sound.takes moved step stack nofun
  cases taken with
  | performs performed =>
    simp only [perform, Machine.attach] at performed
    rw [if_neg fresh] at performed
    cases performed
    refine ⟨?_, by rw [replaced]; exact List.mem_cons_self⟩
    rw [sessions, session_updateSession within]
    exact List.mem_append_right _ List.mem_cons_self

-- In the course of the run the subscription makes sure of its server, at a moment when no idle
-- teardown is under way.
def Secures (setup : Setup) (m : Machine) (events : List Event) (t : TaskId) (s : SessionId)
    (c : ConnectionId) (rest : List Activity) : Prop :=
  ∃ first before event second, events = first ++ event :: second ∧
    m.runs setup first = some before ∧ Ensures before t s c rest event ∧ ∀ u, ¬ before.TearsDown s u

theorem Secures.later {stack : List Activity} (passage : Passage setup m events next t stack)
    (secures : Secures setup passage.after passage.second t s c rest) :
    Secures setup m events t s c rest := by
  obtain ⟨first, before, event, second, split, reached, ensures, none⟩ := secures
  refine ⟨passage.first ++ passage.event :: first, before, event, second, ?_, ?_, ensures, none⟩
  · exact passage.split.trans (by rw [split]; simp)
  · rw [runs_append, passage.reached]
    show (passage.before.advance setup passage.event).bind _ = _
    rw [passage.moved]; exact reached

theorem Sound.secures_of_begin (sound : Sound m) (above : List Activity)
    (ran : m.runs setup events = some next)
    (stack : m.frames t = above ++ .begin s (.subscribed c) :: rest)
    (returned : next.frames t = rest) : Secures setup m events t s c rest := by
  obtain ⟨passage⟩ := sound.passes above ran stack (by simp) returned
  obtain ⟨sound, later, made, new, taken, replaced⟩ := passage.takes sound (by simp)
  cases taken with
  | performs performed =>
    simp only [perform, Machine.begin] at performed
    split at performed <;> rename_i closed <;> cases performed
    · exact ⟨passage.first, passage.before, passage.event, passage.second, passage.split,
        passage.reached, .barred passage.step passage.stack closed,
        sound.locked.not_tearsDown_of_start passage.stack rfl (by simp) (by simp)⟩
    · obtain ⟨start⟩ := later.passes [.setState s .starting, .broadcast s _] passage.onward
        replaced (by simp) returned
      have sound := later.runs start.reached
      obtain ⟨failure, launch⟩ := launch_of_spawn start.stack start.step start.moved
      refine .later passage ⟨start.first, start.before, start.event, start.second, start.split,
        start.reached, ?_, sound.locked.not_tearsDown_of_start start.stack rfl (by simp) (by simp)⟩
      rw [launch]; exact .attempts start.stack

theorem Sound.secures_of_look (sound : Sound m) (above : List Activity)
    (ran : m.runs setup events = some next)
    (stack : m.frames t = above ++ .look s (.subscribed c) :: rest)
    (returned : next.frames t = rest) : Secures setup m events t s c rest := by
  obtain ⟨passage⟩ := sound.passes above ran stack nofun returned
  obtain ⟨sound, later, made, new, taken, replaced⟩ := passage.takes sound nofun
  cases taken with
  | performs performed =>
    simp only [perform, Machine.look] at performed
    split at performed
    · cases performed
    · rename_i free
      have free : (passage.before.custody s).lock = none := Option.not_isSome_iff_eq_none.1 free
      split at performed
      · cases performed
        exact .later passage (later.secures_of_begin [] passage.onward replaced returned)
      · rename_i slot occupied
        split at performed <;> rename_i ended <;> cases performed
        · exact ⟨passage.first, passage.before, passage.event, passage.second, passage.split,
            passage.reached, .finds passage.step passage.stack occupied ended,
            sound.locked.not_tearsDown free⟩
        · rw [List.append_assoc] at replaced
          exact .later passage (later.secures_of_begin _ passage.onward replaced returned)

theorem Sound.secures_of_newEpoch (sound : Sound m) (ran : m.runs setup events = some next)
    (stack : m.frames t = .newEpoch s c :: rest) (returned : next.frames t = rest) :
    Secures setup m events t s c rest := by
  obtain ⟨passage⟩ := sound.passes [] ran stack nofun returned
  obtain ⟨_, later, made, new, taken, replaced⟩ := passage.takes sound nofun
  cases taken with
  | performs performed =>
    cases performed
    exact .later passage (later.secures_of_look [] passage.onward replaced returned)

theorem Sound.slot_of_used (sound : Sound m) (used : (m.session s).subscribers ≠ [])
    (stack : m.frames t = .teardownUnlessUsed s :: rest)
    (moved : m.advance setup (.run t) = some next) :
    (next.session s).slot = (m.session s).slot := by
  cases sound.happens moved with
  | turned own turned taken _ shape =>
    cases own
    cases turned.stack.symm.trans stack
    have shifts := turned.shifts sound taken shape s
    show (next.custody s).slot = _
    generalize next.custody s = custody at shifts
    cases shifts with
    | stopped unused => exact absurd unused used
    | released => rfl
    | aside _ _ slot => exact slot
  | started launch => cases launch
  | ambient outside => cases outside

-- From the moment when a subscription has made sure of its server, no idle teardown takes it while the
-- set of subscribers is not empty.
theorem Secures.kept (secures : Secures setup m events t s c rest) (sound : Sound m)
    (later : List Event) (ran : m.runs setup (events ++ later) = some next)
    (used : ∀ step ∈ m.steps setup (events ++ later), (step.before.session s).subscribers ≠ []) :
    ∀ u, ¬ next.Retires s u := by
  obtain ⟨first, before, event, second, rfl, reached, _, none⟩ := secures
  rw [List.append_assoc, runs_append, reached] at ran
  rw [List.append_assoc, steps_append reached] at used
  exact (sound.runs reached).not_retires ran
    (fun step member => used step (List.mem_append_right _ member)) fun u retires => none u (.inr retires)

-- The subscription that inserts a connection returns only after it has made sure of a server, later
-- than its insertion and than every teardown under way. As long as the connection stays from then on,
-- no idle teardown takes the server out of its slot, and none sees one to its end.
theorem subscriber_keeps_server (ran : initial.runs setup events = some m)
    (stack : m.frames t = .attach s c :: rest) (fresh : c ∉ (m.session s).subscribers)
    (inserted : m.advance setup (.run t) = some made) (during : List Event)
    (subscribed : made.runs setup during = some back) (returned : back.frames t = rest) :
    Secures setup made during t s c rest ∧
    ∀ later next, back.runs setup later = some next →
      (∀ step ∈ made.steps setup (during ++ later), c ∈ (step.before.session s).subscribers) →
      c ∈ (next.session s).subscribers →
      (∀ u, ¬ next.Retires s u) ∧
      ∀ u below after, next.frames u = .teardownUnlessUsed s :: below →
        next.advance setup (.run u) = some after → (after.session s).slot = (next.session s).slot := by
  have sound := sound_initial.runs ran
  obtain ⟨_, _, taken, replaced, _⟩ := sound.takes inserted rfl stack nofun
  have secures : Secures setup made during t s c rest := by
    cases taken with
    | performs performed =>
      simp only [perform, Machine.attach, fresh, if_false] at performed
      cases performed
      exact (sound.advance inserted).secures_of_newEpoch subscribed replaced returned
  refine ⟨secures, fun later next onward stays still => ⟨?_, ?_⟩⟩
  · refine secures.kept (sound.advance inserted) later ?_ fun step member => ?_
    · rw [runs_append, subscribed]; exact onward
    · exact List.ne_nil_of_mem (stays step member)
  · intro u below after stack moved
    have sound := ((sound.advance inserted).runs subscribed).runs onward
    exact sound.slot_of_used (List.ne_nil_of_mem still) stack moved

-- The last subscriber has left, and the server is being seen to its end when another one comes.
def parting : List Event :=
  ([.connect 8, .call (.subscribe "k" 0)] : List Event) ++ (.replicate 11 (.run 0) : List Event) ++
    ([.launch 0 none] : List Event) ++ (.replicate 5 (.run 0) : List Event) ++
    ([.call (.unsubscribe 0)] : List Event) ++ (.replicate 5 (.run 3) : List Event) ++
    ([.connect 8, .call (.subscribe "k" 1)] : List Event) ++ (.replicate 3 (.run 4) : List Event)

-- The new subscription waits for the lock and starts a server of its own.
def relief : List Event :=
  ([.run 4, .run 3, .run 3, .childEnds 0 (some 0), .watch 0 .childEnded] : List Event) ++
    (.replicate 4 (.run 3) : List Event) ++ (.replicate 6 (.run 4) : List Event) ++
    ([.launch 4 none] : List Event) ++ (.replicate 5 (.run 4) : List Event)

theorem subscriber_keeps_server_after_parting : ∃ m made back next, initial.runs oneKey parting = some m ∧
    m.Retires 0 3 ∧ m.advance oneKey (.run 4) = some made ∧ made.runs oneKey relief = some back ∧
    Secures oneKey made relief 4 0 1 [] ∧ back.runs oneKey [.tick 5000] = some next ∧
    (next.session 0).slot = some ⟨2, 1⟩ ∧ ∀ u, ¬ next.Retires 0 u := by
  obtain ⟨m, ran, tops⟩ := Option.map_eq_some_iff.1 (show (initial.runs oneKey parting).map
    (fun m => (m.frames 3, m.frames 4)) =
      some ([.stop 0 2000, .setState 0 .stopped, .unlock 0], [.attach 0 1]) by rfl)
  obtain ⟨retiring, stack⟩ := Prod.mk.inj tops
  have fresh : (initial.runs oneKey parting).any (fun m => !(m.session 0).subscribers.contains 1) := by
    decide
  have goes : (initial.runs oneKey parting).any (fun m => (m.advance oneKey (.run 4)).any fun made =>
      (made.runs oneKey relief).any fun back => (back.runs oneKey [.tick 5000]).any fun next =>
        (back.task 4).isDone && (next.session 0).slot == some ⟨2, 1⟩ &&
        (next.session 0).subscribers.contains 1 &&
        (made.steps oneKey (relief ++ [Event.tick 5000])).all fun step =>
          (step.before.session 0).subscribers.contains 1) := by decide
  simp only [ran, Option.any_some] at fresh goes
  obtain ⟨made, inserted, goes⟩ := (Option.any_eq_true _ _).1 goes
  obtain ⟨back, subscribed, goes⟩ := (Option.any_eq_true _ _).1 goes
  obtain ⟨next, onward, facts⟩ := (Option.any_eq_true _ _).1 goes
  obtain ⟨⟨⟨done, slot⟩, still⟩, stays⟩ : ((back.frames 4 = [] ∧ (next.session 0).slot = some ⟨2, 1⟩) ∧
      1 ∈ (next.session 0).subscribers) ∧ ∀ step ∈ made.steps oneKey (relief ++ [Event.tick 5000]),
      1 ∈ (step.before.session 0).subscribers := by
    simpa [Task.isDone, frames] using facts
  obtain ⟨secures, keeps⟩ := subscriber_keeps_server ran stack (by simpa using fresh) inserted relief
    subscribed done
  refine ⟨m, made, back, next, ran, ⟨?_, .stop 0 2000, ?_, 0, rfl⟩, inserted, subscribed, secures, onward,
    slot, (keeps _ next onward stays still).1⟩
  · rw [retiring]; simp
  · rw [retiring]; simp

end LanguageRelay.Machine
