import LanguageRelay.Proofs.Relay.Grace
import LanguageRelay.Proofs.Relay.Shutdown
namespace LanguageRelay.Machine
variable {m made last next : Machine} {setup : Setup} {event : Event} {events during : List Event}
  {t : TaskId} {s : SessionId}

-- How far the task `t` has come with closing the session.
inductive Closes (m : Machine) (t : TaskId) (s : SessionId) : Prop where
  | marks : m.frames t = [.close s] → Closes m t s
  | takes : m.frames t = [.takeSlot s] → Closes m t s
  | winds {above : List Activity} : m.frames t = above ++ [.clear s] → m.Wound s →
      m.state s = .stopped ∨ .setState s .stopped ∈ above → Closes m t s

theorem Closes.busy (closes : m.Closes t s) : m.frames t ≠ [] := by
  cases closes with
  | marks stack | takes stack => rw [stack]; simp
  | winds stack => rw [stack]; simp

-- The session is marked, without a server and stopped.
structure Ended (m : Machine) (s : SessionId) : Prop where
  shut : m.Shut s
  stopped : m.state s = .stopped

theorem Ended.advance (ended : m.Ended s) (stately : Stately setup m) (sound : Sound m)
    (moved : m.advance setup event = some next) : next.Ended s :=
  have happens := sound.happens moved
  ⟨ended.shut.advance stately sound happens, ended.shut.state happens ended.stopped⟩

theorem Ended.runs (ended : m.Ended s) (stately : Stately setup m) (sound : Sound m)
    (ran : m.runs setup events = some next) : next.Ended s := by
  refine (sound.induction (motive := fun _ now => Stately setup now ∧ now.Ended s) ran ⟨stately, ended⟩ ?_).2
  intro _ before event after sound moved ⟨stately, ended⟩
  exact ⟨stately.advance sound (sound.happens moved), ended.advance stately sound moved⟩

theorem closes_of_takeSlot (stately : Stately setup m) (sound : Sound m) (stack : m.frames t = [.takeSlot s])
    (step : event.task? = some t) (moved : m.advance setup event = some next) : next.Closes t s := by
  have wound := wound_of_takeSlot stately sound stack step moved
  obtain ⟨made, new, taken, replaced, _⟩ := sound.takes moved step stack nofun
  obtain ⟨stops, split⟩ : ∃ stops, new = stops ++ [.setState s .stopped,
      .broadcast s (m.stateEvent s .stopped)] ++ [.clear s] := by
    cases taken with
    | performs performed =>
      simp only [perform, Machine.takeSlot] at performed
      split at performed <;> cases performed
      exact ⟨_, (List.append_assoc _ [_, _] [_]).symm⟩
  rw [List.append_nil, split] at replaced
  exact .winds replaced wound (.inr (by simp))

theorem ended_of_clear (stately : Stately setup m) (sound : Sound m) (stack : m.frames t = [.clear s])
    (wound : m.Wound s) (stopped : m.state s = .stopped) (step : event.task? = some t)
    (moved : m.advance setup event = some next) :
    next.frames t = [] ∧ next.Ended s ∧ (next.session s).subscribers = [] := by
  have within := sound.present.frames t _ (stack ▸ List.mem_cons_self)
  have ended : m.Ended s := ⟨wound.shut, stopped⟩
  obtain ⟨made, new, taken, replaced, sessions, _⟩ := sound.takes moved step stack nofun
  cases taken with
  | performs performed =>
    cases performed
    refine ⟨replaced, ended.advance stately sound moved, ?_⟩
    rw [sessions, session_updateSession within]

theorem Closes.advance (closes : m.Closes t s) (stately : Stately setup m) (sound : Sound m)
    (moved : m.advance setup event = some next) :
    next.Closes t s ∨
    next.frames t = [] ∧ next.Ended s ∧ (next.session s).subscribers = [] := by
  have transition := (advance_transition sound.present moved).1
  cases closes with
  | marks stack =>
    rcases transition.stack stack (by simp [IsForwarder]) with ⟨step, _⟩ | ⟨_, kept⟩
    · obtain ⟨made, new, taken, replaced, _⟩ := sound.takes moved step stack (by simp)
      cases taken with
      | performs performed => cases performed; exact .inl (.takes replaced)
    · exact .inl (.marks kept)
  | takes stack =>
    rcases transition.stack stack (by simp [IsForwarder]) with ⟨step, _⟩ | ⟨_, kept⟩
    · exact .inl (closes_of_takeSlot stately sound stack step moved)
    · exact .inl (.takes kept)
  | @winds above stack wound stopping =>
    have after := wound.advance stately sound moved
    have still (stopped : m.state s = .stopped) : next.state s = .stopped :=
      wound.shut.state (sound.happens moved) stopped
    cases above with
    | nil =>
      have stopped : m.state s = .stopped := stopping.resolve_right List.not_mem_nil
      rcases transition.stack stack (by simp [IsForwarder]) with ⟨step, _⟩ | ⟨_, kept⟩
      · exact .inr (ended_of_clear stately sound stack wound stopped step moved)
      · have top : next.frames t = [] ++ [.clear s] := kept
        exact .inl (.winds top after (.inl (still stopped)))
    | cons a above =>
      left
      rcases transition.stack stack (by simp [IsForwarder]) with ⟨step, new, replaced⟩ | ⟨_, kept⟩
      · have top : next.frames t = (new ++ above) ++ [.clear s] := by
          rw [replaced, List.append_assoc]; rfl
        refine .winds top after ?_
        rcases stopping with stopped | sets
        · exact .inl (still stopped)
        · rcases List.mem_cons.1 sets with rfl | later
          · obtain ⟨made, _, taken, _, sessions, _⟩ := sound.takes moved step stack (by simp)
            have top : .setState s .stopped ∈ m.frames t := by
              rw [stack]; exact List.mem_cons_self
            have within := sound.present.frames t _ top
            left
            rw [Machine.state, sessions]
            exact taken.setState within
          · exact .inr (List.mem_append_right _ later)
      · exact .winds kept after (stopping.imp_left still)

theorem Closes.runs (closes : m.Closes t s) (stately : Stately setup m) (sound : Sound m)
    (ran : m.runs setup events = some next) (busy : next.frames t ≠ []) : next.Closes t s := by
  have there : t < m.tasks.length := by
    obtain ⟨f, member⟩ := List.exists_mem_of_ne_nil _ closes.busy
    exact lt_of_mem_frames member
  have reached : Stately setup next ∧ t < next.tasks.length ∧ (next.frames t = [] ∨ next.Closes t s) := by
    refine sound.induction (motive := fun _ now =>
      Stately setup now ∧ t < now.tasks.length ∧ (now.frames t = [] ∨ now.Closes t s)) ran
      ⟨stately, there, .inr closes⟩ ?_
    intro _ before event after sound moved ⟨stately, there, phase⟩
    refine ⟨stately.advance sound (sound.happens moved),
      Nat.lt_of_lt_of_le there (sound.tasks_le moved), ?_⟩
    rcases phase with done | closes
    · exact .inl ((advance_transition sound.present moved).1.idle there done).1
    · rcases closes.advance stately sound moved with onward | ⟨done, _⟩
      · exact .inr onward
      · exact .inl done
  exact reached.2.2.resolve_left busy

-- When closing a session has returned, its set of subscribers is empty; it is stopped without a server
-- then and at any time later. Its set stays empty exactly as long as no subscription inserts a
-- connection, which the mark does not keep it from.
theorem closed_session_rests (ran : initial.runs setup events = some made)
    (stack : made.frames t = [.close s]) (closing : made.runs setup during = some last)
    (busy : last.frames t ≠ []) (returns : last.advance setup event = some m)
    (returned : m.frames t = []) (later : List Event) (onward : m.runs setup later = some next) :
    (m.session s).subscribers = [] ∧
    (next.session s).closed = true ∧ (next.session s).state = .stopped ∧
    (next.session s).slot = none ∧
    (((∀ step ∈ m.steps setup later, (step.before.session s).subscribers = []) ∧
        (next.session s).subscribers = []) ↔
      ∀ step ∈ m.steps setup later, ∀ u c, ¬ step.Inserts s u c) := by
  have begun : initial.runs setup (events ++ during) = some last := by
    rw [runs_append, ran]; exact closing
  have sound := sound_initial.runs begun
  have stately := Stately.runs begun
  have closes : last.Closes t s :=
    Closes.runs (.marks stack) (Stately.runs ran) (sound_initial.runs ran) closing busy
  obtain ⟨_, ended, empty⟩ := (closes.advance stately sound returns).resolve_left fun unfinished =>
    unfinished.busy returned
  have stately := stately.advance sound (sound.happens returns)
  have sound := sound.advance returns
  have rests := ended.runs stately sound onward
  refine ⟨empty, rests.shut.closed, rests.stopped, rests.shut.empty, ?_⟩
  rw [sound.unused_iff onward]
  exact ⟨And.right, fun none => ⟨empty, none⟩⟩

-- A session with one subscriber is about to be closed.
def heyday : List Event :=
  ([.connect 8, .call (.subscribe "k" 0)] : List Event) ++ (.replicate 11 (.run 0) : List Event) ++
    ([.launch 0 none] : List Event) ++ (.replicate 5 (.run 0) : List Event) ++
    ([.connect 8, .call (.closeSession 0)] : List Event)

-- Its server ends by itself, and all but the set has been seen to.
def curtain : List Event :=
  (.replicate 4 (.run 3) : List Event) ++ ([.childEnds 0 (some 0), .watch 0 .childEnded] : List Event) ++
    (.replicate 6 (.run 3) : List Event)

-- Somebody subscribes afterwards. The start is refused, the connection stays.
def straggler : List Event := .call (.subscribe "k" 1) :: .replicate 8 (.run 4)

theorem runs_straggler : ∃ made last m next, initial.runs oneKey heyday = some made ∧
    made.runs oneKey curtain = some last ∧ last.advance oneKey (.run 3) = some m ∧
    m.runs oneKey straggler = some next ∧ made.frames 3 = [.close 0] ∧ last.frames 3 = [.clear 0] ∧
    m.frames 3 = [] ∧ (m.session 0).subscribers = [] ∧ next.frames 4 = [] ∧
    (next.session 0).closed = true ∧ (next.session 0).subscribers = [1] := by
  obtain ⟨made, ran, start⟩ := Option.map_eq_some_iff.1 (show (initial.runs oneKey heyday).map
    (·.frames 3) = some [.close 0] by rfl)
  obtain ⟨last, closing, top⟩ := Option.map_eq_some_iff.1 (show
    ((initial.runs oneKey heyday).bind (·.runs oneKey curtain)).map (·.frames 3) = some [.clear 0] by rfl)
  obtain ⟨m, returns, back⟩ := Option.map_eq_some_iff.1 (show
    ((initial.runs oneKey (heyday ++ curtain)).bind (·.advance oneKey (.run 3))).map
      (fun m => (m.frames 3, (m.session 0).subscribers)) = some ([], []) by rfl)
  obtain ⟨next, onward, joined⟩ := Option.map_eq_some_iff.1 (show
    (((initial.runs oneKey (heyday ++ curtain)).bind (·.advance oneKey (.run 3))).bind
      (·.runs oneKey straggler)).map (fun next => (next.frames 4, (next.session 0).closed,
        (next.session 0).subscribers)) = some ([], true, [1]) by rfl)
  rw [ran, Option.bind_some] at closing
  rw [runs_append, ran, Option.bind_some, closing, Option.bind_some] at returns onward
  rw [returns, Option.bind_some] at onward
  simp only [Prod.mk.injEq] at back joined
  exact ⟨made, last, m, next, ran, closing, returns, onward, start, top, back.1, back.2, joined⟩

theorem closed_session_rests_after_curtain : ∃ made last m next,
    initial.runs oneKey heyday = some made ∧ made.frames 3 = [.close 0] ∧
    made.runs oneKey curtain = some last ∧ last.frames 3 = [.clear 0] ∧
    last.advance oneKey (.run 3) = some m ∧ m.frames 3 = [] ∧ m.runs oneKey straggler = some next ∧
    (m.session 0).subscribers = [] ∧ (next.session 0).closed = true ∧
    (next.session 0).state = .stopped ∧ (next.session 0).slot = none ∧
    ∃ step ∈ m.steps oneKey straggler, ∃ u c, step.Inserts 0 u c := by
  obtain ⟨made, last, m, next, ran, closing, returns, onward, start, top, done, _, _, _, joined⟩ :=
    runs_straggler
  obtain ⟨empty, closed, stopped, slot, quiet⟩ :=
    closed_session_rests ran start closing (by rw [top]; simp) returns done straggler onward
  refine ⟨made, last, m, next, ran, start, closing, top, returns, done, onward, empty, closed, stopped,
    slot, ?_⟩
  apply Classical.byContradiction
  intro none
  have unused := (quiet.2 fun step member u c inserts => none ⟨step, member, u, c, inserts⟩).2
  rw [joined] at unused
  cases unused

-- Closing the session has returned with an empty set, and a connection is in it again later.
theorem straggler_joins_closed_session : ∃ made last m next,
    initial.runs oneKey heyday = some made ∧ made.frames 3 = [.close 0] ∧
    made.runs oneKey curtain = some last ∧ last.advance oneKey (.run 3) = some m ∧
    m.frames 3 = [] ∧ (m.session 0).subscribers = [] ∧
    m.runs oneKey straggler = some next ∧ next.frames 4 = [] ∧ (next.session 0).closed = true ∧
    (next.session 0).subscribers = [1] := by
  obtain ⟨made, last, m, next, ran, closing, returns, onward, start, _, done, empty, joined⟩ :=
    runs_straggler
  exact ⟨made, last, m, next, ran, start, closing, returns, done, empty, onward, joined⟩

end LanguageRelay.Machine
