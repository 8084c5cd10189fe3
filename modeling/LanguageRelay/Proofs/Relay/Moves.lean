import LanguageRelay.Proofs.Relay.Inert
namespace LanguageRelay.Machine

inductive Use (m : Machine) : Activity → (SessionId → Custody) → List Activity → Prop where
  | same {a held new} : held = m.custody → Use m a held new
  | attached {s c held} : c ∉ (m.custody s).subscribers →
      held = Function.update m.custody s
        { m.custody s with subscribers := (m.custody s).subscribers ++ [c] } →
      Use m (.attach s c) held [.newEpoch s c]
  | renewed {s c held} : held = Function.update m.custody s
        { m.custody s with epoch := (m.custody s).epoch + 1 } →
      Use m (.newEpoch s c) held [.look s (.subscribed c)]
  | detached {s c held} : held = Function.update m.custody s
        { m.custody s with subscribers := (m.custody s).subscribers.filter (· != c) } →
      Use m (.detach s c) held
        (if (m.custody s).subscribers.filter (· != c) = [] then [.planTeardown s] else [])
  | removed {s gone held} : held = Function.update m.custody s
        { m.custody s with
          subscribers := (m.custody s).subscribers.filter fun c => !gone.contains c } →
      Use m (.remove s gone) held []
  | cleared {s held} : held = Function.update m.custody s
        { m.custody s with subscribers := [] } →
      Use m (.clear s) held []

-- One step of a task that starts no server: the frame on top, what sessions are held by after it and
-- the frames in its place.
inductive Move (m : Machine) (t : TaskId) :
    Activity → (SessionId → Custody) → List Activity → Prop where
  | plain {a held new} : a.role = .inner ∨ a.role = .bound ∨ a.role = .outer → Use m a held new →
      (∀ f ∈ new, f.role = .inner ∨ f.role = .outer ∧ a.role ≠ .inner) → Move m t a held new
  -- A server is seen to its end.
  | finishing {p a f held} : a.role = .finishing p → f.role = .finishing p →
      held = m.custody → Move m t a held [f]
  | finished {p exit a held} : a.role = .finishing p → (m.fate p).exit = some exit →
      held = m.custody → Move m t a held [.abandon p exit]
  | awaited {s generation p exit held} : (m.fate p).exit = some exit → held = m.custody →
      Move m t (.awaitExit s generation p) held [.vacate s generation exit]
  | vacated {s generation slot exit held inner} : (m.custody s).lock = none →
      (m.custody s).slot = some slot → slot.generation = generation →
      held = Function.update m.custody s { m.custody s with lock := some t, slot := none } →
      (∀ f ∈ inner, f.role = .inner) →
      Move m t (.vacate s generation exit) held (inner ++ [.unlock s])
  -- The lock is taken for a start.
  | vacant {s after held} : (m.custody s).lock = none → (m.custody s).slot = none →
      held = Function.update m.custody s { m.custody s with lock := some t } →
      Move m t (.look s after) held [.begin s after]
  | outlived {s after slot exit held inner} : (m.custody s).lock = none →
      (m.custody s).slot = some slot → (m.fate slot.server).exit = some exit →
      held = Function.update m.custody s { m.custody s with lock := some t, slot := none } →
      (∀ f ∈ inner, f.role = .inner) →
      Move m t (.look s after) held (inner ++ [.begin s after])
  | begun {s after held inner} : (m.custody s).closed = false →
      held = Function.update m.custody s
        { m.custody s with generation := (m.custody s).generation + 1 } →
      (∀ f ∈ inner, f.role = .inner) →
      Move m t (.begin s after) held (inner ++ [.spawn s after])
  | refused {s after error a held inner} : a = .begin s after ∨ a = .spawn s after →
      held = m.custody → (∀ f ∈ inner, f.role = .inner) →
      Move m t a held (inner ++ [.refused s after error])
  -- The lock is taken for a teardown.
  | locked {s epoch held} : (m.custody s).lock = none → (m.custody s).epoch = epoch →
      held = Function.update m.custody s { m.custody s with lock := some t } →
      Move m t (.teardown s epoch) held [.teardownUnlessUsed s]
  | stopped {s slot grace held} : (m.custody s).subscribers = [] → (m.custody s).slot = some slot →
      held = Function.update m.custody s { m.custody s with slot := none } →
      Move m t (.teardownUnlessUsed s) held
        [.stop slot.server grace, .setState s .stopped, .unlock s]
  | released {s a held new} : a.role = .freeing s →
      (a = .teardownUnlessUsed s → (m.custody s).subscribers ≠ [] ∨ (m.custody s).slot = none) →
      held = Function.update m.custody s { m.custody s with lock := none } →
      (∀ f ∈ new, f.role = .outer) → Move m t a held new
  -- A session is closed.
  | closed {s held} : held = Function.update m.custody s { m.custody s with closed := true } →
      Move m t (.close s) held [.takeSlot s]
  | taken {s held stops inner} : (m.custody s).lock = none →
      held = Function.update m.custody s { m.custody s with slot := none } →
      ((m.custody s).slot = none ∧ stops = [] ∨
        ∃ slot grace, (m.custody s).slot = some slot ∧ stops = [.stop slot.server grace]) →
      (∀ f ∈ inner, f.role = .inner) → Move m t (.takeSlot s) held (stops ++ (inner ++ [.clear s]))

variable {m next : Machine} {setup : Setup} {t : TaskId} {s : SessionId} {a : Activity}
  {held : SessionId → Custody} {new : List Activity}

theorem Use.custody (use : Use m a held new) (r : SessionId) : ∃ subscribers epoch,
    held r = { m.custody r with subscribers := subscribers, epoch := epoch } := by
  have updated : ∀ {s subscribers epoch}, held = Function.update m.custody s
      { m.custody s with subscribers := subscribers, epoch := epoch } → ∃ subscribers epoch,
      held r = { m.custody r with subscribers := subscribers, epoch := epoch } := by
    intro s subscribers epoch changed
    rw [changed]
    by_cases here : r = s
    · subst r; exact ⟨subscribers, epoch, Function.update_self ..⟩
    · exact ⟨_, _, Function.update_of_ne here ..⟩
  cases use with
  | same same => exact ⟨_, _, congrFun same r⟩
  | attached _ changed => exact updated changed
  | renewed changed => exact updated changed
  | detached changed => exact updated changed
  | removed changed => exact updated changed
  | cleared changed => exact updated changed

theorem custody_setLock_setSlot (there : s < m.sessions.length) (lock : Option TaskId) :
    ((m.updateSession s fun session => { session with lock := lock }).updateSession s
      fun session => { session with slot := none }).custody =
      Function.update m.custody s { m.custody s with lock := lock, slot := none } := by
  have still : s < (m.updateSession s fun session => { session with lock := lock }).sessions.length :=
    Nat.lt_of_lt_of_eq there (List.length_modify ..).symm
  rw [custody_updateSession still, session_updateSession there, custody_updateSession there,
    Function.update_idem]
  rfl

theorem custody_newSession (key : String) (map : Keyed SessionId) :
    ({ m with sessions := m.sessions ++ [.new key], map := map } : Machine).custody = m.custody := by
  funext r
  simp only [custody, session, List.getD_eq_getElem?_getD, List.getElem?_append]
  by_cases old : r < m.sessions.length
  · simp [old]
  · by_cases last : r = m.sessions.length
    · subst r; simp; rfl
    · have after := Nat.lt_of_le_of_ne (Nat.le_of_not_lt old) (Ne.symm last)
      have beyond : ([.new key] : List Session)[r - m.sessions.length]? = none :=
        List.getElem?_eq_none (Nat.succ_le_of_lt (Nat.sub_pos_of_lt after))
      simp [old, beyond]

theorem custody_drain (entries : Keyed SessionId) :
    (entries.foldl (fun machine e => machine.addTask [.close e.2]) m).custody = m.custody := by
  induction entries generalizing m with
  | nil => rfl
  | cons e rest ih => exact ih.trans (custody_eq rfl)

theorem custody_askListeners {result : Option Message} {direction : Direction} {message : Message}
    (asked : m.askListeners setup direction s message = (result, next)) :
    next.custody = m.custody := by
  cases asked; exact custody_eq rfl

theorem outer_whenRunning {after : AfterStart} {p : ServerId} {isNew : Bool} :
    ∀ f ∈ after.whenRunning s p isNew, f.role = .outer := by
  cases after <;> cases isNew <;> simp [AfterStart.whenRunning, Activity.role]

theorem outer_whenRefused {after : AfterStart} {error : StartError} :
    ∀ f ∈ after.whenRefused s error, f.role = .outer := by
  cases after <;> simp [AfterStart.whenRefused, Activity.role]

theorem inner_publish {exit : ServerExit} : ∀ f ∈ m.publish s exit, f.role = .inner := by
  simp [publish, Activity.role]

theorem Move.outer (outer : a.role = .outer) (same : held = m.custody)
    (rest : ∀ f ∈ new, f.role = .inner ∨ f.role = .outer) : Move m t a held new := by
  refine .plain (.inr (.inr outer)) (.same same) fun f member => ?_
  exact (rest f member).imp_right fun loose => ⟨loose, by rw [outer]; simp⟩

theorem Move.inner (inner : a.role = .inner) (same : held = m.custody)
    (rest : ∀ f ∈ new, f.role = .inner) : Move m t a held new :=
  .plain (.inl inner) (.same same) fun f member => .inl (rest f member)

theorem Move.attend {k : SocketId} {attention : Attention}
    (attended : m.attend k attention = some (next, new)) : Move m t (.listen k) next.custody new := by
  unfold Machine.attend at attended
  dsimp only at attended
  split at attended
  · cases attended
  · split at attended <;> cases attended
    · exact .outer rfl (custody_eq rfl) (by simp [Activity.role])
    · exact .outer rfl (custody_eq rfl) (by simp [Activity.role])
    · exact .outer rfl (custody_eq rfl) (by simp [leaving, Activity.role])
  all_goals
    split at attended <;> cases attended
    exact .outer rfl rfl (by simp [leaving, Activity.role])

theorem Move.undelivered {sender : Sender} (outer : a.role = .outer)
    (told : m.undelivered t sender = (next, new)) : Move m t a next.custody new := by
  cases sender with
  | client s c => cases told; exact .outer outer rfl (by simp [Activity.role])
  | outside => cases told; exact .outer outer (custody_eq rfl) (by simp)

theorem Move.deliver {pending gone event}
    (performed : m.deliver s pending gone event = some (next, new)) :
    Move m t (.deliver s pending gone event) next.custody new := by
  simp only [Machine.deliver] at performed
  split at performed
  · cases performed
    refine .inner rfl rfl ?_
    split <;> simp [Activity.role]
  · split at performed <;> cases performed
    · exact .inner rfl (custody_eq rfl) (by simp [Activity.role])
    · exact .inner rfl rfl (by simp [Activity.role])
    · exact .inner rfl rfl (by simp [Activity.role])

theorem Move.look {after} (within : s < m.sessions.length)
    (performed : m.look t s after = some (next, new)) :
    Move m t (.look s after) next.custody new := by
  simp only [Machine.look] at performed
  split at performed
  · cases performed
  · rename_i free
    have free : (m.custody s).lock = none := Option.not_isSome_iff_eq_none.1 free
    split at performed
    · cases performed
      exact .vacant free ‹_› (custody_updateSession within _)
    · split at performed <;> cases performed
      · refine .outer rfl (custody_eq rfl) fun f member => .inr (outer_whenRunning f member)
      · exact .outlived free ‹_› ‹_› (custody_setLock_setSlot within _) inner_publish

theorem Move.begin {after} (within : s < m.sessions.length)
    (performed : m.begin s after = some (next, new)) :
    Move m t (.begin s after) next.custody new := by
  simp only [Machine.begin] at performed
  split at performed <;> cases performed
  · show Move m t _ _ ([] ++ [_])
    exact .refused (.inl rfl) rfl (by simp)
  · rename_i isOpen
    show Move m t _ _ ([_, _] ++ [_])
    refine .begun (Bool.eq_false_iff.2 isOpen) ?_ ?_
    · exact custody_updateSession within _
    · simp [Activity.role]

theorem Move.vacate {generation exit} (within : s < m.sessions.length)
    (performed : m.vacate t s generation exit = some (next, new)) :
    Move m t (.vacate s generation exit) next.custody new := by
  simp only [Machine.vacate] at performed
  split at performed
  · cases performed
  · rename_i free
    have free : (m.custody s).lock = none := Option.not_isSome_iff_eq_none.1 free
    split at performed <;> cases performed
    · rename_i own
      cases held : (m.session s).slot with
      | none => simp [held] at own
      | some slot =>
        have same : slot.generation = generation := by simpa [held] using own
        exact .vacated free held same (custody_updateSession within _) inner_publish
    · exact .plain (.inr (.inl rfl)) (.same rfl) (by simp)

theorem Move.askToFinish {p grace deadline}
    (performed : m.askToFinish p grace deadline = some (next, new)) :
    Move m t (.askToFinish p grace deadline) next.custody new := by
  simp only [Machine.askToFinish] at performed
  split at performed
  · cases performed
    exact .finishing (p := p) rfl rfl (custody_eq rfl)
  · split at performed <;> cases performed
    exact .finishing (p := p) rfl rfl rfl

theorem Move.awaitEnd {p deadline}
    (performed : m.awaitEnd p deadline = some (next, new)) :
    Move m t (.awaitEnd p deadline) next.custody new := by
  simp only [Machine.awaitEnd] at performed
  split at performed
  · rename_i ended
    cases performed
    exact .finished rfl ended rfl
  · split at performed <;> cases performed
    exact .finishing (p := p) rfl rfl (custody_eq rfl)

theorem Move.attach {c} (within : s < m.sessions.length)
    (performed : m.attach s c = some (next, new)) :
    Move m t (.attach s c) next.custody new := by
  simp only [Machine.attach] at performed
  split at performed <;> cases performed
  · exact .outer rfl rfl (by simp)
  · rename_i absent
    refine .plain (.inr (.inr rfl)) (.attached absent (custody_updateSession within _)) ?_
    simp [Activity.role]

theorem Move.detach {c} (within : s < m.sessions.length)
    (performed : m.detach t s c = some (next, new)) :
    Move m t (.detach s c) next.custody new := by
  simp only [Machine.detach] at performed
  split at performed <;> cases performed
  · have changed := custody_updateSession within fun session => { session with
      subscribers := (m.session s).subscribers.filter (· != c) }
    refine .plain (.inr (.inr rfl)) (.detached ((custody_eq rfl).trans changed)) ?_
    split <;> simp [Activity.role]
  · exact .outer rfl (custody_eq rfl) (by simp)

theorem Move.planTeardown
    (performed : m.planTeardown setup s = some (next, new)) :
    Move m t (.planTeardown s) next.custody new := by
  simp only [Machine.planTeardown] at performed
  split at performed <;> cases performed
  · exact .outer rfl rfl (by simp [Activity.role])
  · exact .outer rfl (custody_eq rfl) (by simp)

theorem Move.teardown {epoch} (within : s < m.sessions.length)
    (performed : m.teardown t s epoch = some (next, new)) :
    Move m t (.teardown s epoch) next.custody new := by
  simp only [Machine.teardown] at performed
  split at performed
  · cases performed
  · rename_i free
    have free : (m.custody s).lock = none := Option.not_isSome_iff_eq_none.1 free
    split at performed <;> cases performed
    · exact .locked free ‹_› (custody_updateSession within _)
    · exact .outer rfl rfl (by simp)

theorem Move.teardownUnlessUsed (within : s < m.sessions.length)
    (performed : m.teardownUnlessUsed setup s = some (next, new)) :
    Move m t (.teardownUnlessUsed s) next.custody new := by
  simp only [Machine.teardownUnlessUsed] at performed
  split at performed
  · rename_i unused held
    cases performed
    exact .stopped unused held (custody_updateSession within _)
  · rename_i used
    cases performed
    refine .released rfl (fun _ => ?_) (custody_updateSession within _) (by simp)
    cases held : (m.custody s).slot with
    | none => exact .inr rfl
    | some slot => exact .inl fun unused => used slot unused held

theorem Move.offer {sender p message}
    (performed : m.offer t sender p message = some (next, new)) :
    Move m t (.offer sender p message) next.custody new := by
  simp only [Machine.offer] at performed
  split at performed
  · cases performed; exact .outer rfl rfl (by simp [Activity.role])
  · exact .undelivered rfl (Option.some.inj performed)

theorem Move.enqueue {sender p message}
    (performed : m.enqueue t sender p message = some (next, new)) :
    Move m t (.enqueue sender p message) next.custody new := by
  simp only [Machine.enqueue] at performed
  split at performed
  · cases performed
  · cases performed; exact .outer rfl (custody_eq rfl) (by simp)
  · exact .undelivered rfl (Option.some.inj performed)

theorem Move.pump {p}
    (performed : m.pump s p = some (next, new)) :
    Move m t (.pump s p) next.custody new := by
  simp only [Machine.pump] at performed
  split at performed <;> cases performed
  · exact .outer rfl (custody_eq rfl) (by simp [Activity.role])
  · exact .outer rfl (custody_eq rfl) (by simp)

theorem Move.takeSlot (within : s < m.sessions.length)
    (performed : m.takeSlot setup s = some (next, new)) :
    Move m t (.takeSlot s) next.custody new := by
  simp only [Machine.takeSlot] at performed
  split at performed
  · cases performed
  · rename_i free
    have free : (m.custody s).lock = none := Option.not_isSome_iff_eq_none.1 free
    cases performed
    show Move m t _ _ (_ ++ ([_, _] ++ [_]))
    refine .taken free (custody_updateSession within _) ?_ ?_
    · cases held : (m.session s).slot with
      | none => exact .inl ⟨held, rfl⟩
      | some slot => exact .inr ⟨slot, _, held, rfl⟩
    · simp [Activity.role]

theorem Move.enter {key c message}
    (performed : m.enter setup t key c message = some (next, new)) :
    Move m t (.enter key c message) next.custody new := by
  simp only [Machine.enter, Machine.refuse] at performed
  split at performed
  · cases performed; exact .outer rfl (custody_eq rfl) (by simp)
  · split at performed <;> cases performed
    · exact .outer rfl (custody_eq rfl) (by simp)
    · exact .outer rfl (custody_eq rfl) (by simp [Activity.role])

theorem Move.findSession {key c message}
    (performed : m.findSession t key c message = some (next, new)) :
    Move m t (.findSession key c message) next.custody new := by
  simp only [Machine.findSession, Machine.refuse] at performed
  split at performed
  · cases performed
  · split at performed
    · cases performed; exact .outer rfl (custody_eq rfl) (by simp)
    · split at performed <;> cases performed
      · refine .outer rfl rfl ?_
        cases message <;> simp [visit, Activity.role]
      · refine .outer rfl (custody_newSession _ _) ?_
        cases message <;> simp [visit, Activity.role]

theorem Move.leaveAll {c}
    (performed : m.leaveAll c = some (next, new)) :
    Move m t (.leaveAll c) next.custody new := by
  simp only [Machine.leaveAll] at performed
  split at performed <;> cases performed
  refine .outer rfl rfl fun f member => .inr ?_
  obtain ⟨e, _, rfl⟩ := List.mem_map.1 member
  rfl

theorem Move.reportState {keys found}
    (performed : m.reportState setup t keys found = some (next, new)) :
    Move m t (.reportState keys found) next.custody new := by
  simp only [Machine.reportState] at performed
  split at performed
  · cases performed; exact .outer rfl (custody_eq rfl) (by simp)
  · split at performed <;> cases performed
    · exact .outer rfl rfl (by simp [Activity.role])
    · exact .outer rfl rfl (by simp [Activity.role])

theorem Move.awaitFlush {k deadline}
    (performed : m.awaitFlush k deadline = some (next, new)) :
    Move m t (.awaitFlush k deadline) next.custody new := by
  simp only [Machine.awaitFlush] at performed
  split at performed
  · cases performed; exact .outer rfl rfl (by simp)
  · split at performed <;> cases performed
    exact .outer rfl (custody_eq rfl) (by simp)

theorem Move.forwards {k}
    (performed : m.forward k = some (next, new)) :
    Move m t (.forward k) next.custody new := by
  simp only [Machine.forward] at performed
  split at performed
  · split at performed <;> cases performed
    · exact .outer rfl (custody_eq rfl) (by simp)
    · exact .outer rfl (custody_eq rfl) (by simp [Activity.role])
  · split at performed <;> cases performed
    exact .outer rfl (custody_eq rfl) (by simp)

theorem Takes.move (taken : Takes setup m t a next new) (within : a.Within m) :
    Move m t a next.custody new := by
  cases taken with
  | fails failed =>
    cases failed
    show Move m t _ _ ([_, _, _] ++ [_])
    refine .refused (.inr rfl) rfl ?_
    simp [Activity.role]
  | breaks _ broke =>
    cases broke
    exact .released rfl (fun other => by cases other) (custody_updateSession within _) (by simp [Activity.role])
  | attends attended => exact .attend attended
  | performs performed =>
    cases a with
    -- Delivering events.
    | broadcast s event => cases performed; exact .inner rfl rfl (by simp [Activity.role])
    | tellState s c => cases performed; exact .outer rfl rfl (by simp [Activity.role])
    | notify s c text =>
      cases performed
      refine .outer rfl rfl ?_
      split <;> simp [Activity.role]
    | deliver s pending gone event => exact .deliver performed
    | evict c => cases performed; exact .inner rfl (custody_eq rfl) (by simp)
    | remove s gone =>
      cases performed
      exact .plain (.inl rfl) (.removed (custody_updateSession within _)) (by simp)
    | setState s state =>
      cases performed
      exact .inner rfl (custody_updateSession_of_same fun _ => rfl) (by simp)
    -- Starting a server.
    | look s after => exact .look within performed
    | begin s after => exact .begin within performed
    | spawn | breakdown => cases performed
    | started s after p =>
      cases performed
      refine .released rfl (by simp) ?_ outer_whenRunning
      exact (custody_eq rfl).trans (custody_updateSession within _)
    | refused s after error =>
      cases performed
      refine .released rfl (by simp) ?_ outer_whenRefused
      exact (custody_eq rfl).trans (custody_updateSession within _)
    | unlock s =>
      cases performed
      exact .released rfl (by simp) (custody_updateSession within _) (by simp)
    -- The end of a server.
    | awaitExit s generation p =>
      simp only [perform, Machine.awaitExit, Option.map_eq_some_iff, Prod.mk.injEq] at performed
      obtain ⟨exit, ended, rfl, rfl⟩ := performed
      exact .awaited ended rfl
    | vacate s generation exit => exact .vacate within performed
    | stop p grace =>
      cases performed
      exact .finishing (p := p) rfl rfl (custody_eq rfl)
    | askToFinish p grace deadline => exact .askToFinish performed
    | awaitEnd p deadline => exact .awaitEnd performed
    | awaitKilled p =>
      simp only [perform, Machine.awaitKilled, Option.map_eq_some_iff, Prod.mk.injEq] at performed
      obtain ⟨exit, ended, rfl, rfl⟩ := performed
      exact .finished rfl ended rfl
    | abandon p exit => cases performed; exact .inner rfl (custody_eq rfl) (by simp)
    -- Subscribers.
    | subscribe s c =>
      cases performed
      refine .outer rfl rfl ?_
      split <;> simp [Activity.role]
    | attach s c => exact .attach within performed
    | newEpoch s c =>
      cases performed
      refine .plain (.inr (.inr rfl)) (.renewed (custody_updateSession within _)) ?_
      simp [Activity.role]
    | detach s c => exact .detach within performed
    -- Idle sessions.
    | planTeardown s => exact .planTeardown performed
    | startTimer s epoch => cases performed; exact .outer rfl rfl (by simp [Activity.role])
    | awaitTimer s epoch deadline =>
      simp only [perform, Machine.awaitTimer] at performed
      split at performed <;> cases performed
      exact .outer rfl rfl (by simp [Activity.role])
    | teardown s epoch => exact .teardown within performed
    | teardownUnlessUsed s => exact .teardownUnlessUsed within performed
    -- Messages.
    | route s c message =>
      simp only [perform, Machine.route] at performed
      split at performed <;> rename_i asked <;> cases performed
      · exact .outer rfl (custody_askListeners asked) (by simp)
      · exact .outer rfl (custody_askListeners asked) (by simp [Activity.role])
    | fanOut s message =>
      simp only [perform, Machine.fanOut] at performed
      split at performed <;> rename_i asked <;> cases performed
      · exact .outer rfl (custody_askListeners asked) (by simp)
      · exact .outer rfl (custody_askListeners asked) (by simp [Activity.role])
    | offer sender p message => exact .offer performed
    | enqueue sender p message => exact .enqueue performed
    | pump s p => exact .pump performed
    | checkUsed s =>
      cases performed
      refine .outer rfl (custody_eq ?_) (by simp)
      split <;> rfl
    | next p =>
      simp only [perform, Machine.next] at performed
      split at performed <;> cases performed
      · exact .outer rfl (custody_eq rfl) (by simp)
      · exact .outer rfl (custody_eq rfl) (by simp)
    -- Closing a session.
    | close s => cases performed; exact .closed (custody_updateSession within _)
    | takeSlot s => exact .takeSlot within performed
    | clear s =>
      cases performed
      exact .plain (.inr (.inl rfl)) (.cleared (custody_updateSession within _)) (by simp)
    -- The relay as a whole.
    | enter key c message => exact .enter performed
    | findSession key c message => exact .findSession performed
    | leaveAll c => exact .leaveAll performed
    | report =>
      simp only [perform, Machine.report] at performed
      split at performed <;> cases performed
      exact .outer rfl (custody_eq rfl) (by simp [Activity.role])
    | reportState keys found => exact .reportState performed
    | reportCount key state s keys found =>
      cases performed; exact .outer rfl rfl (by simp [Activity.role])
    | shutDown =>
      cases performed
      refine .outer rfl (custody_eq rfl) ?_
      split <;> simp [Activity.role]
    | drain =>
      simp only [perform, Machine.drain] at performed
      split at performed <;> cases performed
      exact .outer rfl ((custody_drain _).trans (custody_eq rfl)) (by simp [Activity.role])
    | join tasks =>
      simp only [perform, Machine.join] at performed
      split at performed <;> cases performed
      exact .outer rfl rfl (by simp)
    -- Sockets.
    | reportRefusal k =>
      simp only [perform, Machine.reportRefusal] at performed
      split at performed <;> cases performed
      · exact .outer rfl (custody_eq rfl) (by simp)
      · exact .outer rfl rfl (by simp)
    | listen k => cases performed
    | leave k => cases performed; exact .outer rfl (custody_eq rfl) (by simp [Activity.role])
    | awaitFlush k deadline => exact .awaitFlush performed
    | forward k => exact .forwards performed

-- What leads to a teardown of the session, unless somebody subscribes to it before.
def Tends (s : SessionId) (epoch : Nat) : Activity → Prop
  | .planTeardown r | .checkUsed r | .teardownUnlessUsed r => r = s
  | .startTimer r e | .awaitTimer r e _ | .teardown r e => r = s ∧ e = epoch
  | _ => False

theorem Takes.tends (taken : Takes setup m t a next new) (within : a.Within m)
    (tends : Tends s (m.custody s).epoch a) :
    (∃ f ∈ new, Tends s (m.custody s).epoch f) ∨
    (∃ f ∈ next.frames m.tasks.length, Tends s (m.custody s).epoch f) ∨
    (m.custody s).subscribers ≠ [] ∨ (next.custody s).slot = none := by
  cases taken with
  | fails | breaks | attends => exact tends.elim
  | performs performed =>
    cases a with
    | planTeardown r =>
      cases tends
      simp only [perform, Machine.planTeardown] at performed
      split at performed <;> cases performed
      · exact .inl ⟨_, List.mem_cons_self, rfl, rfl⟩
      · refine .inr (.inl ⟨.startTimer s (m.session s).epoch, ?_, rfl, rfl⟩)
        rw [frames_addTask, if_pos rfl]; exact List.mem_cons_self
    | checkUsed r =>
      cases tends
      cases performed
      split
      · refine .inr (.inl ⟨.planTeardown s, ?_, rfl⟩)
        rw [frames_addTask, if_pos rfl]; exact List.mem_cons_self
      · exact .inr (.inr (.inl ‹_›))
    | startTimer r epoch =>
      cases performed
      exact .inl ⟨_, List.mem_cons_self, tends⟩
    | awaitTimer r epoch deadline =>
      simp only [perform, Machine.awaitTimer] at performed
      split at performed <;> cases performed
      exact .inl ⟨_, List.mem_cons_self, tends⟩
    | teardown r epoch =>
      obtain ⟨rfl, rfl⟩ := tends
      simp only [perform, Machine.teardown] at performed
      split at performed
      · cases performed
      · split at performed
        · cases performed
          exact .inl ⟨_, List.mem_cons_self, rfl⟩
        · rename_i later; exact absurd rfl later
    | teardownUnlessUsed r =>
      cases tends
      cases (Takes.performs performed).move within with
      | plain kind => rcases kind with kind | kind | kind <;> cases kind
      | finishing top | finished top => cases top
      | refused kind => rcases kind with kind | kind <;> cases kind
      | stopped _ _ changed =>
        exact .inr (.inr (.inr (by rw [changed, Function.update_self])))
      | released same used changed =>
        cases same
        rcases used rfl with used | empty
        · exact .inr (.inr (.inl used))
        · exact .inr (.inr (.inr (by rw [changed, Function.update_self]; exact empty)))
    | _ => exact tends.elim

end LanguageRelay.Machine
