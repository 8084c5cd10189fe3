import LanguageRelay.Proofs.Relay.Passages
import LanguageRelay.Proofs.Relay.Retiring
import LanguageRelay.Proofs.Relay.States
namespace LanguageRelay

def Activity.winds : Activity → Bool
  | .close _ | .takeSlot _ | .clear _ => true
  | _ => false

def Operation.requests : Operation → Bool
  | .subscribe _ _ | .route _ _ _ => true
  | _ => false

namespace Machine
variable {m made next : Machine} {setup : Setup} {event : Event} {events later : List Event}
  {t u : TaskId} {s : SessionId} {p : ServerId} {a f : Activity} {rest : List Activity}
  {closers : List TaskId}

-- Every session can be found in the map.
def Listed (m : Machine) : Prop := ∀ s < m.sessions.length, ∃ key, m.map.find? key = some s

-- The server of the session has been taken to close it, and nobody else sees one to its end.
structure Wound (m : Machine) (s : SessionId) : Prop where
  shut : m.Shut s
  stopped : m.state s = .stopped ∨ ∃ u, .setState s .stopped ∈ m.frames u
  unretired : ∀ u, ¬ m.Retires s u

structure Running (m : Machine) : Prop where
  listed : Listed m
  undrained : ∀ u, .drain ∉ m.frames u
  unwound : ∀ u, ∀ f ∈ m.frames u, f.winds = false

-- The task `t` has announced it, and drains the map next.
structure Announced (m : Machine) (t : TaskId) : Prop where
  announced : m.isShutDown = true
  listed : Listed m
  stack : m.frames t = [.drain]
  alone : ∀ u, .drain ∈ m.frames u → u = t
  unwound : ∀ u, ∀ f ∈ m.frames u, f.winds = false

-- The task `t` waits for the tasks that close the sessions, one each.
structure Closing (m : Machine) (t : TaskId) (closers : List TaskId) : Prop where
  announced : m.isShutDown = true
  unlisted : m.map = []
  stack : m.frames t = [.join closers]
  undrained : ∀ u, .drain ∉ m.frames u
  within : ∀ u, ∀ f ∈ m.frames u, f.winds → u ∈ closers
  each : ∀ s < m.sessions.length, (∃ u ∈ closers, m.frames u = [.close s]) ∨
    (∃ u ∈ closers, m.frames u = [.takeSlot s]) ∨ m.Wound s

structure Over (m : Machine) : Prop where
  announced : m.isShutDown = true
  unlisted : m.map = []
  shut : ∀ s < m.sessions.length, m.Shut s
  stopped : ∀ s < m.sessions.length, m.state s = .stopped
  dead : ∀ s < m.sessions.length, ∀ p, ¬ m.Lives s p

-- How far the task `t` has come with shutting the relay down.
inductive Winding (m : Machine) (t : TaskId) : Prop where
  | announced : Announced m t → Winding m t
  | closing {closers : List TaskId} : Closing m t closers → Winding m t
  | ended : Over m → t < m.tasks.length → m.frames t = [] → Winding m t

theorem winds_of_stems (stems : Stems m a f) (winds : f.winds) : a.winds := by
  cases f with
  | close => exact stems.elim
  | takeSlot s => rw [show a = .close s from stems]; rfl
  | clear s => rw [show a = .takeSlot s from stems]; rfl
  | _ => cases winds

theorem Arises.winds (arises : Arises setup m event u f) (winds : f.winds) :
    (∃ g ∈ m.frames u, g.winds) ∨
    (∃ t rest, event.task? = some t ∧ m.frames t = .drain :: rest) ∨
    ∃ s, event = .call (.closeSession s) := by
  cases arises with
  | kept old => exact .inl ⟨f, old, winds⟩
  | stems _ stack _ _ stems =>
    exact .inl ⟨_, stack ▸ List.mem_cons_self, winds_of_stems stems winds⟩
  | begins step stack _ begins =>
    rcases begins_cases begins with ⟨r, _, rfl⟩ | ⟨r, _, rfl⟩ | ⟨e, _, rfl, rfl⟩
    · cases winds
    · cases winds
    · exact .inr (.inl ⟨_, _, step, stack⟩)
  | starts _ _ member =>
    simp only [startFrames, List.mem_cons, List.not_mem_nil, or_false] at member
    rcases member with rfl | rfl | rfl | rfl | rfl <;> cases winds
  | @asked operation asked _ member =>
    cases operation <;> cases List.mem_singleton.1 member <;> cases winds
    exact .inr (.inr ⟨_, asked⟩)
  | opened _ _ member =>
    simp only [socketFrames, List.mem_cons, List.not_mem_nil, or_false] at member
    rcases member with rfl | rfl | rfl | rfl <;> cases winds

-- While nobody drains the map and no session is closed on its own, nobody comes to close one.
theorem Sound.unwound (sound : Sound m) (moved : m.advance setup event = some next)
    (unwound : ∀ u, ∀ f ∈ m.frames u, f.winds = false)
    (undrained : ∀ t rest, event.task? = some t → m.frames t ≠ .drain :: rest)
    (ordinary : ∀ s, event ≠ .call (.closeSession s)) :
    ∀ u, ∀ f ∈ next.frames u, f.winds = false := by
  intro u f member
  refine Bool.eq_false_iff.2 fun winds => ?_
  rcases (sound.arises moved member).winds winds with ⟨g, old, winds⟩ | ⟨t, rest, step, stack⟩ |
    ⟨s, same⟩
  · rw [unwound u g old] at winds; cases winds
  · exact undrained t rest step stack
  · exact ordinary s same

theorem Arises.drains (arises : Arises setup m event u .drain) :
    .drain ∈ m.frames u ∨
    (event.task? = some u ∧ ∃ rest, m.frames u = .shutDown :: rest) ∧ m.isShutDown = false := by
  rcases arises.inner rfl (by simp [startFrames]) with old |
    ⟨a, rest, made, new, step, stack, taken, added, stems⟩
  · exact .inl old
  · cases (show a = .shutDown from stems)
    cases taken with
    | performs performed =>
      cases performed
      split at added
      · cases added
      · rename_i running
        exact .inr ⟨⟨step, _, stack⟩, Bool.eq_false_iff.2 running⟩

theorem Listed.enters (listed : Listed m) (enters : Enters m event next)
    (undrained : ∀ t rest, event.task? = some t → m.frames t ≠ .drain :: rest) : Listed next := by
  have same (map : next.map = m.map) (sessions : next.sessions.length = m.sessions.length) :
      Listed next := by
    intro s there
    rw [map]; exact listed s (sessions ▸ there)
  cases enters with
  | kept _ map sessions => exact same map sessions
  | announced _ _ _ map sessions => exact same map sessions
  | drained step stack => exact absurd stack (undrained _ _ step)
  | @made _ key _ _ _ _ _ _ _ unknown map sessions =>
    intro s there
    rw [map]
    rw [sessions] at there
    rcases Nat.lt_succ_iff_lt_or_eq.1 there with old | rfl
    · obtain ⟨other, found⟩ := listed s old
      refine ⟨other, ?_⟩
      rw [Keyed.find?_insert, if_neg]
      · exact found
      · rintro rfl
        rw [unknown] at found; cases found
    · exact ⟨key, by rw [Keyed.find?_insert, if_pos rfl]⟩

theorem isShutDown_of_enters (enters : Enters m event next) (announced : m.isShutDown = true) :
    next.isShutDown = true ∧ next.sessions.length = m.sessions.length ∧
    (m.map = [] → next.map = []) := by
  cases enters with
  | kept same map sessions => exact ⟨same.trans announced, sessions, map.trans⟩
  | made _ _ running => rw [announced] at running; cases running
  | announced _ _ same map sessions => exact ⟨same, sessions, map.trans⟩
  | drained _ _ same map sessions => exact ⟨same.trans announced, sessions, fun _ => map⟩

theorem Running.advance (running : Running m) (sound : Sound m)
    (moved : m.advance setup event = some next) (still : next.isShutDown = false)
    (ordinary : ∀ s, event ≠ .call (.closeSession s)) : Running next := by
  have undrained : ∀ t rest, event.task? = some t → m.frames t ≠ .drain :: rest :=
    fun t rest _ stack => running.undrained t (stack ▸ List.mem_cons_self)
  refine ⟨running.listed.enters (enters moved) undrained, fun u member => ?_,
    sound.unwound moved running.unwound undrained ordinary⟩
  rcases (sound.arises moved member).drains with old | ⟨⟨step, rest, stack⟩, _⟩
  · exact running.undrained u old
  · obtain ⟨_, _, taken, _, _, shape⟩ := sound.takes moved step stack nofun
    cases taken with
    | performs performed =>
      cases performed
      rw [shape] at still
      cases still

theorem Running.announces (running : Running m) (sound : Sound m) (first : m.isShutDown = false)
    (stack : m.frames t = [.shutDown]) (moved : m.advance setup (.run t) = some next) :
    Announced next t := by
  obtain ⟨made, new, taken, replaced, _, shape⟩ := sound.takes moved rfl stack (by simp)
  cases taken with
  | performs performed =>
    simp only [perform, Machine.shutDown, first] at performed
    cases performed
    refine ⟨by rw [shape]; rfl, ?_, replaced, fun u member => ?_,
      sound.unwound moved running.unwound (fun v rest _ drain => ?_) (by simp)⟩
    · rw [shape]; exact running.listed
    · rcases (sound.arises moved member).drains with old | ⟨⟨step, _⟩, _⟩
      · exact absurd old (running.undrained u)
      · exact (Option.some.inj step).symm
    · exact running.undrained v (drain ▸ List.mem_cons_self)

theorem Announced.drains (announced : Announced m t) (sound : Sound m)
    (moved : m.advance setup (.run t) = some next) :
    Closing next t ((List.range m.map.length).map (m.tasks.length + ·)) := by
  have there : t < m.tasks.length := lt_of_mem_frames (announced.stack ▸ List.mem_cons_self)
  obtain ⟨still, sessions, _⟩ := isShutDown_of_enters (enters moved) announced.announced
  obtain ⟨made, new, taken, replaced, _, shape⟩ := sound.takes moved rfl announced.stack nofun
  have drained : new = [.join ((List.range m.map.length).map (m.tasks.length + ·))] ∧ next.map = [] ∧
      ∀ u, u ≠ t → next.frames u = if u < m.tasks.length then m.frames u
        else (m.map[u - m.tasks.length]?.map fun e => [Activity.close e.2]).getD [] := by
    cases taken with
    | performs performed =>
      simp only [perform, Machine.drain] at performed
      split at performed <;> cases performed
      refine ⟨rfl, ?_, fun u other => ?_⟩
      · rw [shape]
        exact (kept_drain (m := { m with map := [] }) m.map).2.1
      · rw [shape, frames_updateTask, if_neg fun both => other both.1, frames_drain]
        rfl
  obtain ⟨rfl, unlisted, others⟩ := drained
  refine ⟨still, unlisted, replaced, fun u member => ?_, fun u f member winds => ?_,
    fun s known => ?_⟩
  · rcases (sound.arises moved member).drains with old | ⟨_, running⟩
    · rw [announced.alone u old, replaced] at member
      cases List.mem_singleton.1 member
    · rw [announced.announced] at running; cases running
  · by_cases here : u = t
    · rw [here, replaced] at member
      cases List.mem_singleton.1 member; cases winds
    · rw [others u here] at member
      split at member <;> rename_i old
      · rw [announced.unwound u f member] at winds; cases winds
      · cases entry : m.map[u - m.tasks.length]? with
        | none => rw [entry] at member; cases member
        | some e =>
          obtain ⟨bound, _⟩ := List.getElem?_eq_some_iff.1 entry
          refine List.mem_map.2 ⟨u - m.tasks.length, List.mem_range.2 bound, ?_⟩
          exact Nat.add_sub_of_le (Nat.le_of_not_lt old)
  · obtain ⟨key, found⟩ := announced.listed s (sessions ▸ known)
    obtain ⟨i, bound, entry⟩ := List.getElem_of_mem (Keyed.mem_of_find? found)
    refine .inl ⟨m.tasks.length + i, List.mem_map.2 ⟨i, List.mem_range.2 bound, rfl⟩, ?_⟩
    have fresh : m.tasks.length + i ≠ t := Nat.ne_of_gt (Nat.lt_add_right i there)
    rw [others _ fresh, if_neg (Nat.not_lt_of_le (Nat.le_add_right ..)), Nat.add_sub_cancel_left,
      List.getElem?_eq_getElem bound, entry]
    rfl

theorem Announced.advance (announced : Announced m t) (sound : Sound m)
    (moved : m.advance setup event = some next) (other : event.task? ≠ some t)
    (ordinary : ∀ s, event ≠ .call (.closeSession s)) : Announced next t := by
  obtain ⟨still, _, _⟩ := isShutDown_of_enters (enters moved) announced.announced
  have transition := (advance_transition sound.present moved).1
  have undrained : ∀ v rest, event.task? = some v → m.frames v ≠ .drain :: rest := by
    intro v rest step stack
    have here := announced.alone v (stack ▸ List.mem_cons_self)
    exact other (here ▸ step)
  refine ⟨still, announced.listed.enters (enters moved) undrained, ?_, fun u member => ?_,
    sound.unwound moved announced.unwound undrained ordinary⟩
  · rcases transition.stack announced.stack (by simp [IsForwarder]) with ⟨step, _⟩ | ⟨_, kept⟩
    · exact absurd step other
    · exact kept
  · rcases (sound.arises moved member).drains with old | ⟨_, running⟩
    · exact announced.alone u old
    · rw [announced.announced] at running; cases running

theorem Shut.advance (shut : m.Shut s) (stately : Stately setup m) (sound : Sound m)
    (happens : Happens setup m event next) : next.Shut s := by
  cases happens with
  | turned _ turned taken leaves shape => exact shut.turned stately.tied sound turned taken leaves shape
  | started _ started launches => exact shut.started started launches
  | ambient _ ambient outside => exact shut.ambient ambient outside

theorem Shut.state (shut : m.Shut s) (happens : Happens setup m event next)
    (stopped : m.state s = .stopped) : next.state s = .stopped := by
  cases happens with
  | @turned t a rest _ _ _ turned _ leaves _ =>
    rcases leaves.foot.state s with same | set
    · exact same.trans stopped
    · have member : next.state s ∈ m.pending s t := by
        rw [pending_of_stack turned.stack, set]
        simp [Activity.sets?, Machine.state]
      exact (shut.sets t _ member).1
  | started _ _ launches => exact (launches.state s).trans stopped
  | ambient _ _ outside =>
    rw [Machine.state, session, outside.sessions]
    exact stopped

theorem Wound.advance (wound : m.Wound s) (stately : Stately setup m) (sound : Sound m)
    (moved : m.advance setup event = some next) : next.Wound s := by
  have happens := sound.happens moved
  have transition := (advance_transition sound.present moved).1
  refine ⟨wound.shut.advance stately sound happens, ?_, fun u retires => ?_⟩
  · rcases wound.stopped with stopped | ⟨u, member⟩
    · exact .inl (wound.shut.state happens stopped)
    · rcases transition.kept member nofun with ⟨step, rest, stack⟩ | still
      · obtain ⟨made, new, taken, _, session, _⟩ := sound.takes moved step stack nofun
        have set := taken.setState (sound.present.frames u _ member)
        left
        rw [Machine.state, session]
        exact set
      · exact .inr ⟨u, still⟩
  · rcases retires.earlier sound.locked transition with before | ⟨_, _, _, occupied⟩
    · exact wound.unretired u before
    · exact occupied wound.shut.empty

theorem wound_of_takeSlot (stately : Stately setup m) (sound : Sound m)
    (stack : m.frames u = [.takeSlot s]) (step : event.task? = some u)
    (moved : m.advance setup event = some next) : next.Wound s := by
  have within := sound.present.frames u _ (stack ▸ List.mem_cons_self)
  have transition := (advance_transition sound.present moved).1
  obtain ⟨made, new, taken, replaced, session, _⟩ := sound.takes moved step stack nofun
  cases taken with
  | performs performed =>
    simp only [perform, Machine.takeSlot] at performed
    split at performed <;> rename_i free <;> cases performed
    have free : (m.custody s).lock = none := Option.not_isSome_iff_eq_none.1 free
    have lock : (next.custody s).lock = none := by
      show (next.session s).lock = none
      rw [session, session_updateSession within]
      exact free
    have sets : .setState s .stopped ∈ next.frames u := by
      rw [replaced]; simp
    refine ⟨?_, .inr ⟨u, sets⟩, fun v retires => ?_⟩
    · rcases (stately.advance sound (sound.happens moved)).phase s with orderly | shut
      · have nothing := orderly.quiet lock u
        have member : SessionState.stopped ∈ next.pending s u :=
          List.mem_filterMap.2 ⟨_, sets, by simp [Activity.sets?]⟩
        rw [nothing] at member; cases member
      · exact shut
    · rcases retires.earlier sound.locked transition with before | ⟨same, ⟨rest, top⟩, _⟩
      · exact sound.locked.not_retires free before
      · cases step.symm.trans same
        rw [stack] at top; cases top

theorem Closing.advance (closing : Closing m t closers) (stately : Stately setup m) (sound : Sound m)
    (moved : m.advance setup event = some next) (other : event.task? ≠ some t)
    (ordinary : ∀ s, event ≠ .call (.closeSession s)) : Closing next t closers := by
  obtain ⟨still, sessions, unlisted⟩ := isShutDown_of_enters (enters moved) closing.announced
  have transition := (advance_transition sound.present moved).1
  refine ⟨still, unlisted closing.unlisted, ?_, fun u member => ?_, fun u f member winds => ?_,
    fun s known => ?_⟩
  · rcases transition.stack closing.stack (by simp [IsForwarder]) with ⟨step, _⟩ | ⟨_, kept⟩
    · exact absurd step other
    · exact kept
  · rcases (sound.arises moved member).drains with old | ⟨_, running⟩
    · exact closing.undrained u old
    · rw [closing.announced] at running; cases running
  · rcases (sound.arises moved member).winds winds with ⟨g, old, winds⟩ | ⟨v, rest, step, stack⟩ |
      ⟨s, same⟩
    · exact closing.within u g old winds
    · exact absurd (stack ▸ List.mem_cons_self) (closing.undrained v)
    · exact absurd same (ordinary s)
  · rcases closing.each s (sessions ▸ known) with ⟨u, among, stack⟩ | ⟨u, among, stack⟩ | wound
    · rcases transition.stack stack (by simp [IsForwarder]) with ⟨step, _⟩ | ⟨_, kept⟩
      · obtain ⟨made, new, taken, replaced, _⟩ := sound.takes moved step stack (by simp)
        cases taken with
        | performs performed => cases performed; exact .inr (.inl ⟨u, among, replaced⟩)
      · exact .inl ⟨u, among, kept⟩
    · rcases transition.stack stack (by simp [IsForwarder]) with ⟨step, _⟩ | ⟨_, kept⟩
      · exact .inr (.inr (wound_of_takeSlot stately sound stack step moved))
      · exact .inr (.inl ⟨u, among, kept⟩)
    · exact .inr (.inr (wound.advance stately sound moved))

-- Once all have been closed nothing of it is left over.
theorem Closing.joins (closing : Closing m t closers) (stately : Stately setup m) (sound : Sound m)
    (guarded : Guarded m) (moved : m.advance setup (.run t) = some next) :
    Over next ∧ next.frames t = [] := by
  obtain ⟨still, sessions, unlisted⟩ := isShutDown_of_enters (enters moved) closing.announced
  obtain ⟨made, new, taken, replaced, _⟩ := sound.takes moved rfl closing.stack (by simp)
  have joined : new = [] ∧ ∀ u ∈ closers, m.frames u = [] := by
    cases taken with
    | performs performed =>
      simp only [perform, Machine.join] at performed
      split at performed <;> rename_i all <;> cases performed
      exact ⟨rfl, fun u among => List.isEmpty_iff.1 (List.all_eq_true.1 all u among)⟩
  obtain ⟨rfl, gone⟩ := joined
  have unwound : ∀ u, ∀ f ∈ next.frames u, f.winds = false := by
    refine sound.unwound moved (fun u f member => Bool.eq_false_iff.2 fun winds => ?_)
      (fun v rest _ stack => closing.undrained v (stack ▸ List.mem_cons_self)) (by simp)
    rw [gone u (closing.within u f member winds)] at member; cases member
  have wound : ∀ s < next.sessions.length, next.Wound s := by
    intro s known
    rcases closing.each s (sessions ▸ known) with ⟨u, among, stack⟩ | ⟨u, among, stack⟩ | wound
    · rw [gone u among] at stack; cases stack
    · rw [gone u among] at stack; cases stack
    · exact wound.advance stately sound moved
  refine ⟨⟨still, unlisted closing.unlisted, fun s known => (wound s known).shut, fun s known => ?_,
    fun s known p lives => ?_⟩, replaced⟩
  · rcases (wound s known).stopped with stopped | ⟨u, sets⟩
    · exact stopped
    · have member : SessionState.stopped ∈ next.pending s u :=
        List.mem_filterMap.2 ⟨_, sets, by simp [Activity.sets?]⟩
      have clears := ((wound s known).shut.sets u _ member).2
      cases unwound u _ clears
  · rcases guarded.advance sound moved s p lives with ⟨slot, found, _⟩ | ⟨u, f, member, part, last⟩
    · rw [(wound s known).shut.empty] at found; cases found
    · rcases last with unlock | clears
      · exact (wound s known).unretired u ⟨unlock, f, member, p, part⟩
      · cases unwound u _ clears

theorem Over.advance (ended : Over m) (stately : Stately setup m) (sound : Sound m)
    (moved : m.advance setup event = some next) : Over next := by
  obtain ⟨still, sessions, unlisted⟩ := isShutDown_of_enters (enters moved) ended.announced
  have happens := sound.happens moved
  refine ⟨still, unlisted ended.unlisted, fun s known => ?_, fun s known => ?_, fun s known p lives => ?_⟩
  · exact (ended.shut s (sessions ▸ known)).advance stately sound happens
  · exact (ended.shut s (sessions ▸ known)).state happens (ended.stopped s (sessions ▸ known))
  · refine ended.dead s (sessions ▸ known) p ?_
    cases happens with
    | turned _ turned => exact (Lives.turned turned).1 lives
    | started _ started =>
      rcases started.lives.1 lives with old | ⟨rfl, _⟩
      · exact old
      · exact absurd (started.stack ▸ List.mem_cons_self) ((ended.shut _ (sessions ▸ known)).spawns _ _)
    | ambient _ ambient => exact Lives.ambient ambient lives

theorem Winding.advance (winding : Winding m t) (stately : Stately setup m) (sound : Sound m)
    (guarded : Guarded m) (moved : m.advance setup event = some next)
    (ordinary : ∀ s, event ≠ .call (.closeSession s)) : Winding next t := by
  have transition := (advance_transition sound.present moved).1
  have more := sound.tasks_le moved
  cases winding with
  | announced announced =>
    by_cases own : event.task? = some t
    · cases run_of_top announced.stack own moved nofun nofun
      exact .closing (announced.drains sound moved)
    · exact .announced (announced.advance sound moved own ordinary)
  | closing closing =>
    by_cases own : event.task? = some t
    · cases run_of_top closing.stack own moved nofun nofun
      have there := lt_of_mem_frames (closing.stack ▸ List.mem_cons_self)
      obtain ⟨ended, done⟩ := closing.joins stately sound guarded moved
      exact .ended ended (Nat.lt_of_lt_of_le there more) done
    · exact .closing (closing.advance stately sound moved own ordinary)
  | ended ended there done =>
    exact .ended (ended.advance stately sound moved) (Nat.lt_of_lt_of_le there more)
      (transition.idle there done).1

theorem Winding.runs (winding : Winding m t) (stately : Stately setup m) (sound : Sound m)
    (guarded : Guarded m) (ran : m.runs setup events = some next)
    (ordinary : ∀ s, .call (.closeSession s) ∉ events) : Winding next t := by
  induction events generalizing m with
  | nil => cases ran; exact winding
  | cons event rest ih =>
    obtain ⟨middle, moved, ran⟩ := Option.bind_eq_some_iff.1 ran
    refine ih ?_ (stately.advance sound (sound.happens moved)) (sound.advance moved)
      (guarded.advance sound moved) ran fun s member => ordinary s (List.mem_cons_of_mem _ member)
    refine winding.advance stately sound guarded moved fun s same => ?_
    exact ordinary s (by rw [same]; simp)

theorem spawn_of_launch {failure : Option StartError}
    (moved : m.advance setup (.launch t failure) = some next) :
    ∃ s after rest, m.frames t = .spawn s after :: rest := by
  obtain ⟨a, rest, made, new, stack, taken, _⟩ := turn_cases moved
  cases a with
  | spawn s after => exact ⟨s, after, rest, stack⟩
  | _ => cases taken

theorem Over.runs (ended : Over m) (stately : Stately setup m) (sound : Sound m)
    (ran : m.runs setup later = some next) :
    Over next ∧ next.sessions.length = m.sessions.length ∧
    ∀ step ∈ m.steps setup later, ∀ u failure, step.event ≠ .launch u failure := by
  induction later generalizing m with
  | nil => cases ran; exact ⟨ended, rfl, fun step member => nomatch member⟩
  | cons event rest ih =>
    obtain ⟨middle, moved, ran⟩ := Option.bind_eq_some_iff.1 ran
    obtain ⟨still, sessions, quiet⟩ := ih (ended.advance stately sound moved)
      (stately.advance sound (sound.happens moved)) (sound.advance moved) ran
    refine ⟨still, sessions.trans (isShutDown_of_enters (enters moved) ended.announced).2.1, ?_⟩
    intro step member u failure launch
    simp only [steps, moved, List.mem_cons] at member
    rcases member with rfl | after
    · subst launch
      obtain ⟨s, after, rest, stack⟩ := spawn_of_launch moved
      have top : .spawn s after ∈ m.frames u := stack ▸ List.mem_cons_self
      exact (ended.shut s (sound.present.frames u _ top)).spawns u after top
    · exact quiet step after u failure launch

end Machine
end LanguageRelay
