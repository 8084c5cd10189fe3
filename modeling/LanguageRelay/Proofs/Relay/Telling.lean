import Mathlib.Data.List.Chain
import LanguageRelay.Proofs.Relay.Endings
import LanguageRelay.Proofs.Relay.Passages
namespace LanguageRelay

namespace Activity

-- The frames that have part in telling of a state, each only below one of its own kind.
def isTelling : Activity → Bool
  | .broadcast _ (.status _) | .deliver _ _ _ (.status _) | .evict _ => true
  | _ => false

def isDelivering : Activity → Bool
  | .broadcast _ _ | .deliver _ _ _ _ | .tellState _ _ | .notify _ _ _ => true
  | _ => false

def status? : Activity → Option (SessionId × StatusEvent)
  | .broadcast s (.status event) | .deliver s _ _ (.status event) => some (s, event)
  | _ => none

end Activity

namespace Machine

structure Adjoins (upper lower : Activity) : Prop where
  sets : ∀ s state, upper = .setState s state →
    lower = .unlock s ∨ ∃ event, lower = .broadcast s (.status event) ∧ event.state = state
  announces : ∀ s event, lower = .broadcast s (.status event) → upper = .setState s event.state
  delivers : ∀ s pending gone event, lower = .deliver s pending gone (.status event) →
    ∃ c, upper = .evict c
  evicts : ∀ c, lower ≠ .evict c

def Woven (frames : List Activity) : Prop := frames.IsChain Adjoins

-- What a task is about to tell the subscribers of a session.
inductive Tells (s : SessionId) (event : StatusEvent) : List Activity → Prop where
  | announces {below} : Tells s event (.broadcast s (.status event) :: below)
  | delivers {c pending gone below} :
      Tells s event (.deliver s (c :: pending) gone (.status event) :: below)
  | evicts {d c pending gone below} :
      Tells s event (.evict d :: .deliver s (c :: pending) gone (.status event) :: below)

-- The task has read the state for a late subscriber, and has taken no step since.
def Noticed (taken : List Step) (t : TaskId) (s : SessionId) (c : ConnectionId)
    (state : SessionState) : Prop :=
  ∃ earlier read between, taken = earlier ++ read :: between ∧ read.Performs t (.tellState s c) ∧
    (read.before.session s).state = state ∧ ∀ step ∈ between, step.event.task? ≠ some t

-- What a task is about to tell is the state that it watches over, or what it has read of it.
inductive Backs (m : Machine) (taken : List Step) (t : TaskId) (s : SessionId) (told : StatusEvent) :
    Prop where
  | own : (m.custody s).lock = some t → m.state s = told.state → Backs m taken t s told
  | notice {c below} : m.frames t = .deliver s [c] [] (.status told) :: below →
      Noticed taken t s c told.state → Backs m taken t s told

-- Every task that is about to tell of an open session is backed.
def Backed (m : Machine) (taken : List Step) : Prop :=
  ∀ t s told, Tells s told (m.frames t) → (m.custody s).closed = false → Backs m taken t s told

variable {m made next : Machine} {setup : Setup} {event : Event} {events : List Event}
  {taken : List Step} {t u : TaskId} {s r : SessionId} {a f x y upper lower : Activity}
  {rest new frames : List Activity} {state : SessionState} {told : StatusEvent}

theorem Adjoins.announcement (event : StatusEvent) :
    Adjoins (.setState s event.state) (.broadcast s (.status event)) :=
  ⟨by simp, by simp, by simp, by simp⟩

theorem Adjoins.silence : Adjoins (.setState s state) (.unlock s) :=
  ⟨by simp, by simp, by simp, by simp⟩

theorem Adjoins.plain (quiet : ∀ s state, upper ≠ .setState s state) (loose : lower.isTelling = false) :
    Adjoins upper lower := by
  refine ⟨fun s state same => absurd same (quiet s state), ?_, ?_, ?_⟩
  · rintro s event rfl; cases loose
  · rintro s pending gone event rfl; cases loose
  · rintro c rfl; cases loose

theorem Adjoins.replace (adjoins : Adjoins a y) (sets : ∀ s state, a ≠ .setState s state)
    (evicts : ∀ c, a ≠ .evict c) (quiet : ∀ s state, x ≠ .setState s state) : Adjoins x y := by
  refine ⟨fun s state same => absurd same (quiet s state), fun s event same => ?_,
    fun s pending gone event same => ?_, adjoins.evicts⟩
  · exact absurd (adjoins.announces s event same) (sets s _)
  · obtain ⟨c, same⟩ := adjoins.delivers s pending gone event same
    exact absurd same (evicts c)

theorem Woven.of_plain (sets : ∀ f ∈ new, ∀ s state, f ≠ .setState s state)
    (loose : ∀ f ∈ new, f.isTelling = false) : Woven new :=
  (List.pairwise_of_forall_mem_list fun upper above lower below =>
    .plain (sets upper above) (loose lower below)).isChain

theorem not_isTelling_of_outer (outer : f.role = .outer) : f.isTelling = false := by
  cases f <;> first | rfl | cases outer

theorem not_isTelling_of_isEntry (entry : f.isEntry) : f.isTelling = false := by
  cases f <;> first | rfl | cases entry

theorem ne_setState_of_outer (outer : f.role = .outer) (s : SessionId) (state : SessionState) :
    f ≠ .setState s state := by
  rintro rfl; cases outer

theorem ne_setState_of_isEntry (entry : f.isEntry) (s : SessionId) (state : SessionState) :
    f ≠ .setState s state := by
  rintro rfl; cases entry

theorem Woven.announced (event : StatusEvent) (loose : ∀ f ∈ rest, f.isTelling = false)
    (quiet : ∀ f ∈ rest, ∀ s state, f ≠ .setState s state) :
    Woven (.setState s event.state :: .broadcast s (.status event) :: rest) := by
  refine List.isChain_cons_cons.2 ⟨.announcement event, ?_⟩
  refine List.isChain_cons.2 ⟨fun y first => .plain (by simp) ?_, Woven.of_plain quiet loose⟩
  exact loose y (List.mem_of_mem_head? first)

theorem ne_setState_of_last (frames : List Activity) {last : Activity}
    (quiet : ∀ s state, last ≠ .setState s state) :
    ∀ x ∈ (frames ++ [last]).getLast?, ∀ s state, x ≠ .setState s state := by
  intro x final
  rw [List.getLast?_concat] at final
  cases final
  exact quiet

theorem ne_setState_of_all (quiet : ∀ f ∈ new, ∀ s state, f ≠ .setState s state) :
    ∀ x ∈ new.getLast?, ∀ s state, x ≠ .setState s state :=
  fun x final => quiet x (List.mem_of_getLast? final)

theorem Shifts.woven {held : Custody} (shifts : Shifts m t s a held new) (steers : a.Steers s)
    (starts : ∀ after, a ≠ .spawn s after) :
    Woven new ∧ ∀ x ∈ new.getLast?, ∀ s state, x ≠ .setState s state := by
  have loose (outer : ∀ f ∈ new, f.role = .outer) :
      Woven new ∧ ∀ x ∈ new.getLast?, ∀ s state, x ≠ .setState s state :=
    ⟨.of_plain (fun f member => ne_setState_of_outer (outer f member))
      fun f member => not_isTelling_of_outer (outer f member),
      ne_setState_of_all fun f member => ne_setState_of_outer (outer f member)⟩
  have alone : Woven [.setState s .stopped, .unlock s] := List.isChain_pair.2 .silence
  cases shifts with
  | stale | outdated => exact loose (by simp)
  | joined => exact loose outer_whenRunning
  | released _ _ _ outer => exact loose outer
  | vacant | barred | locked => exact ⟨.singleton _, by simp⟩
  | vacated | outlived =>
    exact ⟨.announced ⟨_, _, _, _⟩ (by simp [Activity.isTelling]) (by simp),
      ne_setState_of_last [_, _] (by simp)⟩
  | begun =>
    refine ⟨.announced (.plain _ _) (by simp [Activity.isTelling]) (by simp), ?_⟩
    exact ne_setState_of_last [_, _] (by simp)
  | failed | broken => exact absurd rfl (starts _)
  | stopped =>
    refine ⟨List.isChain_cons_cons.2 ⟨.plain (by simp) rfl, alone⟩, ?_⟩
    exact ne_setState_of_last [_, _] (by simp)
  | taken _ stops =>
    have closing : Woven [.setState s .stopped, .broadcast s (m.stateEvent s .stopped), .clear s] :=
      .announced (.plain _ _) (by simp [Activity.isTelling]) (by simp)
    rcases stops with ⟨_, rfl⟩ | ⟨slot, grace, _, rfl⟩
    · exact ⟨closing, ne_setState_of_last [_, _] (by simp)⟩
    · refine ⟨List.isChain_cons_cons.2 ⟨.plain (by simp) rfl, closing⟩, ?_⟩
      exact ne_setState_of_last [_, _, _] (by simp)
  | aside other => exact absurd steers other

theorem Shifts.first {held : Custody} (shifts : Shifts m t s a held new) (steers : a.Steers s)
    (starts : ∀ after, a ≠ .spawn s after) : ∀ x ∈ new.head?, x.isTelling = false := by
  have loose (outer : ∀ f ∈ new, f.role = .outer) : ∀ x ∈ new.head?, x.isTelling = false :=
    fun x first => not_isTelling_of_outer (outer x (List.mem_of_mem_head? first))
  cases shifts with
  | stale | outdated => exact loose (by simp)
  | joined => exact loose outer_whenRunning
  | released _ _ _ outer => exact loose outer
  | failed | broken => exact absurd rfl (starts _)
  | taken _ stops =>
    rcases stops with ⟨_, rfl⟩ | ⟨slot, grace, _, rfl⟩ <;> simp [Activity.isTelling]
  | aside other => exact absurd steers other
  | _ => simp [publish, Activity.isTelling]

theorem not_isTelling_of_stems (stems : Stems m a f) (loose : ∀ s, ¬ a.Steers s)
    (silent : a.isDelivering = false) : f.isTelling = false := by
  cases f with
  | broadcast s event =>
    cases event with
    | status => exact absurd (steers_of_announces stems.1) (loose s)
    | _ => rfl
  | deliver s pending gone event =>
    cases event with
    | status =>
      rcases stems with rfl | ⟨_, rfl⟩ | ⟨_, _, rfl⟩ | ⟨_, _, rfl⟩ <;> cases silent
    | _ => rfl
  | evict =>
    obtain ⟨_, _, _, _, rfl⟩ := stems
    cases silent
  | _ => rfl

theorem Woven.deliver {pending gone : List ConnectionId} {event : ClientEvent}
    (performed : m.deliver s pending gone event = some (made, new)) : Woven new := by
  simp only [Machine.deliver] at performed
  split at performed
  · cases performed
    split
    · exact .nil
    · exact .singleton _
  · split at performed <;> cases performed
    · exact .singleton _
    · exact List.isChain_pair.2 ⟨by simp, by simp, by simp, by simp⟩
    · exact .singleton _

theorem Takes.first (taken : Takes setup m t a made new) (within : a.Within m)
    (silent : a.isDelivering = false) : ∀ x ∈ new.head?, x.isTelling = false := by
  by_cases steers : ∃ s, a.Steers s
  · obtain ⟨s, steers⟩ := steers
    cases taken with
    | fails failed | breaks _ failed => cases failed; simp [Activity.isTelling]
    | attends => exact steers.elim
    | performs performed =>
      refine ((Takes.performs performed).shifts within s).first steers ?_
      rintro after rfl
      cases performed
  · intro x first
    exact not_isTelling_of_stems (taken.leaves.stems x (List.mem_of_mem_head? first))
      (fun s steers' => steers ⟨s, steers'⟩) silent

theorem Takes.woven (taken : Takes setup m t a made new) (within : a.Within m) :
    Woven new ∧ ∀ x ∈ new.getLast?, ∀ s state, x ≠ .setState s state := by
  by_cases steers : ∃ s, a.Steers s
  · obtain ⟨s, steers⟩ := steers
    cases taken with
    | fails failed =>
      cases failed
      refine ⟨.announced ⟨_, _, _, _⟩ (by simp [Activity.isTelling]) (by simp), ?_⟩
      exact ne_setState_of_last [_, _, _] (by simp)
    | breaks _ broke => cases broke; exact ⟨.singleton _, by simp⟩
    | attends => exact steers.elim
    | performs performed =>
      refine ((Takes.performs performed).shifts within s).woven steers ?_
      rintro after rfl
      cases performed
  · have loose (s : SessionId) : ¬ a.Steers s := fun steers' => steers ⟨s, steers'⟩
    have stems := taken.leaves.stems
    have quiet : ∀ f ∈ new, ∀ s state, f ≠ .setState s state := by
      rintro f member s state rfl
      exact loose s (steers_of_announces (stems _ member))
    refine ⟨?_, ne_setState_of_all quiet⟩
    by_cases silent : a.isDelivering = false
    · exact .of_plain quiet fun f member => not_isTelling_of_stems (stems f member) loose silent
    · cases taken with
      | fails | breaks | attends => exact absurd rfl silent
      | performs performed =>
        cases a with
        | broadcast | tellState => cases performed; exact .singleton _
        | notify =>
          cases performed
          split
          · exact .singleton _
          · exact .nil
        | deliver => exact .deliver performed
        | _ => exact absurd rfl silent

theorem Takes.new_of_top (taken : Takes setup m t a made new)
    (top : (∃ s state, a = .setState s state) ∨ ∃ c, a = .evict c) : new = [] := by
  cases taken with
  | fails | breaks | attends => simp at top
  | performs performed =>
    rcases top with ⟨s, state, rfl⟩ | ⟨c, rfl⟩ <;> cases performed <;> rfl

theorem Woven.replace (woven : Woven (a :: rest)) (taken : Takes setup m t a made new)
    (within : a.Within m) : Woven (new ++ rest) := by
  obtain ⟨above, below⟩ := List.isChain_cons.1 woven
  obtain ⟨own, last⟩ := taken.woven within
  refine List.isChain_append.2 ⟨own, below, fun x final y first => ?_⟩
  have some : new ≠ [] := by
    rintro rfl; cases final
  refine (above y first).replace (fun s state same => ?_) (fun c same => ?_) (last x final)
  · exact some (taken.new_of_top (.inl ⟨s, state, same⟩))
  · exact some (taken.new_of_top (.inr ⟨c, same⟩))

-- What holds of neighbours on the stacks of tasks still does when it holds of what a step puts in.
theorem isChain_advance {R : Activity → Activity → Prop} (chained : ∀ u, (m.frames u).IsChain R)
    (happens : Happens setup m event next)
    (entries : ∀ upper lower : Activity, upper.isEntry → lower.isEntry → R upper lower)
    (turns : ∀ t a rest made new, m.frames t = a :: rest → Takes setup m t a made new →
      (new ++ rest).IsChain R)
    (starts : ∀ t s after rest p, m.frames t = .spawn s after :: rest →
      (.setState s .running :: .broadcast s (m.stateEvent s .running) :: .started s after p ::
        rest).IsChain R) : ∀ u, (next.frames u).IsChain R := by
  intro u
  have elsewhere (elsewhere : Elsewhere m next u)
      (begun : ∀ u, m.tasks.length ≤ u → ∀ f ∈ next.frames u, f.isEntry) :
      (next.frames u).IsChain R := by
    rcases elsewhere with kept | ⟨beyond, _⟩ | ⟨_, broken⟩
    · rw [kept]; exact chained u
    · exact (List.pairwise_of_forall_mem_list fun upper above lower below =>
        entries upper lower (begun u beyond upper above) (begun u beyond lower below)).isChain
    · rw [broken]; exact .nil
  cases happens with
  | @turned t a rest made new step turned taken leaves shape =>
    by_cases here : u = t
    · subst u
      rw [turned.replaced]
      exact turns t a rest made new turned.stack taken
    · exact elsewhere (turned.elsewhere u here) leaves.foot.begun
  | @started t s after rest launch started launches =>
    by_cases here : u = t
    · subst u
      rw [launches.replaced]
      exact starts t s after rest _ started.stack
    · by_cases pump : u = m.tasks.length
      · rw [pump, started.pump]; exact .singleton _
      · by_cases awaits : u = m.tasks.length + 1
        · rw [awaits, started.awaitExit]; exact .singleton _
        · rw [started.elsewhere u here pump awaits]; exact chained u
  | ambient _ ambient outside => exact elsewhere (ambient.elsewhere u) outside.begun

theorem woven_advance (woven : ∀ u, Woven (m.frames u)) (sound : Sound m)
    (happens : Happens setup m event next) : ∀ u, Woven (next.frames u) := by
  refine isChain_advance woven happens (fun upper lower first second => ?_)
    (fun t a rest made new stack taken => ?_) fun t s after rest p stack => ?_
  · exact .plain (ne_setState_of_isEntry first) (not_isTelling_of_isEntry second)
  · exact Woven.replace (stack ▸ woven t) taken
      (sound.present.frames t a (stack ▸ List.mem_cons_self))
  · obtain ⟨above, below⟩ := List.isChain_cons.1 (stack ▸ woven t)
    refine List.isChain_cons_cons.2 ⟨.announcement (.plain _ _), List.isChain_cons_cons.2
      ⟨.plain (by simp) rfl, List.isChain_cons.2 ⟨fun y first => ?_, below⟩⟩⟩
    exact (above y first).replace (by simp) (by simp) (by simp)

theorem Tells.isTelling (tells : Tells s told (x :: rest)) : x.isTelling = true := by
  cases tells <;> rfl

theorem Tells.not_begun (tells : Tells s told frames) : ¬ ∀ f ∈ frames, f.isEntry := by
  intro entries
  cases tells <;> cases entries _ List.mem_cons_self

theorem Adjoins.tells (adjoins : Adjoins a y) (tells : Tells s told (y :: rest)) :
    a = .setState s told.state ∨ Tells s told (a :: y :: rest) ∧ ∃ c, a = .evict c := by
  cases tells with
  | announces => exact .inl (adjoins.announces _ _ rfl)
  | delivers =>
    obtain ⟨c, rfl⟩ := adjoins.delivers _ _ _ _ rfl
    exact .inr ⟨.evicts, c, rfl⟩
  | evicts => exact absurd rfl (adjoins.evicts _)

theorem Tells.of_deliver {pending gone : List ConnectionId} {event : ClientEvent}
    (performed : m.deliver r pending gone event = some (made, new)) (own : new ≠ [])
    (tells : Tells s told (new ++ rest)) :
    Tells s told (.deliver r pending gone event :: rest) ∧ ∀ c, pending ≠ [c] := by
  simp only [Machine.deliver] at performed
  split at performed
  · cases performed
    split at own
    · exact absurd rfl own
    · rename_i left
      rw [if_neg left] at tells
      cases tells
  · split at performed <;> cases performed <;> cases tells <;> exact ⟨.delivers, by simp⟩

-- Where what a task is about to tell comes from: it has set the state itself, it goes on telling, or it
-- has just read the state for a late subscriber.
theorem Takes.tells (taken : Takes setup m t a made new) (within : a.Within m)
    (woven : Woven (a :: rest)) (tells : Tells s told (new ++ rest)) :
    a = .setState s told.state ∨
    (Tells s told (a :: rest) ∧ a.role = .inner ∧ (∀ r state, a ≠ .setState r state) ∧
      ∀ r c gone event, a ≠ .deliver r [c] gone event) ∨
    ∃ c, a = .tellState s c ∧ told.state = m.state s ∧
      new = [.deliver s [c] [] (.status told)] := by
  cases new with
  | nil =>
    cases rest with
    | nil => cases tells
    | cons y rest =>
      have adjoins := (List.isChain_cons_cons.1 woven).1
      rcases adjoins.tells tells with sets | ⟨tells, c, rfl⟩
      · exact .inl sets
      · exact .inr (.inl ⟨tells, rfl, by simp, by simp⟩)
  | cons x new =>
    right
    by_cases silent : a.isDelivering = false
    · have first := taken.first within silent x rfl
      rw [tells.isTelling] at first
      cases first
    · cases taken with
      | fails | breaks | attends => exact absurd rfl silent
      | performs performed =>
        cases a with
        | broadcast r event =>
          cases performed
          change Tells s told (.deliver r (m.session r).subscribers [] event :: rest) at tells
          generalize (m.session r).subscribers = subscribers at tells
          cases tells
          exact .inl ⟨.announces, rfl, by simp, by simp⟩
        | deliver r pending gone event =>
          obtain ⟨tells, more⟩ := Tells.of_deliver performed (List.cons_ne_nil _ _) tells
          refine .inl ⟨tells, rfl, by simp, ?_⟩
          rintro _ c _ _ same
          cases same
          exact more c rfl
        | tellState r c =>
          cases performed
          cases tells
          exact .inr ⟨c, rfl, rfl, rfl⟩
        | notify r c text =>
          simp only [perform, Machine.notify] at performed
          split at performed <;> cases performed
          cases tells
        | _ => exact absurd rfl silent

theorem Happens.wasOpen (happens : Happens setup m event next)
    (isOpen : (next.custody s).closed = false) : (m.custody s).closed = false := by
  rw [← Bool.not_eq_true] at isOpen ⊢
  refine fun closed => isOpen ?_
  cases happens with
  | turned _ turned => exact (turned.move.forward s).1 closed
  | started _ started =>
    rcases update_cases started.custody s with ⟨rfl, here⟩ | ⟨_, same⟩
    · rw [here]; exact closed
    · rw [same]; exact closed
  | ambient _ ambient => rw [ambient.custody]; exact closed

theorem Stately.orderly (stately : Stately setup m) (isOpen : (m.custody s).closed = false) :
    m.Orderly setup s := by
  refine (stately.phase s).resolve_right fun shut => ?_
  rw [shut.closed] at isOpen; cases isOpen

-- Nobody else changes the state of an open session whose lock a task holds, nor does the task itself
-- while it delivers.
theorem Happens.held (happens : Happens setup m event next) (sound : Sound m) (stately : Stately setup m)
    (isOpen : (m.custody s).closed = false) (lock : (m.custody s).lock = some u)
    (light : ∀ a rest, event.task? = some u → m.frames u = a :: rest →
      a.role = .inner ∧ ∀ r state, a ≠ .setState r state) :
    (next.custody s).lock = some u ∧ next.state s = m.state s := by
  cases happens with
  | @turned t a rest made new step turned taken leaves shape =>
    -- Whoever gives the lock back or sets the state holds the lock.
    have absurd_of_holder (holds : (m.custody s).lock = some t) :
        a.role = .inner ∧ ∀ r state, a ≠ .setState r state := by
      have here : t = u := Option.some.inj (holds.symm.trans lock)
      subst t
      exact light a rest step turned.stack
    constructor
    · rcases turned.move.lock s with same | ⟨free, _⟩ | ⟨freeing, _⟩
      · rw [same]; exact lock
      · rw [lock] at free; cases free
      · have holds := sound.locked.held t a (turned.stack ▸ List.mem_cons_self) s freeing
        rw [(absurd_of_holder holds).1] at freeing; cases freeing
    · rcases leaves.foot.state s with same | rfl
      · exact same
      · have holds := ((stately.orderly isOpen).setting turned.stack).1
        exact absurd rfl ((absurd_of_holder holds).2 s _)
  | started _ started launches =>
    refine ⟨?_, launches.state s⟩
    rcases update_cases started.custody s with ⟨rfl, here⟩ | ⟨_, same⟩
    · rw [here]; exact lock
    · rw [same]; exact lock
  | ambient _ ambient outside =>
    refine ⟨by rw [ambient.custody]; exact lock, ?_⟩
    rw [Machine.state, Machine.session, outside.sessions]; rfl

theorem Noticed.later {c : ConnectionId} {step : Step} (noticed : Noticed taken t s c state)
    (other : step.event.task? ≠ some t) : Noticed (taken ++ [step]) t s c state := by
  obtain ⟨earlier, read, between, rfl, performs, found, alone⟩ := noticed
  refine ⟨earlier, read, between ++ [step], by simp, performs, found, fun later member => ?_⟩
  rcases List.mem_append.1 member with old | last
  · exact alone later old
  · rw [List.mem_singleton.1 last]; exact other

theorem Backs.elsewhere (backs : Backs m taken u s told) (sound : Sound m) (stately : Stately setup m)
    (happens : Happens setup m event next) (isOpen : (m.custody s).closed = false)
    (same : next.frames u = m.frames u) (other : event.task? ≠ some u) :
    Backs next (taken ++ [⟨m, event, next⟩]) u s told := by
  cases backs with
  | own lock found =>
    obtain ⟨still, kept⟩ := happens.held sound stately isOpen lock fun _ _ step => absurd step other
    exact .own still (kept.trans found)
  | notice stack noticed => exact .notice (same.trans stack) (noticed.later other)

theorem Backed.turned (backed : Backed m taken) (sound : Sound m) (stately : Stately setup m)
    (woven : ∀ u, Woven (m.frames u)) (step : event.task? = some t)
    (turned : Turned m t a rest new next) (takes : Takes setup m t a made new)
    (leaves : Leaves m a next new)
    (shape : next = made.updateTask t fun task => { task with frames := new ++ rest })
    (tells : Tells s told (next.frames t)) (isOpen : (m.custody s).closed = false) :
    Backs next (taken ++ [⟨m, event, next⟩]) t s told := by
  have happens : Happens setup m event next := .turned step turned takes leaves shape
  have within := sound.present.frames t a (turned.stack ▸ List.mem_cons_self)
  rw [turned.replaced] at tells
  rcases takes.tells within (turned.stack ▸ woven t) tells with
    rfl | ⟨before, inner, quiet, more⟩ | ⟨c, rfl, found, rfl⟩
  · have lock := ((stately.orderly isOpen).setting turned.stack).1
    refine .own ?_ ?_
    · rcases turned.move.lock s with same | ⟨free, _⟩ | ⟨freeing, _⟩
      · rw [same]; exact lock
      · rw [lock] at free; cases free
      · cases freeing
    · rw [shape]; exact takes.setState within
  · rw [← turned.stack] at before
    cases backed t s told before isOpen with
    | own lock found =>
      obtain ⟨still, kept⟩ := happens.held sound stately isOpen lock fun b below _ stack => by
        cases turned.stack.symm.trans stack
        exact ⟨inner, quiet⟩
      exact .own still (kept.trans found)
    | notice stack =>
      cases turned.stack.symm.trans stack
      exact absurd rfl (more _ _ _ _)
  · have noticed : Noticed (taken ++ [⟨m, event, next⟩]) t s c told.state :=
      ⟨taken, _, [], rfl, ⟨step, _, turned.stack⟩, found.symm, by simp⟩
    exact .notice turned.replaced noticed

theorem Backed.advance (backed : Backed m taken) (sound : Sound m) (stately : Stately setup m)
    (woven : ∀ u, Woven (m.frames u)) (happens : Happens setup m event next) :
    Backed next (taken ++ [⟨m, event, next⟩]) := by
  intro u s told tells isOpen
  have wasOpen := happens.wasOpen isOpen
  have elsewhere (elsewhere : Elsewhere m next u) (other : event.task? ≠ some u)
      (begun : ∀ u, m.tasks.length ≤ u → ∀ f ∈ next.frames u, f.isEntry) :
      Backs next (taken ++ [⟨m, event, next⟩]) u s told := by
    rcases elsewhere with kept | ⟨beyond, _⟩ | ⟨_, broken⟩
    · exact (backed u s told (kept ▸ tells) wasOpen).elsewhere sound stately happens wasOpen kept other
    · exact absurd (begun u beyond) tells.not_begun
    · rw [broken] at tells; cases tells
  cases happens with
  | @turned t a rest made new step turned takes leaves shape =>
    by_cases here : u = t
    · subst u
      exact backed.turned sound stately woven step turned takes leaves shape tells wasOpen
    · refine elsewhere (turned.elsewhere u here) ?_ leaves.foot.begun
      rw [step]
      exact fun same => here (Option.some.inj same).symm
  | @started t r after rest launch started launches =>
    by_cases here : u = t
    · rw [here, launches.replaced] at tells; cases tells
    · by_cases pump : u = m.tasks.length
      · rw [pump, started.pump] at tells; cases tells
      · by_cases awaits : u = m.tasks.length + 1
        · rw [awaits, started.awaitExit] at tells; cases tells
        · have same := started.elsewhere u here pump awaits
          have other : event.task? ≠ some u := by
            rw [launch]
            exact fun same => here (Option.some.inj same).symm
          exact (backed u s told (same ▸ tells) wasOpen).elsewhere sound stately
            (.started launch started launches) wasOpen same other
  | ambient outside ambient world =>
    exact elsewhere (ambient.elsewhere u) (by rw [outside]; simp) world.begun

theorem within_of_status (status : f.status? = some (s, told)) (within : f.Within m) :
    s < m.sessions.length := by
  unfold Activity.status? at status
  split at status <;> cases status <;> exact within

theorem within_of_announces (announces : a.Announces s) (within : a.Within m) :
    s < m.sessions.length := by
  cases a <;> first | exact announces.elim | (cases announces; exact within)

theorem status_of_isEntry (entry : f.isEntry) : f.status? = none := by
  cases f <;> first | rfl | cases entry

-- A status event that a task has in hand bears the key of its session.
def Labelled (m : Machine) : Prop :=
  ∀ u, ∀ f ∈ m.frames u, ∀ s event, f.status? = some (s, event) → event.key = (m.session s).key

theorem Labelled.stems (labelled : Labelled m) (within : a.Within m) (top : a ∈ m.frames t)
    (taken : Takes setup m t a made new) (added : f ∈ new) (status : f.status? = some (s, told)) :
    told.key = (m.session s).key ∧ s < m.sessions.length := by
  have stems := taken.leaves.stems f added
  cases f with
  | broadcast r event =>
    cases event with
    | status event =>
      cases status
      exact ⟨stems.2, within_of_announces stems.1 within⟩
    | _ => cases status
  | deliver r pending gone event =>
    cases event with
    | status event =>
      cases status
      rcases stems with rfl | ⟨c, rfl⟩ | ⟨c, text, rfl⟩ | ⟨_, _, rfl⟩
      · exact ⟨labelled t _ top s told rfl, within⟩
      · refine ⟨?_, within⟩
        cases taken with
        | performs performed =>
          cases performed
          cases List.mem_singleton.1 added
          rfl
      · cases taken with
        | performs performed =>
          simp only [perform, Machine.notify] at performed
          split at performed <;> cases performed <;> simp at added
      · exact ⟨labelled t _ top s told rfl, within⟩
    | _ => cases status
  | _ => cases status

theorem Labelled.advance (labelled : Labelled m) (sound : Sound m)
    (moved : m.advance setup event = some next) : Labelled next := by
  intro u f member s told status
  have happens := sound.happens moved
  have kept (before : told.key = (m.session s).key ∧ s < m.sessions.length) :
      told.key = (next.session s).key := by
    rw [happens.key before.2]; exact before.1
  have unstarted {P : Prop} (entry : f.isEntry) : P := by
    rw [status_of_isEntry entry] at status; cases status
  cases sound.arises moved member with
  | kept old =>
    exact kept ⟨labelled u f old s told status, within_of_status status (sound.present.frames u f old)⟩
  | stems step stack taken added _ =>
    have top := stack ▸ List.mem_cons_self
    exact kept (labelled.stems (sound.present.frames u _ top) top taken added status)
  | begins _ _ _ begins =>
    rcases begins_cases begins with ⟨r, _, rfl⟩ | ⟨r, _, rfl⟩ | ⟨e, _, _, rfl⟩ <;> cases status
  | @starts t r after rest _ stack member =>
    have within := sound.present.frames t (.spawn r after) (stack ▸ List.mem_cons_self)
    simp only [startFrames, List.mem_cons, List.not_mem_nil, or_false] at member
    rcases member with rfl | rfl | rfl | rfl | rfl <;> cases status
    exact kept ⟨rfl, within⟩
  | @asked operation _ _ member => exact unstarted (entry_frames operation f member)
  | opened _ _ member =>
    simp only [socketFrames, List.mem_cons, List.not_mem_nil, or_false] at member
    rcases member with rfl | rfl | rfl | rfl <;> cases status

structure Truthful (setup : Setup) (m : Machine) (taken : List Step) : Prop where
  stately : Stately setup m
  woven : ∀ u, Woven (m.frames u)
  backed : Backed m taken
  labelled : Labelled m

theorem truthful_initial : Truthful setup initial [] := by
  have none : ∀ u, initial.frames u = [] := frames_initial
  refine ⟨stately_initial, fun u => by rw [none]; exact .nil, fun u s told tells => ?_, fun u f member => ?_⟩
  · rw [none] at tells; cases tells
  · rw [none] at member; cases member

theorem Truthful.advance (truthful : Truthful setup m taken) (sound : Sound m)
    (moved : m.advance setup event = some next) : Truthful setup next (taken ++ [⟨m, event, next⟩]) :=
  have happens := sound.happens moved
  ⟨truthful.stately.advance sound happens, woven_advance truthful.woven sound happens,
    truthful.backed.advance sound truthful.stately truthful.woven happens,
    truthful.labelled.advance sound moved⟩

end Machine
end LanguageRelay
