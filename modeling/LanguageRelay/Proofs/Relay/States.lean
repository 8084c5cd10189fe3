import LanguageRelay.Proofs.Relay.Shifts
namespace LanguageRelay

namespace SessionState

-- The changes of the state of a session that is not being shut down.
inductive Edge : SessionState → SessionState → Prop where
  | start : Edge .stopped .starting
  | restart : Edge .crashed .starting
  | run : Edge .starting .running
  | fail : Edge .starting .crashed
  | stop : Edge .running .stopped
  | crash : Edge .running .crashed

-- A start that breaks down leaves the state as it is.
def AtRest (state : SessionState) (setup : Setup) : Prop :=
  state = .stopped ∨ state = .crashed ∨
    state = .starting ∧ Connection.greatestCapacity < setup.settings.processQueue

def Settled (state : SessionState) (setup : Setup) (slot : Option Slot) : Prop :=
  (slot ≠ none → state = .running) ∧ (slot = none → state.AtRest setup)

-- What the state is when a frame that gives the lock back is next.
def Fits (state : SessionState) (setup : Setup) (slot : Option Slot) : Activity → Prop
  | .begin _ _ | .refused _ _ _ | .unlock _ => slot = none ∧ state.AtRest setup
  | .spawn _ _ => slot = none ∧ state = .starting
  | .started _ _ _ => slot ≠ none ∧ state = .running
  | .teardownUnlessUsed _ => state.Settled setup slot
  | _ => False

-- With at most one change, along an edge, the state comes to fit the frame.
def Leads (state : SessionState) (setup : Setup) (sets : List SessionState) (slot : Option Slot)
    (f : Activity) : Prop :=
  sets = [] ∧ state.Fits setup slot f ∨
    ∃ after, sets = [after] ∧ (after = state ∨ Edge state after) ∧ after.Fits setup slot f

end SessionState

open SessionState

theorem ServerExit.state_atRest (exit : ServerExit) (setup : Setup) : exit.state.AtRest setup := by
  unfold ServerExit.state
  split
  · exact .inl rfl
  · exact .inr (.inl rfl)

theorem ServerExit.edge_state (exit : ServerExit) : Edge .running exit.state := by
  unfold ServerExit.state
  split
  · exact .stop
  · exact .crash

namespace Machine

def pending (m : Machine) (s : SessionId) (u : TaskId) : List SessionState :=
  (m.frames u).filterMap (Activity.sets? s)

def state (m : Machine) (s : SessionId) : SessionState := (m.session s).state

-- Whoever holds the lock gives it back in the end, with the state as it should be then.
def Underway (m : Machine) (setup : Setup) (s : SessionId) (u : TaskId) : Prop :=
  ∃ f ∈ m.frames u, f.role = .freeing s ∧
    (m.state s).Leads setup (m.pending s u) (m.custody s).slot f

-- As long as nobody has taken its server to close it.
structure Orderly (m : Machine) (setup : Setup) (s : SessionId) : Prop where
  free : (m.custody s).lock = none → (m.state s).Settled setup (m.custody s).slot
  elsewhere : ∀ u, (m.custody s).lock ≠ some u → m.pending s u = []
  held : ∀ u, (m.custody s).lock = some u → m.Underway setup s u

structure Shut (m : Machine) (s : SessionId) : Prop where
  closed : (m.custody s).closed = true
  empty : (m.custody s).slot = none
  spawns : ∀ u after, .spawn s after ∉ m.frames u
  sets : ∀ u, ∀ state ∈ m.pending s u, state = .stopped ∧ .clear s ∈ m.frames u

variable {m made next : Machine} {setup : Setup} {event : Event} {events : List Event} {t u : TaskId}
  {s r : SessionId} {a f : Activity} {rest new : List Activity} {state : SessionState}

theorem pending_of_stack (stack : m.frames t = a :: rest) :
    m.pending s t = (a.sets? s).toList ++ rest.filterMap (Activity.sets? s) := by
  rw [pending, stack]
  cases sets : a.sets? s <;> simp [sets]

theorem pending_elsewhere (elsewhere : Elsewhere m next u)
    (begun : ∀ u, m.tasks.length ≤ u → ∀ f ∈ next.frames u, f.isEntry) :
    next.pending s u = m.pending s u :=
  elsewhere.filterMap (fun _ entry => sets_of_not_isTied (not_isTied_of_isEntry entry))
    (fun _ => rfl) begun

theorem pending_below (tied : ∀ u, Tied (m.frames u)) (stack : m.frames t = a :: rest)
    (heavy : a.role.isLight = false) : rest.filterMap (Activity.sets? s) = [] := by
  have shaped := tied t
  rw [stack] at shaped
  exact List.filterMap_eq_nil_iff.2 fun f member => sets_of_not_isTied (shaped.below heavy member)

theorem steers_of_freeing (freeing : a.role = .freeing s) : a.Steers s := by
  cases a <;> first | exact Role.freeing.inj freeing | cases freeing

theorem Orderly.of_free (free : (m.custody s).lock = none)
    (settled : (m.state s).Settled setup (m.custody s).slot) (none : ∀ u, m.pending s u = []) :
    m.Orderly setup s := by
  refine ⟨fun _ => settled, fun u _ => none u, fun u lock => ?_⟩
  rw [free] at lock; cases lock

theorem Orderly.of_lock (lock : (m.custody s).lock = some t)
    (others : ∀ u, u ≠ t → m.pending s u = []) (underway : m.Underway setup s t) : m.Orderly setup s := by
  refine ⟨fun free => ?_, fun u other => others u ?_, fun u mine => ?_⟩
  · rw [lock] at free; cases free
  · rintro rfl; exact other lock
  · rw [lock] at mine; cases mine
    exact underway

theorem Orderly.congr (orderly : m.Orderly setup s) (lock : (next.custody s).lock = (m.custody s).lock)
    (slot : (next.custody s).slot = (m.custody s).slot) (state : next.state s = m.state s)
    (pending : ∀ u, next.pending s u = m.pending s u)
    (kept : ∀ u, ∀ f ∈ m.frames u, f.role = .freeing s → f ∈ next.frames u) : next.Orderly setup s := by
  refine ⟨fun free => ?_, fun u other => ?_, fun u mine => ?_⟩
  · rw [state, slot]
    exact orderly.free (lock ▸ free)
  · rw [pending]
    exact orderly.elsewhere u (lock ▸ other)
  · obtain ⟨f, member, freeing, fits⟩ := orderly.held u (lock ▸ mine)
    refine ⟨f, kept u f member freeing, freeing, ?_⟩
    rw [pending, state, slot]
    exact fits

-- The holder of the lock is about to give it back or to go on to the next frame that does so.
theorem Orderly.top (orderly : m.Orderly setup s) (sound : Sound m) (tied : ∀ u, Tied (m.frames u))
    (stack : m.frames t = a :: rest) (freeing : a.role = .freeing s) :
    (m.custody s).lock = some t ∧ (m.state s).Fits setup (m.custody s).slot a ∧
    (∀ u, u ≠ t → m.pending s u = []) := by
  have lock := sound.locked.held t a (stack ▸ List.mem_cons_self) s freeing
  have nothing : m.pending s t = [] := by
    have quiet : a.sets? s = none := by
      cases a <;> first | rfl | cases freeing
    rw [pending_of_stack stack, quiet, pending_below tied stack (by rw [freeing]; rfl)]
    rfl
  obtain ⟨f, member, part, fits⟩ := orderly.held t lock
  have same : f = a := by
    rcases List.mem_cons.1 (stack ▸ member) with same | below
    · exact same
    · have light := sound.locked.below stack freeing below
      rw [part] at light; cases light
  subst f
  refine ⟨lock, ?_, fun u other => orderly.elsewhere u fun mine => other ?_⟩
  · rcases fits with ⟨_, fits⟩ | ⟨state, some, _⟩
    · exact fits
    · rw [nothing] at some; cases some
  · rw [lock] at mine
    exact (Option.some.inj mine).symm

theorem Orderly.setting (orderly : m.Orderly setup s) (stack : m.frames t = .setState s state :: rest) :
    (m.custody s).lock = some t ∧ (state = m.state s ∨ Edge (m.state s) state) ∧
    rest.filterMap (Activity.sets? s) = [] ∧
    ∃ f ∈ rest, f.role = .freeing s ∧ state.Fits setup (m.custody s).slot f := by
  have first := pending_of_stack (s := s) stack
  simp only [Activity.sets?, if_true, Option.toList_some, List.singleton_append] at first
  have lock : (m.custody s).lock = some t := by
    apply Classical.byContradiction
    intro other
    rw [orderly.elsewhere t other] at first
    cases first
  obtain ⟨f, member, freeing, ⟨none, _⟩ | ⟨state, last, edge, fits⟩⟩ := orderly.held t lock
  · rw [first] at none; cases none
  · rw [first] at last
    obtain ⟨rfl, nothing⟩ := List.cons.inj last
    refine ⟨lock, edge, nothing, f, ?_, freeing, fits⟩
    rcases List.mem_cons.1 (stack ▸ member) with rfl | below
    · cases freeing
    · exact below

theorem Takes.setState (taken : Takes setup m t (.setState s state) made new)
    (within : s < m.sessions.length) : made.state s = state := by
  cases taken with
  | performs performed =>
    cases performed
    rw [Machine.state, session_updateSession within]

theorem Orderly.sets (orderly : m.Orderly setup s) (sound : Sound m)
    (turned : Turned m t (.setState s state) rest new next)
    (taken : Takes setup m t (.setState s state) made new)
    (shape : next = made.updateTask t fun task => { task with frames := new ++ rest })
    (others : ∀ u, u ≠ t → next.pending s u = m.pending s u) : next.Orderly setup s := by
  obtain ⟨lock, edge, nothing, f, member, freeing, fits⟩ := orderly.setting turned.stack
  have within := sound.present.frames t _ (turned.stack ▸ List.mem_cons_self)
  have after : next.state s = state := by
    rw [shape]; exact taken.setState within
  have empty : new = [] := by
    cases taken with
    | performs performed => cases performed; rfl
  obtain ⟨sameLock, sameSlot, _⟩ := turned.move.aside (s := s) id
  apply Orderly.of_lock (sameLock.trans lock)
  · intro u other
    rw [others u other]
    apply orderly.elsewhere
    rw [lock]
    exact fun same => other (Option.some.inj same).symm
  · refine ⟨f, by rw [turned.replaced]; exact List.mem_append_right _ member, freeing, .inl ⟨?_, ?_⟩⟩
    · rw [pending, turned.replaced, empty]; exact nothing
    · rw [after, sameSlot]; exact fits

-- While the lock is free nothing is left to be set.
theorem Orderly.quiet (orderly : m.Orderly setup s) (free : (m.custody s).lock = none) (u : TaskId) :
    m.pending s u = [] := by
  apply orderly.elsewhere
  rw [free]; simp

theorem sets_publish {exit : ServerExit} {last : Activity} (quiet : last.sets? s = none) :
    (m.publish s exit ++ [last]).filterMap (Activity.sets? s) = [exit.state] := by
  have above : (m.publish s exit).filterMap (Activity.sets? s) = [exit.state] := by
    simp [publish, List.filterMap_cons, Activity.sets?]
    rfl
  rw [List.filterMap_append, above, List.filterMap_cons, quiet]
  rfl

theorem Orderly.onward (turned : Turned m t a rest new next) (lock : (next.custody s).lock = some t)
    (none : ∀ u, u ≠ t → next.pending s u = []) (same : next.state s = m.state s)
    (below : rest.filterMap (Activity.sets? s) = []) (member : f ∈ new) (freeing : f.role = .freeing s)
    (leads : (m.state s).Leads setup (new.filterMap (Activity.sets? s)) (next.custody s).slot f) :
    next.Orderly setup s := by
  have own : next.pending s t = new.filterMap (Activity.sets? s) := by
    rw [pending, turned.replaced, List.filterMap_append, below, List.append_nil]
  refine .of_lock lock none ⟨f, ?_, freeing, ?_⟩
  · rw [turned.replaced]; exact List.mem_append_left _ member
  · rw [own, same]; exact leads

theorem Takes.breaksDown {after : AfterStart}
    (taken : Takes setup m t (.spawn s after) made [.breakdown]) :
    Connection.greatestCapacity < setup.settings.processQueue := by
  cases taken with
  | performs performed | fails performed => cases performed
  | breaks greater => exact greater

theorem Orderly.turned (orderly : m.Orderly setup s) (sound : Sound m) (tied : ∀ u, Tied (m.frames u))
    (turned : Turned m t a rest new next) (taken : Takes setup m t a made new)
    (leaves : Leaves m a next new)
    (shape : next = made.updateTask t fun task => { task with frames := new ++ rest }) :
    next.Orderly setup s ∨ next.Shut s := by
  have others : ∀ u, u ≠ t → next.pending s u = m.pending s u :=
    fun u other => pending_elsewhere (turned.elsewhere u other) leaves.foot.begun
  by_cases sets : ∃ state, a = .setState s state
  · obtain ⟨state, rfl⟩ := sets
    exact .inl (orderly.sets sound turned taken shape others)
  have same : next.state s = m.state s :=
    (leaves.foot.state s).resolve_right fun set => sets ⟨_, set⟩
  have before : m.pending s t = rest.filterMap (Activity.sets? s) := by
    have silent : a.sets? s = none := by
      cases a with
      | setState r state => exact if_neg fun here => sets ⟨state, by rw [here]⟩
      | _ => rfl
    rw [pending_of_stack turned.stack, silent]; rfl
  have own : next.pending s t =
      new.filterMap (Activity.sets? s) ++ rest.filterMap (Activity.sets? s) := by
    rw [pending, turned.replaced, List.filterMap_append]
  -- The frame leaves the lock and the slot alone, sets nothing and gives no lock back.
  have idle : (next.custody s).lock = (m.custody s).lock → (next.custody s).slot = (m.custody s).slot →
      new.filterMap (Activity.sets? s) = [] → a.role ≠ .freeing s → next.Orderly setup s := by
    intro lock slot nothing loose
    refine orderly.congr lock slot same (fun u => ?_) fun u f member freeing => ?_
    · by_cases here : u = t
      · rw [here, own, nothing, before]; rfl
      · exact others u here
    · rcases turned.kept member (by rintro k rfl; cases freeing) with ⟨_, rfl⟩ | after
      · exact absurd freeing loose
      · exact after
  -- The frame takes the lock, which is free.
  have grasp : ∀ {f : Activity}, (m.custody s).lock = none → (next.custody s).lock = some t →
      f ∈ new → f.role = .freeing s →
      (m.state s).Leads setup (new.filterMap (Activity.sets? s)) (next.custody s).slot f →
      next.Orderly setup s := by
    intro f free lock
    refine .onward turned lock (fun u other => ?_) same (before ▸ orderly.quiet free t)
    rw [others u other, orderly.quiet free u]
  -- The frame passes the lock on to another one.
  have pass : ∀ {f : Activity}, a.role = .freeing s → (next.custody s).lock = (m.custody s).lock →
      f ∈ new → f.role = .freeing s →
      (m.state s).Leads setup (new.filterMap (Activity.sets? s)) (next.custody s).slot f →
      next.Orderly setup s := by
    intro f freeing kept
    obtain ⟨lock, _, none⟩ := orderly.top sound tied turned.stack freeing
    refine .onward turned (kept.trans lock) (fun u other => ?_) same
      (pending_below tied turned.stack (by rw [freeing]; rfl))
    rw [others u other, none u other]
  have shifts := turned.shifts sound taken shape s
  generalize held : next.custody s = custody at shifts
  rw [held] at idle grasp pass
  cases shifts with
  | vacated free occupied _ | outlived free occupied _ =>
    have running := (orderly.free free).1 (by rw [occupied]; simp)
    refine .inl (grasp free rfl (List.mem_append_right _ List.mem_cons_self) rfl
      (.inr ⟨_, sets_publish rfl, .inr ?_, rfl, ServerExit.state_atRest _ _⟩))
    rw [running]; exact ServerExit.edge_state _
  | stale | outdated => exact .inl (idle rfl rfl rfl (by simp [Activity.role]))
  | joined =>
    refine .inl (idle rfl rfl (List.filterMap_eq_nil_iff.2 fun f member => ?_)
      (by simp [Activity.role]))
    exact sets_of_not_isTied (not_isTied_of_outer (outer_whenRunning f member))
  | vacant free empty =>
    exact .inl (grasp free rfl List.mem_cons_self rfl
      (.inl ⟨rfl, empty, (orderly.free free).2 empty⟩))
  | locked free =>
    exact .inl (grasp free rfl List.mem_cons_self rfl (.inl ⟨rfl, orderly.free free⟩))
  | barred =>
    obtain ⟨_, fits, _⟩ := orderly.top sound tied turned.stack rfl
    exact .inl (pass rfl rfl List.mem_cons_self rfl (.inl ⟨rfl, fits⟩))
  | begun =>
    obtain ⟨_, ⟨empty, atRest⟩, _⟩ := orderly.top sound tied turned.stack rfl
    refine .inl (pass rfl rfl (List.mem_append_right [_, _] List.mem_cons_self) rfl
      (.inr ⟨.starting, ?_, ?_, empty, rfl⟩))
    · simp [List.filterMap_cons, Activity.sets?]
    · rcases atRest with stopped | crashed | ⟨starting, _⟩
      · rw [stopped]; exact .inr .start
      · rw [crashed]; exact .inr .restart
      · exact .inl starting.symm
  | failed =>
    obtain ⟨_, ⟨empty, starting⟩, _⟩ := orderly.top sound tied turned.stack rfl
    refine .inl (pass rfl rfl (List.mem_append_right [_, _, _] List.mem_cons_self) rfl
      (.inr ⟨.crashed, ?_, .inr ?_, empty, .inr (.inl rfl)⟩))
    · simp [List.filterMap_cons, Activity.sets?]
    · rw [starting]; exact .fail
  | broken =>
    obtain ⟨_, ⟨empty, starting⟩, none⟩ := orderly.top sound tied turned.stack rfl
    refine .inl (.of_free (by rw [held]) ?_ fun u => ?_)
    · rw [held, same]
      exact ⟨fun some => absurd empty some, fun _ => .inr (.inr ⟨starting, taken.breaksDown⟩)⟩
    · by_cases here : u = t
      · rw [here, own, pending_below tied turned.stack rfl]; rfl
      · rw [others u here, none u here]
  | stopped _ occupied =>
    obtain ⟨_, settled, _⟩ := orderly.top sound tied turned.stack rfl
    refine .inl (pass rfl rfl (List.mem_append_right [_, _] List.mem_cons_self) rfl
      (.inr ⟨.stopped, ?_, .inr ?_, rfl, .inl rfl⟩))
    · simp [List.filterMap_cons, Activity.sets?]
    · rw [settled.1 (by rw [occupied]; simp)]; exact .stop
  | released freeing noBegin noSpawn outer =>
    obtain ⟨lock, fits, none⟩ := orderly.top sound tied turned.stack freeing
    refine .inl (.of_free (by rw [held]) ?_ fun u => ?_)
    · rw [held, same]
      cases a with
      | begin r after => exact absurd (by rw [Role.freeing.inj freeing]) (noBegin after)
      | spawn r after => exact absurd (by rw [Role.freeing.inj freeing]) (noSpawn after)
      | started r after p => exact ⟨fun _ => fits.2, fun empty => absurd empty fits.1⟩
      | refused r after error => exact ⟨fun some => absurd fits.1 some, fun _ => fits.2⟩
      | unlock r => exact ⟨fun some => absurd fits.1 some, fun _ => fits.2⟩
      | teardownUnlessUsed r => exact fits
      | _ => cases freeing
    · by_cases here : u = t
      · rw [here, own, pending_below tied turned.stack (by rw [freeing]; rfl), List.append_nil]
        exact List.filterMap_eq_nil_iff.2 fun f member =>
          sets_of_not_isTied (not_isTied_of_outer (outer f member))
      · rw [others u here, none u here]
  | taken free stops =>
    have top : .takeSlot s ∈ m.frames t := turned.stack ▸ List.mem_cons_self
    refine .inr ⟨(turned.move.forward s).1 (sound.accounted.closing t s top), by rw [held],
      fun u after spawn => ?_, fun u state member => ?_⟩
    · rcases turned.old spawn (.inr ⟨s, rfl⟩) with ⟨_, added⟩ | ⟨old, _⟩
      · rcases stops with ⟨_, rfl⟩ | ⟨slot, grace, _, rfl⟩ <;> simp at added
      · have mine := sound.locked.held u _ old s rfl
        rw [free] at mine; cases mine
    · by_cases here : u = t
      · subst u
        rw [own, ← before, orderly.quiet free t, List.append_nil] at member
        refine ⟨?_, ?_⟩
        · rcases stops with ⟨_, rfl⟩ | ⟨slot, grace, _, rfl⟩ <;>
            simpa [List.filterMap_cons, Activity.sets?] using member
        · rw [turned.replaced]
          exact List.mem_append_left _ (List.mem_append_right _ (by simp))
      · rw [others u here, orderly.quiet free u] at member
        cases member
  | aside other lock slot frames _ =>
    refine .inl (idle lock slot
      (List.filterMap_eq_nil_iff.2 fun f member => (frames f member).1) fun freeing => ?_)
    exact other (steers_of_freeing freeing)

theorem Shut.turned (shut : m.Shut s) (tied : ∀ u, Tied (m.frames u)) (sound : Sound m)
    (turned : Turned m t a rest new next) (taken : Takes setup m t a made new)
    (leaves : Leaves m a next new)
    (shape : next = made.updateTask t fun task => { task with frames := new ++ rest }) :
    next.Shut s := by
  have top : a ∈ m.frames t := turned.stack ▸ List.mem_cons_self
  have still : (next.custody s).slot = none := by
    rcases turned.move.slot s with same | ⟨empty, _⟩
    · rw [same]; exact shut.empty
    · exact empty
  refine ⟨(turned.move.forward s).1 shut.closed, still, fun u after spawn => ?_,
    fun u state member => ?_⟩
  · rcases turned.old spawn (.inr ⟨s, rfl⟩) with ⟨_, added⟩ | ⟨old, _⟩
    · obtain ⟨_, isOpen, _⟩ := turned.move.comes _ added
      rw [shut.closed] at isOpen; cases isOpen
    · exact shut.spawns u after old
  · by_cases here : u = t
    · subst u
      rw [pending, turned.replaced, List.filterMap_append] at member
      rcases List.mem_append.1 member with added | old
      · have shifts := turned.shifts sound taken shape s
        generalize next.custody s = custody at shifts
        cases shifts with
        | vacated _ occupied | outlived _ occupied | stopped _ occupied =>
          rw [shut.empty] at occupied; cases occupied
        | stale | outdated => cases added
        | joined occupied => rw [shut.empty] at occupied; cases occupied
        | vacant | barred | locked => cases added
        | begun isOpen => rw [shut.closed] at isOpen; cases isOpen
        | failed | broken => exact absurd top (shut.spawns t _)
        | released _ _ _ outer =>
          have nothing := List.filterMap_eq_nil_iff.2 fun f member =>
            sets_of_not_isTied (s := s) (not_isTied_of_outer (outer f member))
          rw [nothing] at added; cases added
        | taken _ stops =>
          refine ⟨?_, by rw [turned.replaced]; simp⟩
          rcases stops with ⟨_, rfl⟩ | ⟨slot, grace, _, rfl⟩ <;>
            simpa [List.filterMap_cons, Activity.sets?] using added
        | aside _ _ _ frames =>
          rw [List.filterMap_eq_nil_iff.2 fun f member => (frames f member).1] at added
          cases added
      · have before : state ∈ m.pending s t := by
          rw [pending_of_stack turned.stack]; exact List.mem_append_right _ old
        obtain ⟨stopped, clears⟩ := shut.sets t state before
        refine ⟨stopped, ?_⟩
        rcases turned.kept clears (by simp) with ⟨_, rfl⟩ | after
        · rw [pending_below tied turned.stack rfl] at old; cases old
        · exact after
    · rw [pending_elsewhere (turned.elsewhere u here) leaves.foot.begun] at member
      obtain ⟨stopped, clears⟩ := shut.sets u state member
      refine ⟨stopped, ?_⟩
      rcases turned.kept clears (by simp) with ⟨same, _⟩ | after
      · exact absurd same here
      · exact after

theorem pending_started {after : AfterStart} (started : Started m t r after rest next)
    (other : u ≠ t) : next.pending s u = m.pending s u := by
  unfold pending
  by_cases pump : u = m.tasks.length
  · rw [pump, started.pump, frames_of_length_le (Nat.le_refl _)]; rfl
  · by_cases awaits : u = m.tasks.length + 1
    · rw [awaits, started.awaitExit, frames_of_length_le (Nat.le_succ _)]; rfl
    · rw [started.elsewhere u other pump awaits]

theorem pending_started_of_ne {after : AfterStart} (started : Started m t r after rest next)
    (launches : Launches setup m t r after rest next) (other : r ≠ s) :
    next.pending s u = m.pending s u := by
  by_cases here : u = t
  · subst u
    rw [pending_of_stack started.stack, pending, launches.replaced]
    simp [List.filterMap_cons, Activity.sets?, other]
  · exact pending_started started here

theorem Orderly.started {after : AfterStart} (orderly : m.Orderly setup s) (sound : Sound m)
    (tied : ∀ u, Tied (m.frames u)) (started : Started m t r after rest next)
    (launches : Launches setup m t r after rest next) : next.Orderly setup s := by
  have same : next.state s = m.state s := launches.state s
  rcases update_cases started.custody s with ⟨rfl, here⟩ | ⟨other, apart⟩
  · obtain ⟨lock, ⟨_, starting⟩, none⟩ := orderly.top sound tied started.stack rfl
    have own : next.pending s t = [.running] := by
      rw [pending, launches.replaced]
      simp only [List.filterMap_cons, Activity.sets?, if_true]
      rw [pending_below tied started.stack rfl]
    refine .of_lock (by rw [here]; exact lock) (fun u other => ?_)
      ⟨.started s after m.servers.length, ?_, rfl, .inr ⟨.running, own, .inr ?_, ?_⟩⟩
    · rw [pending_started started other, none u other]
    · rw [launches.replaced]
      exact List.mem_append_right [_, _] List.mem_cons_self
    · rw [same, starting]; exact .run
    · rw [here]; exact ⟨by simp, rfl⟩
  · refine orderly.congr (by rw [apart]) (by rw [apart]) same
      (fun u => pending_started_of_ne started launches other.symm) fun u f member freeing => ?_
    rcases started.kept member with ⟨rfl, _⟩ | after
    · exact absurd (Role.freeing.inj freeing).symm other
    · exact after

theorem Shut.started {after : AfterStart} (shut : m.Shut s) (started : Started m t r after rest next)
    (launches : Launches setup m t r after rest next) : next.Shut s := by
  have top : .spawn r after ∈ m.frames t := started.stack ▸ List.mem_cons_self
  rcases update_cases started.custody s with ⟨rfl, _⟩ | ⟨other, apart⟩
  · exact absurd top (shut.spawns t after)
  · refine ⟨by rw [apart]; exact shut.closed, by rw [apart]; exact shut.empty,
      fun u later spawn => ?_, fun u state member => ?_⟩
    · rcases started.old spawn (.inr ⟨s, rfl⟩) with ⟨same, _⟩ | same | ⟨old, _⟩
      · cases same
      · cases same
      · exact shut.spawns u later old
    · rw [pending_started_of_ne started launches other.symm] at member
      obtain ⟨stopped, clears⟩ := shut.sets u state member
      rcases started.kept clears with ⟨same, _⟩ | after
      · cases same
      · exact ⟨stopped, after⟩

theorem Orderly.ambient (orderly : m.Orderly setup s) (ambient : Ambient m next)
    (outside : Outside m event next) : next.Orderly setup s := by
  refine orderly.congr (by rw [ambient.custody]) (by rw [ambient.custody]) ?_
    (fun u => pending_elsewhere (ambient.elsewhere u) outside.begun) fun u f member freeing => ?_
  · rw [state, session, outside.sessions]; rfl
  · exact (ambient.elsewhere u).kept member (by rintro k rfl; cases freeing)

theorem Shut.ambient (shut : m.Shut s) (ambient : Ambient m next) (outside : Outside m event next) :
    next.Shut s := by
  refine ⟨by rw [ambient.custody]; exact shut.closed, by rw [ambient.custody]; exact shut.empty,
    fun u after spawn => ?_, fun u state member => ?_⟩
  · exact shut.spawns u after ((ambient.elsewhere u).old spawn (.inr ⟨s, rfl⟩))
  · rw [pending_elsewhere (ambient.elsewhere u) outside.begun] at member
    obtain ⟨stopped, clears⟩ := shut.sets u state member
    exact ⟨stopped, (ambient.elsewhere u).kept clears fun k same => nomatch same⟩

structure Stately (setup : Setup) (m : Machine) : Prop where
  tied : ∀ u, Tied (m.frames u)
  phase : ∀ s, m.Orderly setup s ∨ m.Shut s

theorem Stately.advance (stately : Stately setup m) (sound : Sound m)
    (happens : Happens setup m event next) : Stately setup next := by
  refine ⟨tied_advance stately.tied sound happens, fun s => ?_⟩
  cases happens with
  | turned _ turned taken leaves shape =>
    rcases stately.phase s with orderly | shut
    · exact orderly.turned sound stately.tied turned taken leaves shape
    · exact .inr (shut.turned stately.tied sound turned taken leaves shape)
  | started _ started launches =>
    exact (stately.phase s).imp (fun orderly => orderly.started sound stately.tied started launches)
      fun shut => shut.started started launches
  | ambient _ ambient outside =>
    exact (stately.phase s).imp (fun orderly => orderly.ambient ambient outside)
      fun shut => shut.ambient ambient outside

theorem stately_initial : Stately setup initial := by
  have none : ∀ u, initial.frames u = [] := frames_initial
  refine ⟨fun u => by rw [none]; exact List.Pairwise.nil, fun s => .inl (.of_free rfl ?_ fun u => ?_)⟩
  · exact ⟨fun some => absurd rfl some, fun _ => .inl rfl⟩
  · rw [pending, none]; rfl

theorem Stately.runs (ran : initial.runs setup events = some m) : Stately setup m :=
  sound_initial.induction (motive := fun _ now => Stately setup now) ran stately_initial
    fun _ _ _ _ sound moved stately => stately.advance sound (sound.happens moved)

theorem Stately.settled (stately : Stately setup m) (free : (m.custody s).lock = none)
    (isOpen : (m.custody s).closed = false) : (m.state s).Settled setup (m.custody s).slot := by
  rcases stately.phase s with orderly | shut
  · exact orderly.free free
  · rw [shut.closed] at isOpen; cases isOpen

-- A state changes along an edge, or somebody who has closed the session stops it.
theorem Stately.change (stately : Stately setup m) (happens : Happens setup m event next) :
    next.state s = m.state s ∨ Edge (m.state s) (next.state s) ∨
    (next.state s = .stopped ∧ (m.custody s).closed = true ∧
      ∃ t, event.task? = some t ∧ .clear s ∈ m.frames t) := by
  cases happens with
  | @turned t _ _ _ _ step turned taken leaves shape =>
    rcases leaves.foot.state s with same | rfl
    · exact .inl same
    · rcases stately.phase s with orderly | shut
      · exact (orderly.setting turned.stack).2.1.imp_right .inl
      · right
        have member : next.state s ∈ m.pending s t := by
          rw [pending_of_stack turned.stack]
          simp [Activity.sets?, state]
        obtain ⟨stopped, clears⟩ := shut.sets t _ member
        exact .inr ⟨stopped, shut.closed, t, step, clears⟩
  | started _ started launches => exact .inl (launches.state s)
  | ambient _ ambient outside =>
    left; rw [state, session, outside.sessions]; rfl

end Machine
end LanguageRelay
