import LanguageRelay.Proofs.Relay.Attachment
import LanguageRelay.Proofs.Relay.FanOut
import LanguageRelay.Proofs.Relay.Shutdown
import LanguageRelay.Proofs.Relay.Snapshot
import LanguageRelay.Proofs.Relay.Telling
namespace LanguageRelay

-- The state of the session with that key which an event tells of.
def ClientEvent.stateOf? (key : String) : ClientEvent → Option SessionState
  | .status event => if event.key = key then some event.state else none
  | _ => none

-- The frames of an operation, a broadcast or the handling of an exit that is in progress at the session.
-- Whoever only waits there, for a timer or for a server, is not at work.
def Activity.worksOn (s : SessionId) : Activity → Bool
  | .broadcast r _ | .deliver r _ _ _ | .remove r _ | .tellState r _ | .notify r _ _ | .look r _
  | .begin r _ | .spawn r _ | .started r _ _ | .refused r _ _ | .setState r _ | .unlock r
  | .vacate r _ _ | .subscribe r _ | .attach r _ | .newEpoch r _ | .detach r _ | .planTeardown r
  | .teardown r _ | .teardownUnlessUsed r | .route r _ _ | .offer (.client r _) _ _
  | .enqueue (.client r _) _ _ | .fanOut r _ | .checkUsed r | .close r | .takeSlot r | .clear r => r == s
  | _ => false

-- The frames that lead to an event for the subscriber `c`, or to its removal, unless it leaves.
def Activity.Owes (s : SessionId) (c : ConnectionId) : Activity → Prop
  | .newEpoch r d | .look r (.subscribed d) | .begin r (.subscribed d) | .tellState r d => r = s ∧ d = c
  | .broadcast r (.status _) => r = s
  | .deliver r pending gone (.status _) => r = s ∧ (c ∈ pending ∨ c ∈ gone)
  | .remove r gone => r = s ∧ c ∈ gone
  | _ => False

namespace Machine

def isStill (m : Machine) (s : SessionId) : Bool :=
  m.tasks.all fun task => task.frames.all fun f => !f.worksOn s

-- The states of the session with that key which a step puts into the queue of `c`.
def Step.states (step : Step) (key : String) (c : ConnectionId) : List SessionState :=
  (step.added c).filterMap (ClientEvent.stateOf? key)

def lastWord (taken : List Step) (key : String) (c : ConnectionId) : Option SessionState :=
  (taken.flatMap (·.states key c)).getLast?

-- The last word to `c` is a notice: a task read the state for it, and when that task put it into the
-- queue with its next step the state was another one.
def Overtaken (taken : List Step) (s : SessionId) (key : String) (c : ConnectionId) : Prop :=
  ∃ earlier read between push later t, taken = earlier ++ read :: between ++ push :: later ∧
    read.Performs t (.tellState s c) ∧ (∀ step ∈ between, step.event.task? ≠ some t) ∧
    push.event.task? = some t ∧ push.states key c = [(read.before.session s).state] ∧
    (∀ step ∈ later, step.states key c = []) ∧
    (push.before.session s).state ≠ (read.before.session s).state

def Owed (m : Machine) (s : SessionId) (c : ConnectionId) : Prop :=
  ∃ u, ∃ f ∈ m.frames u, f.Owes s c

def Fresh (m : Machine) (s : SessionId) (c : ConnectionId) : Prop :=
  ∃ u, .newEpoch s c ∈ m.frames u ∨ .look s (.subscribed c) ∈ m.frames u

-- Nobody sets the state only to give the lock back.
def Loud (m : Machine) (s : SessionId) : Prop := ∀ u, (m.frames u).IsChain fun upper lower =>
  (∀ state, upper ≠ .setState s state) ∨ lower ≠ .unlock s

-- The last word to `c` was put into its queue in the state that the session is in now. It was that state,
-- or what a task had read before.
def Told (m : Machine) (taken : List Step) (s : SessionId) (c : ConnectionId) : Prop :=
  ∃ earlier push later word, taken = earlier ++ push :: later ∧
    push.states (m.session s).key c = [word] ∧
    (∀ step ∈ later, step.states (m.session s).key c = []) ∧
    (push.before.session s).state = m.state s ∧
    (word = m.state s ∨ ∃ t, push.event.task? = some t ∧ Noticed earlier t s c word)

-- The step puts a status event of the session into the queue of `c`.
def Step.Pushes (step : Step) (s : SessionId) (c : ConnectionId) (told : StatusEvent) : Prop :=
  step.added c = [.status told] ∧
    ∃ t pending gone, step.Performs t (.deliver s (c :: pending) gone (.status told))

-- Sessions that are there have different keys, and can be found by them until the relay shuts down.
structure Registered (m : Machine) : Prop where
  named : Named m
  apart : ∀ s < m.sessions.length, ∀ r < m.sessions.length,
    (m.session s).key = (m.session r).key → s = r
  found : m.isShutDown = false → ∀ s < m.sessions.length, m.map.find? (m.session s).key = some s
  draining : ∀ u, .drain ∈ m.frames u → m.isShutDown = true

variable {m made next : Machine} {setup : Setup} {event : Event} {events : List Event}
  {taken : List Step} {t u : TaskId} {s r : SessionId} {c : ConnectionId} {a f : Activity}
  {rest new : List Activity} {key : String} {told : StatusEvent}

theorem Arises.announced (arises : Arises setup m event u .drain) (sound : Sound m)
    (moved : m.advance setup event = some next) :
    .drain ∈ m.frames u ∨ next.isShutDown = true := by
  refine arises.drains.imp_right fun ⟨⟨step, rest, stack⟩, _⟩ => ?_
  obtain ⟨made, new, taken, _, _, shape⟩ := sound.takes moved step stack nofun
  cases taken with
  | performs performed =>
    cases performed
    rw [shape]
    rfl

theorem Registered.advance (registered : Registered m) (sound : Sound m)
    (moved : m.advance setup event = some next) : Registered next := by
  have happens := sound.happens moved
  have named := registered.named.advance sound moved
  have draining : ∀ u, .drain ∈ next.frames u → next.isShutDown = true := by
    intro u member
    rcases (sound.arises moved member).announced sound moved with old | announced
    · exact (isShutDown_of_enters (enters moved) (registered.draining u old)).1
    · exact announced
  have same (length : next.sessions.length = m.sessions.length) :
      ∀ s < next.sessions.length, ∀ r < next.sessions.length,
        (next.session s).key = (next.session r).key → s = r := by
    intro s first r second keys
    rw [length] at first second
    rw [happens.key first, happens.key second] at keys
    exact registered.apart s first r second keys
  have still (map : next.map = m.map) (length : next.sessions.length = m.sessions.length)
      (running : m.isShutDown = false) :
      ∀ s < next.sessions.length, next.map.find? (next.session s).key = some s := by
    intro s there
    rw [length] at there
    rw [map, happens.key there]
    exact registered.found running s there
  cases enters moved with
  | kept flag map length =>
    exact ⟨named, same length, fun running => still map length (flag ▸ running), draining⟩
  | announced _ _ flag map length =>
    refine ⟨named, same length, fun running => ?_, draining⟩
    rw [flag] at running; cases running
  | drained step stack flag _ length =>
    have flagged := registered.draining _ (stack ▸ List.mem_cons_self)
    refine ⟨named, same length, fun running => ?_, draining⟩
    rw [flag, flagged] at running; cases running
  | @made t key c message rest step stack running _ unknown map length =>
    have own : (next.session m.sessions.length).key = key :=
      (named key m.sessions.length (by rw [map, Keyed.find?_insert, if_pos rfl])).2
    -- The key of a session that was there is known.
    have other : ∀ s < m.sessions.length, (next.session s).key ≠ key := by
      intro s there same
      have found := registered.found running s there
      rw [← happens.key there, same, unknown] at found
      cases found
    refine ⟨named, fun s first r second keys => ?_, fun _ s there => ?_, draining⟩
    · rw [length] at first second
      rcases Nat.lt_succ_iff_lt_or_eq.1 first with old | rfl <;>
        rcases Nat.lt_succ_iff_lt_or_eq.1 second with old' | rfl
      · rw [happens.key old, happens.key old'] at keys
        exact registered.apart s old r old' keys
      · exact absurd (keys.trans own) (other s old)
      · exact absurd (keys.symm.trans own) (other r old')
      · rfl
    · rw [length] at there
      rw [map, Keyed.find?_insert]
      rcases Nat.lt_succ_iff_lt_or_eq.1 there with old | rfl
      · rw [if_neg (Ne.symm (other s old)), happens.key old]
        exact registered.found running s old
      · rw [if_pos own.symm]

theorem registered_initial : Registered initial := by
  refine ⟨fun _ _ found => (nomatch found), fun _ there => (nomatch there), fun _ _ there => (nomatch there),
    fun u member => ?_⟩
  rw [frames_initial] at member; cases member

theorem owes_of_deliver {pending gone : List ConnectionId}
    (performed : m.deliver s pending gone (.status told) = some (made, new))
    (owes : c ∈ pending ∨ c ∈ gone) : (∃ f ∈ new, f.Owes s c) ∨
      (∃ later, pending = c :: later) ∧
        (made.connection c).queue = (m.connection c).queue ++ [.status told] := by
  simp only [Machine.deliver] at performed
  split at performed
  · cases performed
    have left : c ∈ gone := owes.resolve_left List.not_mem_nil
    rw [if_neg (List.ne_nil_of_mem left)]
    exact .inl ⟨_, List.mem_singleton.2 rfl, rfl, left⟩
  · rename_i d later
    split at performed
    · rename_i connection put
      cases performed
      by_cases here : c = d
      · subst here
        refine .inr ⟨⟨later, rfl⟩, ?_⟩
        have set : (m.setConnection c connection).connections = m.connections.set c connection := rfl
        rw [connection_set set, if_pos ⟨rfl, lt_of_queued put⟩]
        exact queue_of_deliver put
      · refine .inl ⟨_, List.mem_singleton.2 rfl, rfl, owes.imp_left fun member => ?_⟩
        exact (List.mem_cons.1 member).resolve_left here
    all_goals
      cases performed
      refine .inl ⟨.deliver s later (gone ++ [d]) (.status told), by simp, rfl, ?_⟩
      rcases owes with waits | left
      · rcases List.mem_cons.1 waits with rfl | waits
        · exact .inr (by simp)
        · exact .inl waits
      · exact .inr (List.mem_append_left _ left)

theorem Takes.owes (taken : Takes setup m t f made new) (within : f.Within m)
    (isOpen : (m.session s).closed = false) (was : c ∈ (m.session s).subscribers)
    (stays : c ∈ (made.session s).subscribers) (owes : f.Owes s c) : (∃ g ∈ new, g.Owes s c) ∨
      ∃ pending gone told, f = .deliver s (c :: pending) gone (.status told) ∧
        (made.connection c).queue = (m.connection c).queue ++ [.status told] := by
  unfold Activity.Owes at owes
  split at owes
  · obtain ⟨rfl, rfl⟩ := owes
    cases taken with
    | performs performed => cases performed; exact .inl ⟨_, List.mem_singleton.2 rfl, rfl, rfl⟩
  · obtain ⟨rfl, rfl⟩ := owes
    cases taken with
    | performs performed =>
      simp only [perform, Machine.look] at performed
      split at performed
      · cases performed
      · split at performed
        · cases performed; exact .inl ⟨_, List.mem_singleton.2 rfl, rfl, rfl⟩
        · split at performed <;> cases performed
          · exact .inl ⟨_, List.mem_singleton.2 rfl, rfl, rfl⟩
          · exact .inl ⟨_, List.mem_append_right _ (List.mem_singleton.2 rfl), rfl, rfl⟩
  · obtain ⟨rfl, rfl⟩ := owes
    cases taken with
    | performs performed =>
      simp only [perform, Machine.begin, isOpen] at performed
      cases performed
      exact .inl ⟨.broadcast _ (.status _), List.mem_cons_of_mem _ List.mem_cons_self, rfl⟩
  · obtain ⟨rfl, rfl⟩ := owes
    cases taken with
    | performs performed =>
      cases performed
      exact .inl ⟨_, List.mem_singleton.2 rfl, rfl, .inl (List.mem_singleton.2 rfl)⟩
  · subst owes
    cases taken with
    | performs performed =>
      cases performed
      exact .inl ⟨_, List.mem_singleton.2 rfl, rfl, .inl was⟩
  · obtain ⟨rfl, owes⟩ := owes
    cases taken with
    | performs performed =>
      refine (owes_of_deliver performed owes).imp_right ?_
      rintro ⟨⟨later, rfl⟩, queue⟩
      exact ⟨later, _, _, rfl, queue⟩
  · obtain ⟨rfl, gone⟩ := owes
    cases taken with
    | performs performed =>
      cases performed
      rw [session_updateSession within] at stays
      have kept := (List.mem_filter.1 stays).2
      simp [gone] at kept
  · exact owes.elim

theorem lt_of_subscribed (subscribed : c ∈ (m.session s).subscribers) : s < m.sessions.length := by
  apply Nat.lt_of_not_le
  intro beyond
  have absent : m.session s = default := by
    simp [Machine.session, List.getD_eq_getElem?_getD, beyond]
  rw [absent] at subscribed
  cases subscribed

-- What is owed to a subscriber who stays is still owed after a step, or has been paid.
theorem Owed.advance (owed : m.Owed s c) (sound : Sound m) (moved : m.advance setup event = some next)
    (isOpen : (m.session s).closed = false) (was : c ∈ (m.session s).subscribers)
    (stays : c ∈ (next.session s).subscribers) :
    next.Owed s c ∨ ∃ told, Step.Pushes ⟨m, event, next⟩ s c told := by
  obtain ⟨u, f, member, owes⟩ := owed
  have firm (k : SocketId) : f ≠ .forward k := by rintro rfl; exact owes
  have transition := (advance_transition sound.present moved).1
  rcases transition.kept member firm with ⟨step, rest, stack⟩ | kept
  · obtain ⟨made, new, taken, replaced, sessions, shape⟩ :=
      sound.takes moved step stack (by rintro s after rfl; exact owes)
    rw [sessions] at stays
    rcases taken.owes (sound.present.frames u f member) isOpen was stays owes with
      ⟨g, added, owes⟩ | ⟨pending, gone, told, rfl, queue⟩
    · exact .inl ⟨u, g, replaced ▸ List.mem_append_left _ added, owes⟩
    · refine .inr ⟨told, added_of_append ?_, u, pending, gone, step, rest, stack⟩
      rw [shape]; exact queue
  · exact .inl ⟨u, f, kept, owes⟩

theorem states_of_status (added : Step.added ⟨m, event, next⟩ c = [.status told]) :
    Step.states ⟨m, event, next⟩ key c = if told.key = key then [told.state] else [] := by
  simp only [Step.states, added, List.filterMap_cons, List.filterMap_nil, ClientEvent.stateOf?]
  split <;> simp_all

theorem Registered.pushes (registered : Registered m) (labelled : Labelled m) (sound : Sound m)
    (happens : Happens setup m event next) (there : s < m.sessions.length)
    (some : Step.states ⟨m, event, next⟩ (m.session s).key c ≠ []) :
    ∃ told, Step.Pushes ⟨m, event, next⟩ s c told := by
  rcases added_cases happens c with none | ⟨t, r, pending, gone, e, rest, step, stack, added⟩ |
    ⟨key, code, text, added⟩
  · rw [Step.states, none] at some; exact absurd rfl some
  · cases e with
    | status told =>
      have top : .deliver r (c :: pending) gone (.status told) ∈ m.frames t :=
        stack ▸ List.mem_cons_self
      rw [states_of_status added, labelled t _ top r told rfl] at some
      have keys : (m.session r).key = (m.session s).key := by
        apply Classical.byContradiction
        intro other
        rw [if_neg other] at some; exact some rfl
      obtain rfl := registered.apart r (sound.present.frames t _ top) s there keys
      exact ⟨told, added, t, pending, gone, step, rest, stack⟩
    | message | error => rw [Step.states, added] at some; exact absurd rfl some
  · rw [Step.states, added] at some; exact absurd rfl some

-- Whoever pushes a state is backed: it is the present one, or what has been read before.
theorem Told.of_push (truthful : Truthful setup m taken) (sound : Sound m)
    (moved : m.advance setup event = some next) (isOpen : (m.session s).closed = false)
    (pushes : Step.Pushes ⟨m, event, next⟩ s c told) :
    next.Told (taken ++ [⟨m, event, next⟩]) s c := by
  obtain ⟨added, t, pending, gone, step, rest, stack⟩ := pushes
  have stack : m.frames t = .deliver s (c :: pending) gone (.status told) :: rest := stack
  have top : .deliver s (c :: pending) gone (.status told) ∈ m.frames t := stack ▸ List.mem_cons_self
  have happens := sound.happens moved
  have kept : next.state s = m.state s := by
    cases happens with
    | turned own turned _ leaves _ =>
      cases own.symm.trans step
      cases turned.stack.symm.trans stack
      exact (leaves.foot.state s).resolve_right nofun
    | started launch started =>
      subst event
      cases step
      cases started.stack.symm.trans stack
    | ambient outside => rw [outside] at step; cases step
  have key : (next.session s).key = (m.session s).key :=
    happens.key (sound.present.frames t _ top)
  refine ⟨taken, _, [], told.state, rfl, ?_, by simp, kept.symm, ?_⟩
  · rw [states_of_status added, key, if_pos (truthful.labelled t _ top s told rfl)]
  · cases truthful.backed t s told (stack ▸ .delivers) isOpen with
    | own _ present => exact .inl (present.symm.trans kept.symm)
    | notice alone noticed =>
      cases alone.symm.trans stack
      exact .inr ⟨t, step, noticed⟩

theorem Told.later (told : m.Told taken s c) (happens : Happens setup m event next)
    (there : s < m.sessions.length) (kept : next.state s = m.state s)
    (silent : Step.states ⟨m, event, next⟩ (m.session s).key c = []) :
    next.Told (taken ++ [⟨m, event, next⟩]) s c := by
  obtain ⟨earlier, push, later, word, rfl, states, none, found, origin⟩ := told
  rw [Told, happens.key there, kept]
  refine ⟨earlier, push, later ++ [⟨m, event, next⟩], word, by simp, states, fun step member => ?_, found,
    origin⟩
  rcases List.mem_append.1 member with old | last
  · exact none step old
  · rw [List.mem_singleton.1 last]; exact silent

theorem loud_of_free (locked : Locked m) (free : (m.custody s).lock = none) : m.Loud s := by
  intro u
  refine (List.pairwise_of_forall_mem_list fun upper _ lower below => .inr ?_).isChain
  rintro rfl
  have mine := locked.held u _ below s rfl
  rw [free] at mine; cases mine

-- Only an idle teardown sets a state that it tells nobody of.
theorem Shifts.loud {held : Custody} (shifts : Shifts m t s a held new)
    (used : (m.custody s).subscribers ≠ []) : new.IsChain fun upper lower =>
      (∀ state, upper ≠ .setState s state) ∨ lower ≠ .unlock s := by
  have quiet (none : ∀ f ∈ new, f.sets? s = none) : new.IsChain fun upper lower =>
      (∀ state, upper ≠ .setState s state) ∨ lower ≠ .unlock s := by
    refine (List.pairwise_of_forall_mem_list fun upper above lower _ => .inl ?_).isChain
    rintro state rfl
    have sets := none (.setState s state) above
    simp [Activity.sets?] at sets
  cases shifts with
  | stale | outdated | vacant | barred | locked | broken => exact quiet (by simp [Activity.sets?])
  | joined => exact quiet fun f member => sets_of_not_isTied (not_isTied_of_outer (outer_whenRunning f member))
  | released _ _ _ outer =>
    exact quiet fun f member => sets_of_not_isTied (not_isTied_of_outer (outer f member))
  | vacated | outlived | begun | failed => simp [publish]
  | stopped unused => exact absurd unused used
  | taken _ stops => rcases stops with ⟨_, rfl⟩ | ⟨slot, grace, _, rfl⟩ <;> simp
  | aside _ _ _ frames => exact quiet fun f member => (frames f member).1

theorem Loud.advance (loud : m.Loud s) (sound : Sound m) (happens : Happens setup m event next)
    (used : (m.custody s).subscribers ≠ []) : next.Loud s := by
  refine isChain_advance loud happens (fun upper lower first _ => .inl (ne_setState_of_isEntry first s))
    (fun t a rest made new stack taken => ?_) fun t r after rest p stack => ?_
  · have within := sound.present.frames t a (stack ▸ List.mem_cons_self)
    obtain ⟨_, below⟩ := List.isChain_cons.1 (stack ▸ loud t)
    refine List.isChain_append.2 ⟨(taken.shifts within s).loud used, below, fun x final y _ => .inl ?_⟩
    exact (taken.woven within).2 x final s
  · obtain ⟨_, below⟩ := List.isChain_cons.1 (stack ▸ loud t)
    refine List.isChain_cons_cons.2 ⟨.inr (by simp), List.isChain_cons_cons.2 ⟨.inl (by simp),
      List.isChain_cons.2 ⟨fun _ _ => .inl (by simp), below⟩⟩⟩

theorem Fresh.advance (fresh : m.Fresh s c) (sound : Sound m)
    (moved : m.advance setup event = some next) : next.Fresh s c ∨ (m.custody s).lock = none := by
  have transition := (advance_transition sound.present moved).1
  obtain ⟨u, renews | looks⟩ := fresh
  · rcases transition.kept renews nofun with ⟨step, rest, stack⟩ | kept
    · obtain ⟨_, new, taken, replaced, _⟩ := sound.takes moved step stack nofun
      cases taken with
      | performs performed =>
        cases performed
        exact .inl ⟨u, .inr (replaced ▸ List.mem_cons_self)⟩
    · exact .inl ⟨u, .inl kept⟩
  · rcases transition.kept looks nofun with ⟨step, rest, stack⟩ | kept
    · obtain ⟨_, new, taken, _⟩ := sound.takes moved step stack nofun
      cases taken with
      | performs performed =>
        simp only [perform, Machine.look] at performed
        split at performed
        · cases performed
        · rename_i free
          exact .inr (Option.not_isSome_iff_eq_none.1 free)
    · exact .inl ⟨u, .inr kept⟩

theorem Fresh.owed (fresh : m.Fresh s c) : m.Owed s c := by
  obtain ⟨u, renews | looks⟩ := fresh
  · exact ⟨u, _, renews, rfl, rfl⟩
  · exact ⟨u, _, looks, rfl, rfl⟩

-- What holds of a subscriber as long as it stays.
structure Informed (m : Machine) (taken : List Step) (s : SessionId) (c : ConnectionId) : Prop where
  word : (m.session s).closed = false → m.Owed s c ∨ m.Told taken s c
  voice : m.Loud s ∨ m.Fresh s c

-- A change of the state is announced next, unless the subscriber has only just come.
theorem Informed.changed (informed : Informed m taken s c) (truthful : Truthful setup m taken)
    (sound : Sound m) (moved : m.advance setup event = some next) (isOpen : (m.session s).closed = false)
    (changed : next.state s ≠ m.state s) : next.Owed s c := by
  cases sound.happens moved with
  | @turned t a rest made new step turned takes leaves shape =>
    obtain rfl := (leaves.foot.state s).resolve_left changed
    obtain ⟨_, _, _, f, below, _⟩ := (truthful.stately.orderly isOpen).setting turned.stack
    cases rest with
    | nil => cases below
    | cons y rest =>
      have adjoins := (List.isChain_cons_cons.1 (turned.stack ▸ truthful.woven t)).1
      rcases adjoins.sets s _ rfl with rfl | ⟨told, rfl, _⟩
      · have fresh : m.Fresh s c := by
          refine informed.voice.resolve_left fun loud => ?_
          rcases (List.isChain_cons_cons.1 (turned.stack ▸ loud t)).1 with quiet | other
          · exact quiet _ rfl
          · exact other rfl
        have lock := sound.locked.held t (.unlock s) (by rw [turned.stack]; simp) s rfl
        refine ((fresh.advance sound moved).resolve_right fun free => ?_).owed
        rw [lock] at free; cases free
      · refine ⟨t, .broadcast s (.status told), ?_, rfl⟩
        rw [turned.replaced]
        exact List.mem_append_right _ List.mem_cons_self
  | started _ _ launches => exact absurd (launches.state s) changed
  | ambient _ _ outside =>
    refine absurd ?_ changed
    rw [Machine.state, Machine.session, outside.sessions]; rfl

theorem Informed.advance (informed : Informed m taken s c) (truthful : Truthful setup m taken)
    (registered : Registered m) (sound : Sound m) (moved : m.advance setup event = some next)
    (was : c ∈ (m.session s).subscribers) (stays : c ∈ (next.session s).subscribers) :
    Informed next (taken ++ [⟨m, event, next⟩]) s c := by
  have happens := sound.happens moved
  have there := lt_of_subscribed was
  have used : (m.custody s).subscribers ≠ [] := List.ne_nil_of_mem was
  refine ⟨fun isOpen => ?_, ?_⟩
  · have wasOpen : (m.session s).closed = false := happens.wasOpen isOpen
    rcases informed.word wasOpen with owed | told
    · refine (owed.advance sound moved wasOpen was stays).imp_right ?_
      rintro ⟨told, pushes⟩
      exact .of_push truthful sound moved wasOpen pushes
    · by_cases silent : Step.states ⟨m, event, next⟩ (m.session s).key c = []
      · by_cases kept : next.state s = m.state s
        · exact .inr (told.later happens there kept silent)
        · exact .inl (informed.changed truthful sound moved wasOpen kept)
      · obtain ⟨told, pushes⟩ := registered.pushes truthful.labelled sound happens there silent
        exact .inr (.of_push truthful sound moved wasOpen pushes)
  · rcases informed.voice with loud | fresh
    · exact .inl (loud.advance sound happens used)
    · rcases fresh.advance sound moved with still | free
      · exact .inr still
      · exact .inl ((loud_of_free sound.locked free).advance sound happens used)

theorem Informed.of_join (sound : Sound m) (moved : m.advance setup event = some next)
    (fresh : c ∉ (m.session s).subscribers) (joined : c ∈ (next.session s).subscribers) :
    Informed next taken s c := by
  rcases (advance_transition sound.present moved).1.joins joined with old | ⟨t, rest, step, stack⟩
  · exact absurd old fresh
  · have inserts : Step.Inserts ⟨m, event, next⟩ s t c := ⟨step, ⟨rest, stack⟩, fresh⟩
    have renews : next.Fresh s c := ⟨t, .inl (inserts.after sound moved).2⟩
    exact ⟨fun _ => .inl renews.owed, .inr renews⟩

structure Attentive (setup : Setup) (m : Machine) (taken : List Step) : Prop where
  truthful : Truthful setup m taken
  registered : Registered m
  informed : ∀ s c, c ∈ (m.session s).subscribers → Informed m taken s c

theorem Attentive.runs (ran : initial.runs setup events = some m) :
    Attentive setup m (initial.steps setup events) := by
  refine sound_initial.induction (motive := fun taken now => Attentive setup now taken) ran
    ⟨truthful_initial, registered_initial, fun s c joined => (nomatch joined)⟩ ?_
  intro taken before event after sound moved attentive
  refine ⟨attentive.truthful.advance sound moved, attentive.registered.advance sound moved,
    fun s c joined => ?_⟩
  by_cases was : c ∈ (before.session s).subscribers
  · exact (attentive.informed s c was).advance attentive.truthful attentive.registered sound moved was joined
  · exact .of_join sound moved was joined

theorem worksOn_of_owes (owes : f.Owes s c) : f.worksOn s := by
  unfold Activity.Owes at owes
  split at owes <;> simp_all [Activity.worksOn]

theorem not_owed_of_isStill (still : m.isStill s) : ¬ m.Owed s c := by
  rintro ⟨u, f, member, owes⟩
  have rests := of_all_frames still member
  rw [worksOn_of_owes owes] at rests
  cases rests

theorem lastWord_of_last {earlier later : List Step} {push : Step} {word : SessionState}
    (states : push.states key c = [word]) (none : ∀ step ∈ later, step.states key c = []) :
    lastWord (earlier ++ push :: later) key c = some word := by
  simp only [lastWord, List.flatMap_append, List.flatMap_cons, states,
    List.flatMap_eq_nil_iff.2 none, List.append_nil, List.getLast?_concat]

theorem eq_of_last {earlier later before after : List Step} {push other : Step}
    (split : earlier ++ push :: later = before ++ other :: after) (speaks : push.states key c ≠ [])
    (none : ∀ step ∈ later, step.states key c = []) (answers : other.states key c ≠ [])
    (still : ∀ step ∈ after, step.states key c = []) : push = other := by
  rcases List.append_eq_append_iff.1 split with ⟨front, rfl, tail⟩ | ⟨front, rfl, tail⟩
  · cases front with
    | nil => exact (List.cons.inj tail).1
    | cons first front =>
      obtain ⟨_, rfl⟩ := List.cons.inj tail
      exact absurd (none other (by simp)) answers
  · cases front with
    | nil => exact (List.cons.inj tail).1.symm
    | cons first front =>
      obtain ⟨_, rfl⟩ := List.cons.inj tail
      exact absurd (still push (by simp)) speaks

-- Whenever nothing is in progress at an open session, each subscriber has been told of its state, and the
-- last word is the state that the session is in exactly if it is no notice that has been overtaken.
theorem subscribers_up_to_date (ran : initial.runs setup events = some m) (still : m.isStill s)
    (isOpen : (m.session s).closed = false) (subscribed : c ∈ (m.session s).subscribers) :
    ∃ word, lastWord (initial.steps setup events) (m.session s).key c = some word ∧
      (word = (m.session s).state ↔
        ¬ Overtaken (initial.steps setup events) s (m.session s).key c) := by
  have informed := (Attentive.runs ran).informed s c subscribed
  obtain ⟨earlier, push, later, word, split, states, none, found, origin⟩ :=
    (informed.word isOpen).resolve_left (not_owed_of_isStill still)
  refine ⟨word, by rw [split]; exact lastWord_of_last states none, fun present => ?_, fun prompt => ?_⟩
  · rintro ⟨before, read, between, other, after, t, parts, _, _, _, told, quiet, changed⟩
    obtain rfl := eq_of_last (split.symm.trans parts) (by rw [states]; nofun) none
      (by rw [told]; nofun) quiet
    obtain ⟨rfl, _⟩ := List.cons.inj (states.symm.trans told)
    exact changed (found.trans present.symm)
  · rcases origin with present | ⟨t, step, before, read, between, rfl, performs, reads, alone⟩
    · exact present
    · apply Classical.byContradiction
      intro other
      refine prompt ⟨before, read, between, push, later, t, ?_, performs, alone, step, ?_, none, ?_⟩
      · rw [split]
      · rw [reads]; exact states
      · rw [found, reads]; exact Ne.symm other

-- A server runs, and the state has been read for a late subscriber.
def lateRead : List Event :=
  ([.connect 8, .call (.subscribe "k" 0)] : List Event) ++ (.replicate 11 (.run 0) : List Event) ++
    ([.launch 0 none] : List Event) ++ (.replicate 5 (.run 0) : List Event) ++
    ([.connect 8, .call (.subscribe "k" 1)] : List Event) ++ (.replicate 7 (.run 3) : List Event)

-- The server crashes, and all subscribers are told.
def downfall : List Event :=
  .childEnds 0 (some 1) :: .watch 0 .childEnded :: .replicate 8 (.run 2)

def lateNotice : List Event := .replicate 2 (.run 3)

theorem runs_overtaken : ∃ m, initial.runs oneKey (lateRead ++ downfall ++ lateNotice) = some m ∧
    m.isStill 0 ∧ m.isQuiet ∧ (m.session 0).closed = false ∧ (m.session 0).subscribers = [0, 1] ∧
    (m.session 0).state = .crashed ∧ (m.session 0).key = "k" := by
  obtain ⟨m, ran, facts⟩ := Option.map_eq_some_iff.1 (show
    (initial.runs oneKey (lateRead ++ downfall ++ lateNotice)).map (fun m => (m.isStill 0, m.isQuiet,
      (m.session 0).closed, (m.session 0).subscribers, (m.session 0).state, (m.session 0).key)) =
      some (true, true, false, [0, 1], .crashed, "k") by rfl)
  simp only [Prod.mk.injEq] at facts
  exact ⟨m, ran, facts⟩

theorem lastWord_overtaken :
    lastWord (initial.steps oneKey (lateRead ++ downfall ++ lateNotice)) "k" 1 = some .running := by rfl

-- When the notice comes before the crash the late subscriber is told of both. When it comes after it, it
-- is overtaken.
theorem up_to_date_unless_overtaken :
    (∃ m, initial.runs oneKey (lateRead ++ lateNotice ++ downfall) = some m ∧ m.isStill 0 ∧
      (m.session 0).state = .crashed ∧
      ¬ Overtaken (initial.steps oneKey (lateRead ++ lateNotice ++ downfall)) 0 "k" 1) ∧
    ∃ m, initial.runs oneKey (lateRead ++ downfall ++ lateNotice) = some m ∧ m.isStill 0 ∧
      (m.session 0).state = .crashed ∧
      Overtaken (initial.steps oneKey (lateRead ++ downfall ++ lateNotice)) 0 "k" 1 := by
  constructor
  · obtain ⟨m, ran, facts⟩ := Option.map_eq_some_iff.1 (show
      (initial.runs oneKey (lateRead ++ lateNotice ++ downfall)).map (fun m => (m.isStill 0,
        (m.session 0).closed, (m.session 0).subscribers, (m.session 0).state, (m.session 0).key)) =
        some (true, false, [0, 1], .crashed, "k") by rfl)
    simp only [Prod.mk.injEq] at facts
    obtain ⟨still, isOpen, subscribers, state, key⟩ := facts
    have word : lastWord (initial.steps oneKey (lateRead ++ lateNotice ++ downfall)) "k" 1 =
        some .crashed := by rfl
    obtain ⟨other, last, present⟩ := subscribers_up_to_date (c := 1) ran still isOpen
      (by rw [subscribers]; simp)
    rw [key, word] at last
    rw [key, state] at present
    cases last
    exact ⟨m, ran, still, state, present.1 rfl⟩
  · obtain ⟨m, ran, still, _, isOpen, subscribers, state, key⟩ := runs_overtaken
    obtain ⟨other, last, present⟩ := subscribers_up_to_date (c := 1) ran still isOpen
      (by rw [subscribers]; simp)
    rw [key, lastWord_overtaken] at last
    rw [key, state] at present
    cases last
    exact ⟨m, ran, still, state, Classical.not_not.1 fun prompt => nomatch present.2 prompt⟩

-- With nothing in progress anywhere, the last word to a subscriber of an open session is a state that was
-- over when it came into the queue.
theorem last_status_not_present :
    ∃ m, initial.runs oneKey (lateRead ++ downfall ++ lateNotice) = some m ∧ m.isQuiet ∧
      (m.session 0).closed = false ∧ 1 ∈ (m.session 0).subscribers ∧ (m.session 0).state = .crashed ∧
      lastWord (initial.steps oneKey (lateRead ++ downfall ++ lateNotice)) (m.session 0).key 1 =
        some .running := by
  obtain ⟨m, ran, _, quiet, isOpen, subscribers, state, key⟩ := runs_overtaken
  exact ⟨m, ran, quiet, isOpen, by rw [subscribers]; simp, state, by rw [key]; exact lastWord_overtaken⟩

end Machine
end LanguageRelay
