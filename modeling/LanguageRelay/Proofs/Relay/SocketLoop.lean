import LanguageRelay.Proofs.Relay.Hosting
namespace LanguageRelay

-- Somebody besides the reader of a socket makes requests in the name of the connection.
def Event.borrows (c : ConnectionId) : Event → Bool
  | .call (.subscribe _ d) | .call (.route _ d _) | .call (.subscribeDirect _ d) => d == c
  | _ => false

def SocketFrame.message? (key : String) : SocketFrame → Option (String × Message)
  | .text body => some (key, ⟨body⟩)
  | _ => none

namespace Activity

def seeks (c : ConnectionId) : Activity → Bool
  | .enter _ d _ | .findSession _ d _ | .subscribe _ d | .attach _ d => d == c
  | _ => false

def hands (c : ConnectionId) : Activity → Option (String × Message)
  | .enter key d (some message) => if d = c then some (key, message) else none
  | _ => none

end Activity

namespace Machine

def Step.handed (c : ConnectionId) (step : Step) : Option (String × Message) :=
  step.event.task?.bind fun t => (step.before.frames t).head?.bind (Activity.hands c)

-- Whoever comes to subscribe the connection goes on listening to its socket. A reader that does not
-- listen any more has still to leave the sessions of the map that the connection is subscribed to.
structure Serving (m : Machine) (c : ConnectionId) : Prop where
  seeks : ∀ u, ∀ f ∈ m.frames u, f.seeks c →
    ∃ k < m.sockets.length, (m.socket k).connection = c ∧ .listen k ∈ m.frames u
  leaves : ∀ k < m.sockets.length, (m.socket k).connection = c →
    ∀ e ∈ m.map, c ∈ (m.session e.2).subscribers →
      .listen k ∈ m.frames (m.socket k).reader ∨ .leaveAll c ∈ m.frames (m.socket k).reader ∨
      .detach e.2 c ∈ m.frames (m.socket k).reader

-- All that the reader has still to do is to wait until what is queued has gone out.
def Left (m : Machine) (k : SocketId) : Prop :=
  ∀ f ∈ m.frames (m.socket k).reader, f = .leave k ∨ ∃ deadline, f = .awaitFlush k deadline

-- Nobody listens to the socket any more, and the sessions of the map are without its connection.
structure Quit (m : Machine) (k : SocketId) (c : ConnectionId) : Prop where
  there : k < m.sockets.length
  connection : (m.socket k).connection = c
  unheard : ∀ u, .listen k ∉ m.frames u
  outside : ∀ e ∈ m.map, c ∉ (m.session e.2).subscribers

variable {m made next : Machine} {setup : Setup} {event : Event} {events later : List Event}
  {t u : TaskId} {s : SessionId} {c : ConnectionId} {j k : SocketId} {a f : Activity}
  {rest new : List Activity}

theorem isRequest_of_seeks (seeks : f.seeks c) : f.isRequest := by
  cases f <;> first | rfl | cases seeks

theorem seeks_of_hands {handed : String × Message} (hands : f.hands c = some handed) : f.seeks c := by
  unfold Activity.hands at hands
  split at hands
  · split at hands
    · rename_i same
      exact beq_iff_eq.2 same
    · cases hands
  · cases hands

theorem Serving.seeks_advance (serving : Serving m c) (hosts : Hosts m) (sound : Sound m)
    (moved : m.advance setup event = some next) (own : event.borrows c = false)
    (member : f ∈ next.frames u) (seeks : f.seeks c) :
    ∃ k < next.sockets.length, (next.socket k).connection = c ∧ .listen k ∈ next.frames u := by
  have seat {k : SocketId} (there : k < m.sockets.length) := sound.seat moved there
  -- What comes to subscribe stands above the frame that listens, so that this frame stays.
  have before {g : Activity} (old : g ∈ m.frames u) (seeks : g.seeks c) :
      ∃ k < next.sockets.length, (next.socket k).connection = c ∧ .listen k ∈ next.frames u := by
    obtain ⟨k, there, connection, listens⟩ := serving.seeks u g old seeks
    refine ⟨k, (seat there).1, (seat there).2.2.1.trans connection, ?_⟩
    rcases hosts.keeps sound moved listens with still | ⟨stack, _⟩
    · exact still
    · rw [stack] at old
      rw [List.mem_singleton.1 old] at seeks
      cases seeks
  by_cases step : event.task? = some u
  · obtain ⟨a, rest, new, stack, replaced, follows⟩ := sound.own moved step
    have top : a ∈ m.frames u := stack ▸ List.mem_cons_self
    have whole := member
    rw [replaced] at member
    rcases List.mem_append.1 member with added | under
    · cases follows f added (isRequest_of_seeks seeks) with
      | finds | subscribes | attaches => exact before top seeks
      | listens => cases seeks
      | @asks k =>
        have there : k < m.sockets.length := sound.present.frames u _ top
        refine ⟨k, (seat there).1, (seat there).2.2.1.trans (beq_iff_eq.1 seeks), ?_⟩
        rcases hosts.keeps sound moved top with still | ⟨_, leaves⟩
        · exact still
        · rw [leaves] at whole
          simp [leaving] at whole
    · exact before (stack ▸ List.mem_cons_of_mem _ under) seeks
  · rcases sound.others moved step member (isRequest_of_seeks seeks) with
      old | ⟨operation, rfl, inside⟩ | ⟨key, rfl, beyond⟩
    · exact before old seeks
    · cases operation with
      | subscribe | route | subscribeDirect =>
        rw [List.mem_singleton.1 inside] at seeks
        exact absurd seeks (Bool.eq_false_iff.1 own)
      | _ => rw [List.mem_singleton.1 inside] at seeks; cases seeks
    · obtain rfl := openSocket_eq moved
      obtain ⟨connection, _, frames⟩ := opened m key (.new setup.settings.clientQueue)
      by_cases first : u = m.tasks.length
      · subst u
        rw [frames] at member ⊢
        refine ⟨m.sockets.length, length_openSocket key ▸ Nat.lt_succ_self _, connection.trans ?_,
          by simp⟩
        simp only [List.mem_cons, List.not_mem_nil, or_false] at member
        rcases member with rfl | rfl | rfl
        · exact beq_iff_eq.1 seeks
        · cases seeks
        · cases seeks
      · rw [frames_openSocket, if_neg first, frames_of_length_le beyond] at member
        split at member
        · rw [List.mem_singleton.1 member] at seeks; cases seeks
        · cases member

theorem mem_map_of_enters {e : String × SessionId} (enters : Enters m event next)
    (member : e ∈ next.map) (joined : c ∈ (m.session e.2).subscribers) : e ∈ m.map := by
  cases enters with
  | kept _ map | announced _ _ _ map => rw [← map]; exact member
  | drained _ _ _ map => rw [map] at member; cases member
  | made _ _ _ _ _ map =>
    rw [map] at member
    rcases Keyed.mem_insert member with rfl | old
    · simp [session, List.getD_eq_getElem?_getD] at joined
      cases joined
    · exact old

theorem Sound.detaches {e : String × SessionId} (sound : Sound m)
    (moved : m.advance setup event = some next) (listed : e ∈ m.map)
    (member : .leaveAll c ∈ m.frames u) :
    .leaveAll c ∈ next.frames u ∨ .detach e.2 c ∈ next.frames u := by
  rcases (advance_transition sound.present moved).1.kept member nofun with ⟨step, rest, stack⟩ | still
  · obtain ⟨made, new, taken, replaced, _⟩ := sound.takes moved step stack nofun
    right
    rw [replaced]
    cases taken with
    | performs performed =>
      simp only [perform, Machine.leaveAll] at performed
      split at performed <;> cases performed
      exact List.mem_append_left _ (List.mem_map.2 ⟨e, listed, rfl⟩)
  · exact .inl still

theorem Sound.detached (sound : Sound m) (moved : m.advance setup event = some next)
    (member : .detach s c ∈ m.frames u) :
    .detach s c ∈ next.frames u ∨ c ∉ (next.session s).subscribers := by
  rcases (advance_transition sound.present moved).1.kept member nofun with ⟨step, rest, stack⟩ | still
  · have there : s < m.sessions.length := sound.present.frames u _ member
    obtain ⟨made, new, taken, _, session, _⟩ := sound.takes moved step stack nofun
    right
    rw [session]
    cases taken with
    | performs performed =>
      simp only [perform, Machine.detach] at performed
      split at performed <;> rename_i present <;> cases performed
      · show c ∉ ((m.updateSession s fun session => { session with
          subscribers := (m.session s).subscribers.filter fun d => d != c }).session s).subscribers
        rw [session_updateSession there]
        simp
      · exact present
  · exact .inl still

theorem Serving.leaves_advance (serving : Serving m c) (hosts : Hosts m) (sound : Sound m)
    (moved : m.advance setup event = some next) (there : k < next.sockets.length)
    (connection : (next.socket k).connection = c) {e : String × SessionId} (member : e ∈ next.map)
    (joined : c ∈ (next.session e.2).subscribers) :
    .listen k ∈ next.frames (next.socket k).reader ∨
      .leaveAll c ∈ next.frames (next.socket k).reader ∨
      .detach e.2 c ∈ next.frames (next.socket k).reader := by
  rcases sound.opened moved there with old | ⟨key, rfl, rfl⟩
  · obtain ⟨_, _, same, reader⟩ := sound.seat moved old
    rw [reader]
    rw [same] at connection
    have listening (listens : .listen k ∈ m.frames (m.socket k).reader) :
        .listen k ∈ next.frames (m.socket k).reader ∨ .leaveAll c ∈ next.frames (m.socket k).reader ∨
        .detach e.2 c ∈ next.frames (m.socket k).reader := by
      rcases hosts.keeps sound moved listens with still | ⟨_, leaves⟩
      · exact .inl still
      · right; left
        rw [leaves, leaving, connection]
        exact List.mem_cons_self
    rcases (advance_transition sound.present moved).1.joins joined with before | ⟨t, rest, _, stack⟩
    · have listed := mem_map_of_enters (enters moved) member before
      rcases serving.leaves k old connection e listed before with listens | leaves | detaches
      · exact listening listens
      · exact .inr (sound.detaches moved listed leaves)
      · rcases sound.detached moved detaches with still | gone
        · exact .inr (.inr still)
        · exact absurd joined gone
    · -- The reader is about to insert the connection, and listens.
      have top : .attach e.2 c ∈ m.frames t := stack ▸ List.mem_cons_self
      obtain ⟨j, known, own, listens⟩ := serving.seeks t _ top (beq_self_eq_true c)
      cases hosts.connections.distinct j known k old (own.trans connection.symm)
      exact listening (hosts.listens t k listens ▸ listens)
  · left
    obtain rfl := openSocket_eq moved
    obtain ⟨_, reader, frames⟩ := opened m key (.new setup.settings.clientQueue)
    rw [reader, frames]
    simp

theorem Serving.advance (serving : Serving m c) (hosts : Hosts m) (sound : Sound m)
    (moved : m.advance setup event = some next) (own : event.borrows c = false) : Serving next c :=
  ⟨fun _ _ member => serving.seeks_advance hosts sound moved own member,
    fun _ there connection _ => serving.leaves_advance hosts sound moved there connection⟩

theorem serving_initial : Serving initial c := by
  refine ⟨fun u f member => ?_, nofun⟩
  rw [frames_initial] at member; cases member

theorem Serving.handed (serving : Serving m c) {handed : String × Message}
    (hands : Step.handed c ⟨m, event, next⟩ = some handed) : ∃ k < m.sockets.length,
      (m.socket k).connection = c ∧ ∃ t, event.task? = some t ∧ .listen k ∈ m.frames t := by
  obtain ⟨t, own, hands⟩ := Option.bind_eq_some_iff.1 hands
  obtain ⟨f, head, hands⟩ := Option.bind_eq_some_iff.1 hands
  obtain ⟨k, there, connection, listens⟩ := serving.seeks t f (List.mem_of_head? head)
    (seeks_of_hands hands)
  exact ⟨k, there, connection, t, own, listens⟩

-- What the reader has still to hand over and what it reads is what it hands over and what remains.
theorem Serving.hands (serving : Serving m c) (hosts : Hosts m) (sound : Sound m)
    (moved : m.advance setup event = some next) (there : k < m.sockets.length)
    (connection : (m.socket k).connection = c) :
    (m.frames (m.socket k).reader).filterMap (Activity.hands c) ++
        ((Step.received k ⟨m, event, next⟩).toList.filterMap (SocketFrame.message? (m.socket k).key)) =
      (Step.handed c ⟨m, event, next⟩).toList ++
        (next.frames (m.socket k).reader).filterMap (Activity.hands c) := by
  -- A step that reads is the reader's and takes up the frame that listens.
  have unread (absent : ∀ t rest, event.task? = some t → m.frames t ≠ .listen k :: rest) :
      Step.received k ⟨m, event, next⟩ = none := by
    unfold Step.received
    split
    · rename_i t attends
      dsimp only at attends
      split
      · rename_i j rest stack
        refine if_neg ?_
        rintro rfl
        exact absent t rest (congrArg Event.task? attends) stack
      · rfl
    · rfl
  by_cases step : event.task? = some (m.socket k).reader
  · obtain ⟨a, rest, new, stack, replaced, follows⟩ := sound.own moved step
    have handed : Step.handed c ⟨m, event, next⟩ = a.hands c := by
      simp only [Step.handed, step, stack, Option.bind_some, List.head?_cons]
    rw [handed, stack, replaced]
    by_cases listens : ∃ j, a = .listen j
    · obtain ⟨j, rfl⟩ := listens
      have top : .listen j ∈ m.frames (m.socket k).reader := stack ▸ List.mem_cons_self
      have known : j < m.sockets.length := sound.present.frames _ _ top
      cases hosts.readers.distinct k there j known (hosts.listens _ j top)
      cases hosts.alone stack
      obtain ⟨attention, made, frames, rfl, attends, same⟩ := attend_of_listen stack step moved
      cases (List.append_cancel_right (replaced.symm.trans same))
      cases attends with
      | text incoming | other incoming | close incoming =>
        rw [received_of_top stack, if_pos rfl, incoming]
        simp [List.filterMap_cons, Activity.hands, SocketFrame.message?, connection, leaving]
      | leaves other =>
        have silent : Step.received k ⟨m, .attend (m.socket k).reader attention, next⟩ = none := by
          cases attention with
          | frame => exact absurd rfl other
          | _ => rfl
        rw [silent]
        simp [List.filterMap_cons, Activity.hands, leaving]
    · have quiet : new.filterMap (Activity.hands c) = [] := by
        refine List.filterMap_eq_nil_iff.2 fun f added => ?_
        cases hands : f.hands c with
        | none => rfl
        | some handed =>
          have seeks := seeks_of_hands hands
          cases follows f added (isRequest_of_seeks seeks) with
          | listens => cases seeks
          | asks => exact absurd ⟨_, rfl⟩ listens
          | finds | subscribes | attaches => cases hands
      rw [unread fun t rest own first => ?_, List.filterMap_append, quiet]
      · cases hands : a.hands c <;> simp [hands]
      · cases own.symm.trans step
        exact listens ⟨k, (List.cons.inj (stack.symm.trans first)).1⟩
  · have unhanded : Step.handed c ⟨m, event, next⟩ = none := by
      refine Option.eq_none_iff_forall_ne_some.2 fun handed hands => ?_
      obtain ⟨j, known, same, t, own, listens⟩ := serving.handed hands
      cases hosts.connections.distinct j known k there (same.trans connection.symm)
      exact step (hosts.listens t k listens ▸ own)
    rw [unhanded, unread fun t rest own first => ?_]
    · rcases sound.unmoved moved step (hosts.readers.below k there) with same | ⟨forwards, broken⟩
      · rw [same]; simp
      · have idle : (m.frames (m.socket k).reader).filterMap (Activity.hands c) = [] := by
          refine List.filterMap_eq_nil_iff.2 fun f member => ?_
          obtain ⟨j, rfl⟩ := forwards f member
          rfl
        rw [idle, broken]; rfl
    · have listens : .listen k ∈ m.frames t := first ▸ List.mem_cons_self
      exact step (hosts.listens t k listens ▸ own)

theorem serving_runs (ran : initial.runs setup events = some m)
    (own : ∀ event ∈ events, event.borrows c = false) : Serving m c ∧
      ((∀ k < m.sockets.length, (m.socket k).connection ≠ c) →
        (initial.steps setup events).filterMap (Step.handed c) = []) ∧
      ∀ k < m.sockets.length, (m.socket k).connection = c →
        ((initial.steps setup events).filterMap (Step.received k)).filterMap
            (SocketFrame.message? (m.socket k).key) =
          (initial.steps setup events).filterMap (Step.handed c) ++
            (m.frames (m.socket k).reader).filterMap (Activity.hands c) := by
  induction events using List.reverseRecOn generalizing m with
  | nil => cases ran; exact ⟨serving_initial, fun _ => rfl, nofun⟩
  | append_singleton events event ih =>
    obtain ⟨made, first, moved⟩ := runs_concat ran
    have sound := sound_initial.runs first
    have hosts := Hosts.runs first
    obtain ⟨serving, unhanded, handed⟩ := ih first fun event member =>
      own event (List.mem_append_left _ member)
    have last := own event (List.mem_append_right _ List.mem_cons_self)
    -- Nothing is handed over before the socket is there.
    have quiet (none : ∀ k < made.sockets.length, (made.socket k).connection ≠ c) :
        (initial.steps setup (events ++ [event])).filterMap (Step.handed c) = [] := by
      rw [steps_concat first moved, filterMap_concat, unhanded none, List.nil_append]
      cases hands : Step.handed c ⟨made, event, m⟩ with
      | none => rfl
      | some handed =>
        obtain ⟨k, there, connection, _⟩ := serving.handed hands
        exact absurd connection (none k there)
    refine ⟨serving.advance hosts sound moved last, fun none => quiet fun k there same => ?_,
      fun k there connection => ?_⟩
    · obtain ⟨still, _, kept, _⟩ := sound.seat moved there
      exact none k still (kept.trans same)
    · rcases sound.opened moved there with old | ⟨key, rfl, rfl⟩
      · obtain ⟨_, key, kept, reader⟩ := sound.seat moved old
        have connection := kept.symm.trans connection
        rw [key, reader, steps_concat first moved, filterMap_concat, filterMap_concat,
          List.filterMap_append, handed k old connection, List.append_assoc, List.append_assoc,
          serving.hands hosts sound moved old connection]
      · obtain rfl := openSocket_eq moved
        obtain ⟨fresh, reader, frames⟩ := opened made key (.new setup.settings.clientQueue)
        have unread : (initial.steps setup (events ++ [.openSocket key])).filterMap
            (Step.received made.sockets.length) = [] := by
          obtain ⟨unopened, split⟩ := incoming_runs first
          have none := (split made.sockets.length).symm.trans (unopened _ (Nat.le_refl _))
          rw [steps_concat first moved, filterMap_concat, (List.append_eq_nil_iff.1 none).1]
          rfl
        rw [unread, quiet fun k there same => ?_, reader, frames]
        · rfl
        · have before := hosts.connections.below k there
          rw [same, ← connection, fresh] at before
          exact absurd before (Nat.lt_irrefl _)

theorem Left.quit (left : m.Left k) (serving : Serving m (m.socket k).connection) (hosts : Hosts m)
    (there : k < m.sockets.length) : Quit m k (m.socket k).connection := by
  have absent {f : Activity} (member : f ∈ m.frames (m.socket k).reader) (leaves : f ≠ .leave k)
      (flushes : ∀ deadline, f ≠ .awaitFlush k deadline) : False := by
    rcases left f member with same | ⟨deadline, same⟩
    · exact leaves same
    · exact flushes deadline same
  refine ⟨there, rfl, fun u listens => ?_, fun e listed joined => ?_⟩
  · cases hosts.listens u k listens
    exact absent listens nofun nofun
  · rcases serving.leaves k there rfl e listed joined with listens | leaves | detaches
    · exact absent listens nofun nofun
    · exact absent leaves nofun nofun
    · exact absent detaches nofun nofun

theorem Quit.joins (quit : Quit m k c) (serving : Serving m c) (hosts : Hosts m) (sound : Sound m)
    (moved : m.advance setup event = some next) (joined : c ∈ (next.session s).subscribers) :
    c ∈ (m.session s).subscribers := by
  rcases (advance_transition sound.present moved).1.joins joined with before | ⟨t, rest, _, stack⟩
  · exact before
  · have top : .attach s c ∈ m.frames t := stack ▸ List.mem_cons_self
    obtain ⟨j, known, own, listens⟩ := serving.seeks t _ top (beq_self_eq_true c)
    cases hosts.connections.distinct j known k quit.there (own.trans quit.connection.symm)
    exact absurd listens (quit.unheard t)

theorem Quit.advance (quit : Quit m k c) (serving : Serving m c) (hosts : Hosts m) (sound : Sound m)
    (moved : m.advance setup event = some next) : Quit next k c := by
  obtain ⟨there, _, connection, _⟩ := sound.seat moved quit.there
  refine ⟨there, connection.trans quit.connection, fun u listens => ?_, fun e listed joined => ?_⟩
  · rcases sound.listens moved listens with old | ⟨key, rfl, beyond⟩
    · exact quit.unheard u old
    · obtain rfl := openSocket_eq moved
      rw [frames_openSocket, frames_of_length_le beyond] at listens
      split at listens
      · cases List.mem_singleton.1 listens
      · split at listens
        · simp only [List.mem_cons, List.not_mem_nil, or_false] at listens
          rcases listens with same | same | same <;> cases same
          exact absurd quit.there (Nat.lt_irrefl _)
        · cases listens
  · have before := quit.joins serving hosts sound moved joined
    exact quit.outside e (mem_map_of_enters (enters moved) listed before) before

theorem Quit.runs (quit : Quit m k c) (serving : Serving m c) (hosts : Hosts m) (sound : Sound m)
    (ran : m.runs setup later = some next) (own : ∀ event ∈ later, event.borrows c = false) :
    Quit next k c ∧ ∀ step ∈ m.steps setup later, ∀ s,
      c ∈ (step.after.session s).subscribers → c ∈ (step.before.session s).subscribers := by
  induction later generalizing m with
  | nil =>
    cases ran
    exact ⟨quit, fun _ member => absurd member List.not_mem_nil⟩
  | cons event rest ih =>
    obtain ⟨made, moved, onward⟩ := Option.bind_eq_some_iff.1 ran
    have first := own event List.mem_cons_self
    obtain ⟨still, never⟩ := ih (quit.advance serving hosts sound moved)
      (serving.advance hosts sound moved first) (hosts.advance sound moved) (sound.advance moved) onward
      fun event member => own event (List.mem_cons_of_mem _ member)
    refine ⟨still, fun step member s => ?_⟩
    simp only [steps, moved] at member
    rcases List.mem_cons.1 member with rfl | after
    · exact quit.joins serving hosts sound moved
    · exact never step after s

-- What has come in through a socket has been read in this order or still waits, and the texts among
-- what has been read have been handed over in this order, each once, or are about to be. When the
-- reader has left, its connection is subscribed to no session of the map and never will be. A reader
-- breaks down only where the queue of a server is too large for a start.
theorem socket_leaves_nothing (ran : initial.runs setup events = some m) (there : k < m.sockets.length)
    (own : ∀ event ∈ events, event.borrows (m.socket k).connection = false) :
    (initial.steps setup events).filterMap (Step.arrived k) =
      (initial.steps setup events).filterMap (Step.received k) ++ (m.socket k).incoming ∧
    ((initial.steps setup events).filterMap (Step.received k)).filterMap
        (SocketFrame.message? (m.socket k).key) =
      (initial.steps setup events).filterMap (Step.handed (m.socket k).connection) ++
        (m.frames (m.socket k).reader).filterMap (Activity.hands (m.socket k).connection) ∧
    (m.Left k →
      ((initial.steps setup events).filterMap (Step.received k)).filterMap
          (SocketFrame.message? (m.socket k).key) =
        (initial.steps setup events).filterMap (Step.handed (m.socket k).connection) ∧
      ∀ later next, m.runs setup later = some next →
        (∀ event ∈ later, event.borrows (m.socket k).connection = false) →
        (∀ e ∈ next.map, (m.socket k).connection ∉ (next.session e.2).subscribers) ∧
        ∀ step ∈ m.steps setup later, ∀ s,
          (m.socket k).connection ∈ (step.after.session s).subscribers →
            (m.socket k).connection ∈ (step.before.session s).subscribers) ∧
    ((m.task (m.socket k).reader).isBroken →
      Connection.greatestCapacity < setup.settings.processQueue) := by
  have sound := sound_initial.runs ran
  have hosts := Hosts.runs ran
  obtain ⟨serving, _, handed⟩ := serving_runs ran own
  have handed := handed k there rfl
  refine ⟨(incoming_runs ran).2 k, handed, fun left => ⟨?_, fun later next onward own => ?_⟩,
    fun broken => ?_⟩
  · have done : (m.frames (m.socket k).reader).filterMap
        (Activity.hands (m.socket k).connection) = [] := by
      refine List.filterMap_eq_nil_iff.2 fun f member => ?_
      rcases left f member with rfl | ⟨_, rfl⟩ <;> rfl
    rw [handed, done, List.append_nil]
  · obtain ⟨quit, never⟩ := (left.quit serving hosts there).runs serving hosts sound onward own
    exact ⟨quit.outside, never⟩
  · obtain ⟨below, stack⟩ := frames_of_isBroken broken
    exact greater_of_broken ran (show .breakdown ∈ m.frames _ from stack ▸ List.mem_cons_self)

-- A socket comes, sends a message, something that is none and a closing frame, and goes.
def oneVisit : List Event :=
  ([.connect 8, .call (.subscribe "k" 0)] : List Event) ++ (.replicate 11 (.run 0) : List Event) ++
    ([.launch 0 none] : List Event) ++ (.replicate 5 (.run 0) : List Event) ++
    ([.openSocket "k", .incoming 0 (.text "{}"), .incoming 0 .other, .incoming 0 .close] : List Event) ++
    (.replicate 10 (.run 3) : List Event) ++ ([.attend 3 .frame] : List Event) ++
    (.replicate 9 (.run 3) : List Event) ++ ([.attend 3 .frame, .attend 3 .frame] : List Event) ++
    (.replicate 3 (.run 3) : List Event)

theorem socket_leaves_nothing_after_one_visit : ∃ m, initial.runs oneKey oneVisit = some m ∧
    (initial.steps oneKey oneVisit).filterMap (Step.arrived 0) = [.text "{}", .other, .close] ∧
    (initial.steps oneKey oneVisit).filterMap (Step.handed 1) = [("k", ⟨"{}"⟩)] ∧
    m.Left 0 ∧ m.map = [("k", 0)] ∧ (m.session 0).subscribers = [0] ∧
    ∀ later next, m.runs oneKey later = some next → (∀ event ∈ later, event.borrows 1 = false) →
      (∀ e ∈ next.map, 1 ∉ (next.session e.2).subscribers) ∧
      ∀ step ∈ m.steps oneKey later, ∀ s,
        1 ∈ (step.after.session s).subscribers → 1 ∈ (step.before.session s).subscribers := by
  obtain ⟨m, ran, facts⟩ := Option.map_eq_some_iff.1 (show (initial.runs oneKey oneVisit).map
    (fun m => (m.sockets.length, (m.socket 0).key, (m.socket 0).connection, m.frames (m.socket 0).reader,
      m.map, (m.session 0).subscribers)) =
      some (1, "k", 1, [.awaitFlush 0 1000], [("k", 0)], [0]) by rfl)
  simp only [Prod.mk.injEq] at facts
  obtain ⟨one, key, connection, stack, map, subscribers⟩ := facts
  have read : (initial.steps oneKey oneVisit).filterMap (Step.received 0) = [.text "{}", .other, .close] := by
    rfl
  have own : ∀ event ∈ oneVisit, event.borrows (m.socket 0).connection = false := by
    rw [connection]; decide
  have left : m.Left 0 := by
    intro f member
    rw [stack] at member
    exact .inr ⟨_, List.mem_singleton.1 member⟩
  obtain ⟨arrived, _, leaves, _⟩ := socket_leaves_nothing ran (one ▸ Nat.zero_lt_one) own
  obtain ⟨handed, never⟩ := leaves left
  rw [connection] at handed never
  rw [read, key] at handed
  refine ⟨m, ran, ?_, handed.symm, left, map, subscribers, never⟩
  rfl

-- The loop of a socket breaks down while it looks for the session, and the other side goes.
def brokenVisit : List Event :=
  ([.openSocket "k"] : List Event) ++ (.replicate 11 (.run 0) : List Event) ++
    ([.launch 0 none, .strayEnds 0, .hangUp 0] : List Event)

theorem connection_stays_after_breakdown : ∃ m, initial.runs tooLarge brokenVisit = some m ∧
    (m.task (m.socket 0).reader).isBroken ∧ (m.socket 0).connection = 0 ∧ m.map = [("k", 0)] ∧
    0 ∈ (m.session 0).subscribers := by
  obtain ⟨m, ran, facts⟩ := Option.map_eq_some_iff.1 (show (initial.runs tooLarge brokenVisit).map
    (fun m => ((m.task (m.socket 0).reader).isBroken, (m.socket 0).connection, m.map,
      (m.session 0).subscribers)) = some (true, 0, [("k", 0)], [0]) by rfl)
  simp only [Prod.mk.injEq] at facts
  obtain ⟨broken, connection, map, subscribers⟩ := facts
  exact ⟨m, ran, broken, connection, map, by rw [subscribers]; exact List.mem_singleton_self 0⟩

end Machine
end LanguageRelay
