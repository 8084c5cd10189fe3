import LanguageRelay.Proofs.Relay.Courier
namespace LanguageRelay

def Activity.heading? (s : SessionId) (c : ConnectionId) : Activity → Option ServerId
  | .started r (.routing d _) p | .offer (.client r d) p _ | .enqueue (.client r d) p _ =>
    if r = s ∧ d = c then some p else none
  | _ => none

namespace Machine

variable {m next : Machine} {setup : Setup} {event : Event} {events : List Event} {t u : TaskId}
  {s r : SessionId} {c : ConnectionId} {p q : ServerId} {a f : Activity} {rest new : List Activity}
  {deeds : List Deed} {message : Message}

-- A server that is there, and no newer than the one in the slot.
structure Past (m : Machine) (s : SessionId) (p : ServerId) : Prop where
  known : p < m.servers.length
  slot : ∀ slot, (m.custody s).slot = some slot → p ≤ slot.server

-- The servers that have accepted messages of the client, in the order of these. None is newer than the
-- one that a message on its way heads for.
structure Ascending (m : Machine) (s : SessionId) (c : ConnectionId) (taken : List ServerId) :
    Prop where
  sorted : taken.Pairwise (· ≤ ·)
  past : ∀ q ∈ taken, m.Past s q
  heading : ∀ u, ∀ f ∈ m.frames u, ∀ p, f.heading? s c = some p → m.Past s p ∧ ∀ q ∈ taken, q ≤ p

theorem load_of_heading (heading : f.heading? s c = some p) : ∃ message, f.load? s c = some message := by
  cases f with
  | started r after q =>
    cases after with
    | routing d x =>
      have here : r = s ∧ d = c := by
        apply Classical.byContradiction
        intro other
        simp [Activity.heading?, other] at heading
      exact ⟨x, if_pos here⟩
    | _ => cases heading
  | offer sender q x | enqueue sender q x =>
    cases sender with
    | client r d =>
      have here : r = s ∧ d = c := by
        apply Classical.byContradiction
        intro other
        simp [Activity.heading?, other] at heading
      exact ⟨x, if_pos here⟩
    | outside => cases heading
  | _ => cases heading

theorem nothing_heads (none : m.loads s c u = []) (member : f ∈ m.frames u) :
    f.heading? s c ≠ some p := by
  intro heading
  obtain ⟨message, load⟩ := load_of_heading heading
  rw [List.filterMap_eq_nil_iff.1 none f member] at load
  cases load

theorem heading_of_stems (stems : Stems m a f) (heading : f.heading? s c = some p) :
    (∃ slot, (m.custody s).slot = some slot ∧ slot.server = p) ∨ a.heading? s c = some p := by
  cases f with
  | started r after q => exact stems.elim
  | offer sender q x =>
    cases sender with
    | client r d =>
      rcases stems with ⟨slot, occupied, rfl, rfl⟩ | rfl
      · left
        obtain ⟨⟨rfl, rfl⟩, rfl⟩ : (r = s ∧ d = c) ∧ slot.server = p := by
          simpa [Activity.heading?] using heading
        exact ⟨slot, occupied, rfl⟩
      · exact .inr heading
    | outside => exact stems.elim
  | enqueue sender q x =>
    right
    rw [stems]
    cases sender with
    | client r d => exact heading
    | outside => cases heading
  | _ => cases heading

theorem Elsewhere.mem_or_entry (elsewhere : Elsewhere m next u)
    (begun : ∀ u, m.tasks.length ≤ u → ∀ f ∈ next.frames u, f.isEntry) (member : f ∈ next.frames u) :
    f ∈ m.frames u ∨ f.isEntry := by
  rcases elsewhere with kept | ⟨beyond, _⟩ | ⟨_, broken⟩
  · exact .inl (kept ▸ member)
  · exact .inr (begun u beyond f member)
  · rw [broken] at member; cases member

theorem heading_of_isEntry (entry : f.isEntry) : f.heading? s c ≠ some p := by
  intro heading
  obtain ⟨message, load⟩ := load_of_heading heading
  rw [load_of_isEntry entry] at load
  cases load

theorem Past.of_slot {slot : Slot} (sound : Sound m) (occupied : (m.custody s).slot = some slot) :
    m.Past s slot.server := by
  refine ⟨Nat.lt_of_not_le fun beyond => ?_, fun other found => ?_⟩
  · have owned := sound.accounted.owned s slot occupied
    rw [fate_of_length_le beyond] at owned
    cases owned
  · rw [occupied] at found
    cases found
    exact Nat.le_refl _

theorem Past.happens (past : m.Past s p) (happens : Happens setup m event next) : next.Past s p := by
  refine ⟨Nat.lt_of_lt_of_le past.known happens.length_servers, fun slot found => ?_⟩
  cases happens with
  | turned step turned taken leaves shape =>
    rcases turned.move.slot s with same | ⟨empty, _⟩
    · exact past.slot slot (same ▸ found)
    · rw [empty] at found; cases found
  | started launch started launches =>
    rcases started.slot found with ⟨_, rfl⟩ | ⟨_, before⟩
    · exact Nat.le_of_lt past.known
    · exact past.slot slot before
  | ambient world ambient outside =>
    rw [ambient.custody] at found
    exact past.slot slot found

theorem accepted_of_heading (setup : Setup) (next : Machine) (step : event.task? = some t)
    (stack : m.frames t = a :: rest) :
    (Step.deed? setup ⟨m, event, next⟩).toList.filterMap (Deed.acceptedOf? s c) = [] ∨
    ∃ p message, Step.deed? setup ⟨m, event, next⟩ = some (.accepted p (.client s c) message) ∧
      a.heading? s c = some p := by
  rcases deed_cases setup next step stack with none | ⟨r, d, _, x, _, routed⟩ |
    ⟨sender, p, x, rfl, accepted⟩
  · left; rw [none]; rfl
  · left; rw [routed]; rfl
  · by_cases mine : sender = .client s c
    · subst sender
      exact .inr ⟨p, x, accepted, by simp [Activity.heading?]⟩
    · left
      rw [accepted]
      simp [Deed.acceptedOf?, mine]

theorem Courier.delivered (courier : Courier m s c (deeds ++ [Deed.accepted p (.client s c) message]))
    (u : TaskId) : m.loads s c u = [] := by
  rcases courier.load with none | ⟨_, _, before, last, _⟩
  · exact none u
  · have same := (List.append_inj_right' last rfl)
    cases same

theorem Ascending.turned {taken : List ServerId} (ascending : Ascending m s c taken) (sound : Sound m)
    (happens : Happens setup m event next) (turned : Turned m t a rest new next)
    (leaves : Leaves m a next new) : Ascending next s c taken := by
  refine ⟨ascending.sorted, fun q member => (ascending.past q member).happens happens,
    fun u f member p heading => ?_⟩
  have onward : f ∈ m.frames u → next.Past s p ∧ ∀ q ∈ taken, q ≤ p := fun old =>
    (ascending.heading u f old p heading).imp_left fun past => past.happens happens
  by_cases here : u = t
  · subst u
    rw [turned.replaced] at member
    rcases List.mem_append.1 member with added | old
    · rcases heading_of_stems (leaves.stems f added) heading with ⟨slot, occupied, rfl⟩ | top
      · exact ⟨(Past.of_slot sound occupied).happens happens,
          fun q member => (ascending.past q member).slot slot occupied⟩
      · exact (ascending.heading t a (turned.stack ▸ List.mem_cons_self) p top).imp_left
          fun past => past.happens happens
    · exact onward (turned.stack ▸ List.mem_cons_of_mem _ old)
  · rcases (turned.elsewhere u here).mem_or_entry leaves.foot.begun member with old | entry
    · exact onward old
    · exact absurd heading (heading_of_isEntry entry)

theorem Ascending.accept {taken : List ServerId} (ascending : Ascending m s c taken)
    (past : m.Past s p) (newest : ∀ q ∈ taken, q ≤ p) (none : ∀ u, m.loads s c u = []) :
    Ascending m s c (taken ++ [p]) := by
  refine ⟨?_, fun q member => ?_, fun u f member p heading => ?_⟩
  · refine List.pairwise_append.2 ⟨ascending.sorted, List.pairwise_singleton .., ?_⟩
    intro q member r last
    rw [List.mem_singleton.1 last]
    exact newest q member
  · rcases List.mem_append.1 member with old | last
    · exact ascending.past q old
    · rw [List.mem_singleton.1 last]; exact past
  · exact absurd heading (nothing_heads (none u) member)

theorem Ascending.started {taken : List ServerId} {after : AfterStart}
    (ascending : Ascending m s c taken) (happens : Happens setup m event next)
    (started : Started m t r after rest next) (launches : Launches setup m t r after rest next) :
    Ascending next s c taken := by
  refine ⟨ascending.sorted, fun q member => (ascending.past q member).happens happens,
    fun u f member p heading => ?_⟩
  have onward : f ∈ m.frames u → next.Past s p ∧ ∀ q ∈ taken, q ≤ p := fun old =>
    (ascending.heading u f old p heading).imp_left fun past => past.happens happens
  by_cases here : u = t
  · subst u
    rw [launches.replaced] at member
    simp only [List.mem_cons] at member
    rcases member with rfl | rfl | rfl | old
    · cases heading
    · cases heading
    · cases after with
      | routing d x =>
        obtain ⟨⟨rfl, rfl⟩, rfl⟩ : (r = s ∧ d = c) ∧ m.servers.length = p := by
          simpa [Activity.heading?] using heading
        refine ⟨⟨?_, fun slot found => ?_⟩, fun q member => Nat.le_of_lt (ascending.past q member).known⟩
        · rw [launches.length_servers]; exact Nat.lt_succ_self _
        · rcases started.slot found with ⟨_, rfl⟩ | ⟨other, _⟩
          · exact Nat.le_refl _
          · exact absurd rfl other
      | _ => cases heading
    · exact onward (started.stack ▸ List.mem_cons_of_mem _ old)
  · by_cases pump : u = m.tasks.length
    · subst u
      rw [started.pump, List.mem_singleton] at member
      subst f; cases heading
    · by_cases awaits : u = m.tasks.length + 1
      · subst u
        rw [started.awaitExit, List.mem_singleton] at member
        subst f; cases heading
      · rw [started.elsewhere u here pump awaits] at member
        exact onward member

theorem Ascending.ambient {taken : List ServerId} (ascending : Ascending m s c taken)
    (happens : Happens setup m event next) (ambient : Ambient m next) (outside : Outside m event next) :
    Ascending next s c taken := by
  refine ⟨ascending.sorted, fun q member => (ascending.past q member).happens happens,
    fun u f member p heading => ?_⟩
  rcases (ambient.elsewhere u).mem_or_entry outside.begun member with old | entry
  · exact (ascending.heading u f old p heading).imp_left fun past => past.happens happens
  · exact absurd heading (heading_of_isEntry entry)

theorem Ascending.advance {taken : List ServerId} (ascending : Ascending m s c taken) (sound : Sound m)
    (happens : Happens setup m event next)
    (courier : Courier next s c
      (deeds ++ (Step.deed? setup ⟨m, event, next⟩).toList.filter (Deed.isOf s c))) :
    Ascending next s c (taken ++
      ((Step.deed? setup ⟨m, event, next⟩).toList.filterMap (Deed.acceptedOf? s c)).map Prod.fst) := by
  cases happens with
  | @turned t a _ _ _ step turned taken leaves shape =>
    have happens : Happens setup m event next := .turned step turned taken leaves shape
    have onward := ascending.turned sound happens turned leaves
    rcases accepted_of_heading (s := s) (c := c) setup next step turned.stack with none |
      ⟨p, message, deed, heading⟩
    · rw [none, List.map_nil, List.append_nil]
      exact onward
    · have mine : (some (Deed.accepted p (.client s c) message)).toList.filter (Deed.isOf s c) =
          [.accepted p (.client s c) message] := by simp [Deed.isOf]
      rw [deed, mine] at courier
      obtain ⟨past, newest⟩ :=
        ascending.heading t a (turned.stack ▸ List.mem_cons_self) p heading
      simpa [deed, Deed.acceptedOf?] using
        onward.accept (past.happens happens) newest courier.delivered
  | started launch started launches =>
    have happens : Happens setup m event next := .started launch started launches
    subst launch
    rw [deed_of_other rfl started.stack (by simp) (by simp)]
    simpa using ascending.started happens started launches
  | ambient world ambient outside =>
    have happens : Happens setup m event next := .ambient world ambient outside
    rw [deed_of_world world]
    simpa using ascending.ambient happens ambient outside

theorem filterMap_acceptedOf (deeds : List Deed) :
    (deeds.filter (Deed.isOf s c)).filterMap (Deed.acceptedOf? s c) =
      deeds.filterMap (Deed.acceptedOf? s c) := by
  rw [List.filterMap_filter]
  congr 1
  funext deed
  cases deed <;> simp [Deed.isOf, Deed.acceptedOf?]

theorem filterMap_routedBy (deeds : List Deed) :
    (deeds.filter (Deed.isOf s c)).filterMap (Deed.routedBy? s c) =
      deeds.filterMap (Deed.routedBy? s c) := by
  rw [List.filterMap_filter]
  congr 1
  funext deed
  cases deed <;> simp [Deed.isOf, Deed.routedBy?]

-- At some moment of the run the one server is there and the other is not.
def SpawnedBefore (setup : Setup) (events : List Event) (p q : ServerId) : Prop :=
  ∃ front made, front <+: events ∧ initial.runs setup front = some made ∧
    p < made.servers.length ∧ made.servers.length ≤ q

theorem Happens.length_servers_le (happens : Happens setup m event next) :
    next.servers.length ≤ m.servers.length + 1 := by
  cases happens with
  | turned _ _ _ leaves _ => rw [leaves.foot.length_servers]; exact Nat.le_succ _
  | started _ _ launches => exact Nat.le_of_eq launches.length_servers
  | ambient _ _ outside =>
    rcases outside.servers with ⟨_, same⟩ | ⟨p, server, _, _, same⟩ | ⟨limit, _, same⟩
    · rw [same]; exact Nat.le_succ _
    · rw [same, List.length_set]; exact Nat.le_succ _
    · rw [same, List.length_append]; exact Nat.le_refl _

-- Servers are numbered as they are started.
theorem spawnedBefore_of_lt (ran : initial.runs setup events = some m) (less : p < q)
    (there : q < m.servers.length) : SpawnedBefore setup events p q := by
  induction events using List.reverseRecOn generalizing m with
  | nil => cases ran; cases there
  | append_singleton events event ih =>
    obtain ⟨made, first, moved⟩ := runs_concat ran
    by_cases before : q < made.servers.length
    · obtain ⟨front, then_, within, rest⟩ := ih first before
      exact ⟨front, then_, within.trans (List.prefix_append ..), rest⟩
    · have most := ((sound_initial.runs first).happens moved).length_servers_le
      refine ⟨events, made, List.prefix_append .., first, ?_, Nat.le_of_not_lt before⟩
      exact Nat.lt_of_lt_of_le less (Nat.le_of_lt_succ (Nat.lt_of_lt_of_le there most))

-- What is written to a server's input are frames of messages that it has accepted, in order, up to
-- some byte. Of a client that routes one message after another, servers accept each message at most
-- once, right after it was routed: what they accept is what the client routed, in its order, less what
-- was dropped. A later message goes to the same server or to one that was spawned later.
theorem client_order (ran : initial.runs setup events = some m) :
    (∀ p, (initial.steps setup events).flatMap (·.written p) <+:
      framesOf ((initial.deeds setup events).filterMap (Deed.acceptedFor? p))) ∧
    ∀ s c, (∀ step ∈ initial.steps setup events, step.inOrder s c = true) →
      InTurn s c ((initial.deeds setup events).filter (Deed.isOf s c)) ∧
      (((initial.deeds setup events).filterMap (Deed.acceptedOf? s c)).map Prod.snd).Sublist
        ((initial.deeds setup events).filterMap (Deed.routedBy? s c)) ∧
      (((initial.deeds setup events).filterMap (Deed.acceptedOf? s c)).map Prod.fst).Pairwise
        fun p q => p = q ∨ SpawnedBefore setup events p q := by
  refine ⟨written_isPrefix ran, fun s c orderly => ?_⟩
  have carried := sound_initial.induction (motive := fun taken now =>
      (∀ step ∈ taken, step.inOrder s c = true) →
        Courier now s c ((taken.filterMap (Step.deed? setup)).filter (Deed.isOf s c)) ∧
        Ascending now s c
          (((taken.filterMap (Step.deed? setup)).filterMap (Deed.acceptedOf? s c)).map Prod.fst))
    ran ?_ ?_
  · obtain ⟨courier, ascending⟩ := carried orderly
    have sublist := courier.inTurn.sublist
    rw [filterMap_acceptedOf, filterMap_routedBy] at sublist
    refine ⟨courier.inTurn, sublist, ascending.sorted.imp_of_mem fun first second most => ?_⟩
    rcases Nat.lt_or_eq_of_le most with less | same
    · exact .inr (spawnedBefore_of_lt ran less (ascending.past _ second).known)
    · exact .inl same
  · intro _
    have none : ∀ u, initial.frames u = [] := frames_initial
    refine ⟨⟨.nothing, .inl fun u => ?_⟩, .nil, by simp, fun u f member => ?_⟩
    · rw [loads, none]; rfl
    · rw [none] at member; cases member
  · intro taken before event after sound moved carried inOrder
    obtain ⟨courier, ascending⟩ := carried fun step member =>
      inOrder step (List.mem_append_left _ member)
    have happens := sound.happens moved
    have here := inOrder _ (List.mem_append_right taken (List.mem_singleton.2 rfl))
    have onward := courier.advance here happens
    rw [deeds_concat, List.filter_append, List.filterMap_append, List.map_append]
    exact ⟨onward, ascending.advance sound happens onward⟩

-- A client routes two messages, and between them the server ends in the middle of a frame.
def brokenFrame : List Event :=
  ([.connect 8, .call (.subscribe "k" 0)] : List Event) ++ (.replicate 11 (.run 0) : List Event) ++
    ([.launch 0 none] : List Event) ++ (.replicate 5 (.run 0) : List Event) ++
    ([.call (.route "k" 0 ⟨"{}"⟩)] : List Event) ++ (.replicate 8 (.run 3) : List Event) ++
    ([.write 0 1, .write 0 9, .childEnds 0 (some 1), .watch 0 .childEnded,
      .call (.route "k" 0 ⟨"[]"⟩)] : List Event) ++
    (.replicate 15 (.run 4) : List Event) ++ ([.launch 4 none] : List Event) ++
    (.replicate 7 (.run 4) : List Event) ++ ([.write 1 1, .write 1 23] : List Event)

theorem client_order_past_restart : ∃ m, initial.runs oneKey brokenFrame = some m ∧
    (∀ step ∈ initial.steps oneKey brokenFrame, step.inOrder 0 0 = true) ∧
    (initial.deeds oneKey brokenFrame).filterMap (Deed.acceptedOf? 0 0) =
      [(0, ⟨"{}"⟩), (1, ⟨"[]"⟩)] ∧
    ((initial.steps oneKey brokenFrame).flatMap (·.written 0)).length = 9 ∧
    (initial.steps oneKey brokenFrame).flatMap (·.written 1) = Frame.encode "[]" ∧
    InTurn 0 0 ((initial.deeds oneKey brokenFrame).filter (Deed.isOf 0 0)) ∧
    SpawnedBefore oneKey brokenFrame 0 1 := by
  have ends : (initial.runs oneKey brokenFrame).isSome := by decide
  have orderly : (initial.steps oneKey brokenFrame).all (·.inOrder 0 0) = true := by decide
  have accepted : (initial.deeds oneKey brokenFrame).filterMap (Deed.acceptedOf? 0 0) =
      [(0, ⟨"{}"⟩), (1, ⟨"[]"⟩)] := by decide
  have broken : ((initial.steps oneKey brokenFrame).flatMap (·.written 0)).length = 9 := by decide
  have whole : (initial.steps oneKey brokenFrame).flatMap (·.written 1) = Frame.encode "[]" := by decide
  obtain ⟨m, ran⟩ := Option.isSome_iff_exists.1 ends
  have every := List.all_eq_true.1 orderly
  obtain ⟨inTurn, _, later⟩ := (client_order ran).2 0 0 every
  have spawned : (0 : ServerId) = 1 ∨ SpawnedBefore oneKey brokenFrame 0 1 := by
    rw [accepted] at later
    exact List.rel_of_pairwise_cons later (by simp)
  exact ⟨m, ran, every, accepted, broken, whole, inTurn, spawned.resolve_left (by decide)⟩

end Machine
end LanguageRelay
