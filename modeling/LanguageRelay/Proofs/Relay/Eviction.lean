import LanguageRelay.Proofs.Relay.Attachment
namespace LanguageRelay

namespace Activity

-- The frames of a task that goes on to put an event of the session into the queue of the connection.
def Heads (s : SessionId) (c : ConnectionId) : Activity → Prop
  | .deliver r pending _ _ => r = s ∧ c ∈ pending
  | .tellState r d | .newEpoch r d | .look r (.subscribed d) => r = s ∧ d = c
  | _ => False

theorem Heads.isEntry {s : SessionId} {c : ConnectionId} {f : Activity} (heads : f.Heads s c) :
    f.isEntry = false := by
  unfold Heads at heads
  split at heads
  all_goals first | rfl | cases heads

end Activity

namespace Machine
variable {m next : Machine} {setup : Setup} {event : Event} {events later : List Event}
  {t u : TaskId} {s : SessionId} {c : ConnectionId} {a f : Activity} {rest : List Activity}

def Heads (m : Machine) (u : TaskId) (s : SessionId) (c : ConnectionId) : Prop :=
  ∃ f ∈ m.frames u, f.Heads s c

-- The task `t` brings an event of the session to the queue of the connection, with that result.
def Step.Delivers (step : Step) (t : TaskId) (s : SessionId) (c : ConnectionId)
    (result : Delivery) : Prop :=
  ∃ pending gone e rest, step.event.task? = some t ∧
    step.before.frames t = .deliver s (c :: pending) gone e :: rest ∧
    ((step.before.connection c).deliver e).1 = result

-- The connection is marked, out of the subscribers, and not about to be inserted.
structure Gone (m : Machine) (s : SessionId) (c : ConnectionId) : Prop where
  marked : (m.connection c).evicted = true
  outside : c ∉ (m.session s).subscribers
  unexpected : ∀ u, .attach s c ∉ m.frames u

theorem Reaches.marked {connection : Connection} (reaches : Reaches m a c connection)
    (marked : (m.connection c).evicted = true) : connection.evicted = true := by
  cases reaches with
  | @queued _ _ _ _ e _ put =>
    have same := Connection.evicted_deliver (m.connection c) e
    rw [put] at same
    exact same.trans marked
  | evicted => rfl
  | refused => exact (Connection.evicted_deliver _ _).trans marked
  | drained _ same => exact same.trans marked

theorem Happens.evicted (happens : Happens setup m event next)
    (marked : (m.connection c).evicted = true) : (next.connection c).evicted = true := by
  cases happens with
  | turned _ _ _ leaves _ =>
    rcases leaves.foot.connections with same | ⟨d, connection, reaches, changed⟩
    · rw [connection, same]; exact marked
    · rw [connection_set changed]
      split
      · rename_i here
        obtain ⟨rfl, _⟩ := here
        exact reaches.marked marked
      · exact marked
  | started _ _ launches => rw [connection, launches.connections]; exact marked
  | ambient _ _ outside => rw [outside.evicted]; exact marked

theorem Sound.connections_le (sound : Sound m) (moved : m.advance setup event = some next) :
    m.connections.length ≤ next.connections.length := by
  cases sound.happens moved with
  | turned _ _ _ leaves _ =>
    rcases leaves.foot.connections with same | ⟨d, connection, _, changed⟩
    · exact Nat.le_of_eq (by rw [same])
    · exact Nat.le_of_eq (by rw [changed, List.length_set])
  | started _ _ launches => exact Nat.le_of_eq (by rw [launches.connections])
  | ambient outside => exact (World.of_advance outside moved).connections

-- The connection has its mark, or is about to get it.
def Falls (m : Machine) (c : ConnectionId) : Prop :=
  (m.connection c).evicted = true ∨ c < m.connections.length ∧ ∃ u, .evict c ∈ m.frames u

theorem lt_of_full {e : ClientEvent} (full : ((m.connection c).deliver e).1 = .full) :
    c < m.connections.length := by
  refine Nat.lt_of_not_le fun beyond => ?_
  have absent : m.connection c = default := by
    simp [connection, List.getD_eq_getElem?_getD, beyond]
  rw [absent] at full
  cases full

theorem Step.Delivers.falls (drops : Step.Delivers ⟨m, event, next⟩ t s c .full) (sound : Sound m)
    (moved : m.advance setup event = some next) : next.Falls c := by
  obtain ⟨pending, gone, e, rest, step, stack, full⟩ := drops
  obtain ⟨made, new, taken, replaced, _⟩ := sound.takes moved step stack nofun
  refine .inr ⟨Nat.lt_of_lt_of_le (lt_of_full full) (sound.connections_le moved), t, ?_⟩
  cases taken with
  | performs performed =>
    simp only [perform, Machine.deliver] at performed
    split at performed <;> rename_i put <;> rw [put] at full <;> cases full
    cases performed
    rw [replaced]; exact List.mem_cons_self

theorem Falls.advance (falls : m.Falls c) (sound : Sound m)
    (moved : m.advance setup event = some next) : next.Falls c := by
  rcases falls with marked | ⟨there, u, member⟩
  · exact .inl ((sound.happens moved).evicted marked)
  · rcases (advance_transition sound.present moved).1.kept member nofun with ⟨step, rest, stack⟩ | still
    · left
      obtain ⟨made, new, taken, _, _, shape⟩ := sound.takes moved step stack nofun
      cases taken with
      | performs performed =>
        cases performed
        have changed : next.connections = m.connections.set c (m.connection c).evict := by
          rw [shape]; rfl
        rw [connection_set changed, if_pos ⟨rfl, there⟩]
        rfl
    · exact .inr ⟨Nat.lt_of_lt_of_le there (sound.connections_le moved), u, still⟩

theorem evicted_of_dropped (ran : initial.runs setup events = some m) {drop : Step}
    (member : drop ∈ initial.steps setup events) (drops : drop.Delivers t s c .full)
    (settled : ∀ u, .evict c ∉ m.frames u) : (m.connection c).evicted = true := by
  have falls : m.Falls c := by
    refine sound_initial.induction (motive := fun taken now => drop ∈ taken → now.Falls c) ran nofun ?_
      member
    intro taken before event after sound moved ih member
    rcases List.mem_append.1 member with old | last
    · exact (ih old).advance sound moved
    · rw [List.mem_singleton.1 last] at drops
      exact drops.falls sound moved
  rcases falls with marked | ⟨_, u, pending⟩
  · exact marked
  · exact absurd pending (settled u)

-- A connection that has its mark is not inserted any more, unless this is under way.
theorem Arises.attach_old (arises : Arises setup m event u (.attach s c))
    (marked : (m.connection c).evicted = true) : .attach s c ∈ m.frames u := by
  rcases arises.inner rfl (by simp [startFrames]) with old | ⟨a, _, _, _, _, _, taken, added, stems⟩
  · exact old
  · cases (show a = .subscribe s c from stems)
    cases taken with
    | performs performed =>
      cases performed
      rw [if_pos marked] at added
      cases added

theorem Gone.advance (gone : m.Gone s c) (sound : Sound m)
    (moved : m.advance setup event = some next) : next.Gone s c := by
  refine ⟨(sound.happens moved).evicted gone.marked, fun joined => ?_, fun u member => ?_⟩
  · rcases (advance_transition sound.present moved).1.joins joined with old | ⟨t, rest, _, stack⟩
    · exact gone.outside old
    · exact gone.unexpected t (stack ▸ List.mem_cons_self)
  · exact gone.unexpected u ((sound.arises moved member).attach_old gone.marked)

theorem Gone.heads_of_stems {made : Machine} {new : List Activity} (gone : m.Gone s c)
    (stack : m.frames u = a :: rest) (taken : Takes setup m t a made new) (added : f ∈ new)
    (stems : Stems m a f) (heads : f.Heads s c) : a.Heads s c := by
  cases f with
  | deliver r pending left e =>
    obtain ⟨rfl, member⟩ := heads
    have stems : a = .broadcast r e ∨ (∃ d, a = .tellState r d) ∨ (∃ d text, a = .notify r d text) ∨
        ∃ pending left, a = .deliver r pending left e := by
      cases e with
      | message => exact stems.imp_right fun more => .inr (.inr more)
      | _ => exact stems
    rcases stems with rfl | ⟨d, rfl⟩ | ⟨d, text, rfl⟩ | ⟨before, gone, rfl⟩
    all_goals cases taken with | performs performed => _
    · cases performed
      cases List.mem_singleton.1 added
      exact absurd member gone.outside
    · cases performed
      cases List.mem_singleton.1 added
      exact ⟨rfl, (List.mem_singleton.1 member).symm⟩
    · cases performed
      split at added
      · rename_i inside
        cases List.mem_singleton.1 added
        exact absurd inside (List.mem_singleton.1 member ▸ gone.outside)
      · cases added
    · refine ⟨rfl, ?_⟩
      simp only [perform, Machine.deliver] at performed
      split at performed
      · cases performed
        split at added <;> simp at added
      · split at performed <;> cases performed <;> simp at added <;> obtain ⟨rfl, _⟩ := added <;>
          exact List.mem_cons_of_mem _ member
  | tellState r d =>
    obtain ⟨rfl, rfl⟩ := heads
    rw [show a = .look r (.subscribed d) from stems]
    exact ⟨rfl, rfl⟩
  | newEpoch r d =>
    obtain ⟨rfl, rfl⟩ := heads
    rw [show a = .attach r d from stems] at stack
    exact absurd (stack ▸ List.mem_cons_self) (gone.unexpected u)
  | look r after =>
    cases after with
    | subscribed d =>
      obtain ⟨rfl, rfl⟩ := heads
      rw [show a = .newEpoch r d from stems]
      exact ⟨rfl, rfl⟩
    | _ => cases heads
  | _ => cases heads

theorem Gone.heads (gone : m.Gone s c) (sound : Sound m) (moved : m.advance setup event = some next)
    (heads : next.Heads u s c) : m.Heads u s c := by
  obtain ⟨f, member, heads⟩ := heads
  have unstarted (r : SessionId) (after : AfterStart) : f ∉ m.startFrames r after := by
    intro started
    simp only [startFrames, List.mem_cons, List.not_mem_nil, or_false] at started
    rcases started with rfl | rfl | rfl | rfl | rfl <;> cases heads
  rcases (sound.arises moved member).inner heads.isEntry unstarted with old |
    ⟨_, _, _, _, _, stack, taken, added, stems⟩
  · exact ⟨f, old, heads⟩
  · exact ⟨_, stack ▸ List.mem_cons_self, gone.heads_of_stems stack taken added stems heads⟩

theorem Gone.runs (gone : m.Gone s c) (sound : Sound m) (ran : m.runs setup later = some next) :
    next.Gone s c ∧ ∀ step ∈ m.steps setup later, ∀ u, step.Delivers u s c .queued → m.Heads u s c := by
  suffices now : next.Gone s c ∧ (∀ u, next.Heads u s c → m.Heads u s c) ∧
      ∀ step ∈ m.steps setup later, ∀ u, step.Delivers u s c .queued → m.Heads u s c from
    ⟨now.1, now.2.2⟩
  refine sound.induction (motive := fun taken now => now.Gone s c ∧
      (∀ u, now.Heads u s c → m.Heads u s c) ∧
      ∀ step ∈ taken, ∀ u, step.Delivers u s c .queued → m.Heads u s c) ran
    ⟨gone, fun _ heads => heads, by simp⟩ ?_
  intro taken before event after sound moved ⟨gone, headed, queued⟩
  refine ⟨gone.advance sound moved, fun u heads => headed u (gone.heads sound moved heads), ?_⟩
  intro step member u delivers
  rcases List.mem_append.1 member with old | last
  · exact queued step old u delivers
  · cases List.mem_singleton.1 last
    obtain ⟨pending, left, e, rest, _, stack, _⟩ := delivers
    have top : .deliver s (c :: pending) left e ∈ before.frames u := stack ▸ List.mem_cons_self
    exact headed u ⟨_, top, rfl, List.mem_cons_self⟩

-- A task that is to insert a connection does so in its next step.
def Poised (m : Machine) : Prop := ∀ u a rest, m.frames u = a :: rest → ∀ s c, .attach s c ∉ rest

theorem Poised.turned {made : Machine} {new : List Activity} (poised : Poised m)
    (turned : Turned m t a rest new next) (taken : Takes setup m t a made new)
    (leaves : Leaves m a next new) : Poised next := by
  intro u b below stack s c member
  by_cases here : u = t
  · subst u
    have under := poised t a rest turned.stack s c
    rw [turned.replaced] at stack
    cases new with
    | nil =>
      rw [List.nil_append] at stack
      exact under (stack ▸ List.mem_cons_of_mem _ member)
    | cons f others =>
      cases stack
      rcases List.mem_append.1 member with added | old
      · cases (show a = .subscribe s c from leaves.stems _ (List.mem_cons_of_mem _ added))
        cases taken with
        | performs performed =>
          simp only [perform, Machine.subscribe, Option.some.injEq, Prod.mk.injEq] at performed
          obtain ⟨_, same⟩ := performed
          split at same <;> cases same
          cases added
      · exact under old
  · rcases turned.elsewhere u here with kept | ⟨beyond, _⟩ | ⟨_, broken⟩
    · exact poised u b below (kept ▸ stack) s c member
    · have entry := leaves.foot.begun u beyond (.attach s c) (stack ▸ List.mem_cons_of_mem _ member)
      cases entry
    · rw [broken] at stack; cases stack

theorem Poised.advance (poised : Poised m) (sound : Sound m)
    (moved : m.advance setup event = some next) : Poised next := by
  cases sound.happens moved with
  | turned _ turned taken leaves _ => exact poised.turned turned taken leaves
  | @started t r after below launch started launches =>
    intro u b rest stack s c member
    have under := poised t _ below started.stack s c
    by_cases here : u = t
    · subst u
      rw [launches.replaced] at stack
      cases stack
      simp only [List.mem_cons] at member
      rcases member with same | same | old
      · cases same
      · cases same
      · exact under old
    · by_cases pump : u = m.tasks.length
      · rw [pump, started.pump] at stack
        cases stack; cases member
      · by_cases awaits : u = m.tasks.length + 1
        · rw [awaits, started.awaitExit] at stack
          cases stack; cases member
        · rw [started.elsewhere u here pump awaits] at stack
          exact poised u b rest stack s c member
  | ambient _ ambient outside =>
    intro u b rest stack s c member
    rcases ambient.elsewhere u with kept | ⟨beyond, _⟩ | ⟨_, broken⟩
    · exact poised u b rest (kept ▸ stack) s c member
    · cases outside.begun u beyond (.attach s c) (stack ▸ List.mem_cons_of_mem _ member)
    · rw [broken] at stack; cases stack

theorem Poised.runs (ran : initial.runs setup events = some m) : Poised m :=
  sound_initial.induction (motive := fun _ now => Poised now) ran
    (fun u _ _ stack => by rw [frames_initial] at stack; cases stack)
    fun _ _ _ _ sound moved poised => poised.advance sound moved

-- What is about to be inserted can be.
theorem Poised.inserts (setup : Setup) (poised : Poised m) (sound : Sound m)
    (fresh : c ∉ (m.session s).subscribers) (member : .attach s c ∈ m.frames u) :
    ∃ next, m.advance setup (.run u) = some next ∧ c ∈ (next.session s).subscribers := by
  obtain ⟨rest, stack⟩ : ∃ rest, m.frames u = .attach s c :: rest := by
    cases stack : m.frames u with
    | nil => rw [stack] at member; cases member
    | cons a rest =>
      rw [stack] at member
      rcases List.mem_cons.1 member with rfl | under
      · exact ⟨rest, rfl⟩
      · exact absurd under (poised u a rest stack s c)
  have moved : ∃ next, m.advance setup (.run u) = some next := by
    have stack : (m.task u).frames = .attach s c :: rest := stack
    simp [Machine.advance, turn, stack, perform, Machine.attach, fresh]
  obtain ⟨next, moved⟩ := moved
  have inserts : Step.Inserts ⟨m, .run u, next⟩ s u c := ⟨rfl, ⟨rest, stack⟩, fresh⟩
  exact ⟨next, moved, (inserts.after sound moved).1⟩

-- An event has been dropped and the mark is set. The connection stays out of the subscribers for good
-- exactly when it is out of the set and no task is about to insert it. From then on the session's events
-- come to its queue only through tasks that head for it already, so when there is none it gets no more.
theorem dropped_for_good {drop : Step} (ran : initial.runs setup events = some m)
    (member : drop ∈ initial.steps setup events) (drops : drop.Delivers t s c .full)
    (settled : ∀ u, .evict c ∉ m.frames u) :
    ((∀ later next, m.runs setup later = some next → c ∉ (next.session s).subscribers) ↔
      c ∉ (m.session s).subscribers ∧ ∀ u, .attach s c ∉ m.frames u) ∧
    (c ∉ (m.session s).subscribers → (∀ u, .attach s c ∉ m.frames u) →
      ∀ later next, m.runs setup later = some next →
        ∀ step ∈ m.steps setup later, ∀ u, step.Delivers u s c .queued → m.Heads u s c) := by
  have sound := sound_initial.runs ran
  have marked := evicted_of_dropped ran member drops settled
  have gone (outside : c ∉ (m.session s).subscribers) (unexpected : ∀ u, .attach s c ∉ m.frames u) :
      m.Gone s c := ⟨marked, outside, unexpected⟩
  refine ⟨⟨fun never => ?_, fun ⟨outside, unexpected⟩ later next ran => ?_⟩, ?_⟩
  · have outside := never [] m rfl
    refine ⟨outside, fun u pending => ?_⟩
    obtain ⟨next, moved, joined⟩ := (Poised.runs ran).inserts setup sound outside pending
    exact never [.run u] next (by rw [runs, moved]; rfl) joined
  · exact ((gone outside unexpected).runs sound ran).1.outside
  · intro outside unexpected later next ran
    exact ((gone outside unexpected).runs sound ran).2

-- A second connection, with room for one event only, is about to look for the server. It has got one
-- frame of the server, and the task that reads the output comes to it with the next one.
def lagging : List Event :=
  ([.connect 8, .call (.subscribe "k" 0)] : List Event) ++ (.replicate 11 (.run 0) : List Event) ++
    ([.launch 0 none] : List Event) ++ (.replicate 5 (.run 0) : List Event) ++
    ([.connect 1, .call (.subscribe "k" 1)] : List Event) ++ (.replicate 5 (.run 3) : List Event) ++
    (.childWrites 0 (Frame.encode "{}") :: .replicate 7 (.run 1) : List Event) ++
    (.childWrites 0 (Frame.encode "{}") :: .replicate 4 (.run 1) : List Event)

-- The queue is emptied, and the connection finds the server running.
def recovery : List Event := [.receive 1, .run 3, .run 3]

theorem runs_lagging : ∃ drop queued m next,
    drop ∈ initial.steps oneKey (lagging ++ Event.run 1 :: .replicate 3 (.run 1)) ∧
    drop.Delivers 1 0 1 .full ∧
    initial.runs oneKey (lagging ++ Event.run 1 :: .replicate 3 (.run 1)) = some m ∧
    (m.connection 1).evicted = true ∧ (m.session 0).subscribers = [0] ∧
    m.tasks.flatMap Task.frames =
      [.checkUsed 0, .pump 0 0, .awaitExit 0 1 0, .look 0 (.subscribed 1)] ∧
    m.runs oneKey (recovery ++ [Event.run 3]) = some next ∧
    queued ∈ m.steps oneKey (recovery ++ [Event.run 3]) ∧ queued.Delivers 3 0 1 .queued := by
  obtain ⟨before, lags, full⟩ := Option.map_eq_some_iff.1 (show (initial.runs oneKey lagging).map
    (fun m => (m.frames 1, m.connection 1)) =
      some ([.deliver 0 [1] [] (.message ⟨"{}"⟩), .checkUsed 0, .pump 0 0],
        ⟨1, [.message ⟨"{}"⟩], true, false⟩) by rfl)
  obtain ⟨m, ran, facts⟩ := Option.map_eq_some_iff.1 (show
    (initial.runs oneKey (lagging ++ Event.run 1 :: .replicate 3 (.run 1))).map (fun m =>
      ((m.connection 1).evicted, (m.session 0).subscribers, m.tasks.flatMap Task.frames)) =
      some (true, [0], [.checkUsed 0, .pump 0 0, .awaitExit 0 1 0, .look 0 (.subscribed 1)]) by rfl)
  obtain ⟨made, recovers, room⟩ := Option.map_eq_some_iff.1 (show
    ((initial.runs oneKey (lagging ++ Event.run 1 :: .replicate 3 (.run 1))).bind fun m =>
      m.runs oneKey recovery).map (fun m => (m.frames 3, m.connection 1)) =
      some ([.deliver 0 [1] [] (.status ⟨"k", .running, none, none⟩)], ⟨1, [], true, true⟩) by rfl)
  obtain ⟨next, goes, _⟩ := Option.map_eq_some_iff.1 (show
    ((initial.runs oneKey (lagging ++ Event.run 1 :: .replicate 3 (.run 1))).bind fun m =>
      m.runs oneKey (recovery ++ [Event.run 3])).map (fun _ => ()) = some () by rfl)
  rw [ran, Option.bind_some] at recovers goes
  have later := ran
  rw [runs_append, lags, Option.bind_some] at later
  obtain ⟨after, drops, _⟩ := Option.bind_eq_some_iff.1 later
  obtain ⟨middle, again, puts⟩ := runs_concat goes
  cases recovers.symm.trans again
  simp only [Prod.mk.injEq] at full facts room
  refine ⟨_, _, m, next, mem_steps lags drops _, ⟨[], [], _, _, rfl, full.1, ?_⟩, ran, facts.1,
    facts.2.1, facts.2.2, goes, mem_steps recovers puts [], ⟨[], [], _, _, rfl, room.1, ?_⟩⟩
  · rw [full.2]; rfl
  · rw [room.2]; rfl

-- A connection is out of the subscribers because an event was dropped, and yet it is put another one
-- into its queue.
theorem gap_after_recovery : ∃ drop queued m,
    drop ∈ initial.steps oneKey (lagging ++ Event.run 1 :: .replicate 3 (.run 1)) ∧
    drop.Delivers 1 0 1 .full ∧
    initial.runs oneKey (lagging ++ Event.run 1 :: .replicate 3 (.run 1)) = some m ∧
    (m.connection 1).evicted = true ∧ 1 ∉ (m.session 0).subscribers ∧
    queued ∈ m.steps oneKey (recovery ++ [Event.run 3]) ∧ queued.Delivers 3 0 1 .queued := by
  obtain ⟨drop, queued, m, next, dropped, drops, ran, marked, left, _, _, member, puts⟩ := runs_lagging
  exact ⟨drop, queued, m, dropped, drops, ran, marked, by rw [left]; decide, member, puts⟩

theorem mem_tasks_of_mem_frames (member : f ∈ m.frames u) : f ∈ m.tasks.flatMap Task.frames := by
  have there := lt_of_mem_frames member
  simp only [frames, task, List.getD_eq_getElem?_getD, List.getElem?_eq_getElem there,
    Option.getD_some] at member
  exact List.mem_flatMap.2 ⟨_, List.getElem_mem there, member⟩

theorem dropped_for_good_before_recovery : ∃ drop queued m next,
    drop ∈ initial.steps oneKey (lagging ++ Event.run 1 :: .replicate 3 (.run 1)) ∧
    drop.Delivers 1 0 1 .full ∧
    initial.runs oneKey (lagging ++ Event.run 1 :: .replicate 3 (.run 1)) = some m ∧
    (∀ u, .evict 1 ∉ m.frames u) ∧ m.runs oneKey (recovery ++ [Event.run 3]) = some next ∧
    1 ∉ (next.session 0).subscribers ∧ queued ∈ m.steps oneKey (recovery ++ [Event.run 3]) ∧
    queued.Delivers 3 0 1 .queued ∧ m.Heads 3 0 1 := by
  obtain ⟨drop, queued, m, next, dropped, drops, ran, _, left, frames, goes, member, puts⟩ :=
    runs_lagging
  have absent {f : Activity} (u : TaskId)
      (other : f ∉ [.checkUsed 0, .pump 0 0, .awaitExit 0 1 0, .look 0 (.subscribed 1)]) :
      f ∉ m.frames u := fun inside => other (frames ▸ mem_tasks_of_mem_frames inside)
  have settled : ∀ u, .evict 1 ∉ m.frames u := fun u => absent u (by simp)
  have outside : 1 ∉ (m.session 0).subscribers := by rw [left]; decide
  have unexpected : ∀ u, .attach 0 1 ∉ m.frames u := fun u => absent u (by simp)
  have law := dropped_for_good ran dropped drops settled
  exact ⟨drop, queued, m, next, dropped, drops, ran, settled, goes,
    law.1.2 ⟨outside, unexpected⟩ _ next goes, member, puts,
    law.2 outside unexpected _ next goes queued member 3 puts⟩

end Machine
end LanguageRelay
