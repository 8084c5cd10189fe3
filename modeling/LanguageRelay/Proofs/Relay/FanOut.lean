import LanguageRelay.Proofs.Relay.Output
namespace LanguageRelay

def fanned (setup : Setup) (key : String) (message : Message) : Option Message :=
  (setup.chain.apply .serverToClient
    ⟨key, ((setup.specs.find? key).map LaunchSpec.languages).getD []⟩ message).1

-- No listener that is asked about the message replaces it.
def Unreplaced (setup : Setup) (key : String) (message : Message) : Prop :=
  let context := ⟨key, ((setup.specs.find? key).map LaunchSpec.languages).getD []⟩
  ∀ entry ∈ setup.chain, ∀ value, message.value? = some value →
    entry.filter.admits .serverToClient context value →
    ∀ other, (entry.listener.react .serverToClient context value).verdict ≠ .replace other

def ClientEvent.message? : ClientEvent → Option Message
  | .message m => some m
  | _ => none

namespace Machine

def Step.added (step : Step) (c : ConnectionId) : List ClientEvent :=
  (step.after.connection c).queue.drop (step.before.connection c).queue.length

def Step.messages (step : Step) (c : ConnectionId) : List Message :=
  (step.added c).filterMap ClientEvent.message?

-- The messages that the server `p` contributes to a queue: those of the task that reads its output.
def Step.contributed (step : Step) (p : ServerId) (c : ConnectionId) : List Message :=
  match step.event.task? with
  | some t => if (step.before.frames t).any (Activity.pumps p) then step.messages c else []
  | none => []

-- A delivery to `c` in this step finds its queue open and not full.
def Step.findsRoom (step : Step) (c : ConnectionId) : Bool :=
  match step.event.task? with
  | some t =>
    match step.before.frames t with
    | .deliver _ (d :: _) _ event :: _ =>
      d != c || ((step.before.connection c).deliver event).1 == .queued
    | _ => true
  | none => true

-- What the task has read and not yet put into the queue of `c`.
def owed (setup : Setup) (key : String) (c : ConnectionId) : List Activity → List Message
  | .fanOut _ message :: _ => (fanned setup key message).toList
  | .broadcast _ (.message message) :: _ => [message]
  | .deliver _ pending _ (.message message) :: _
  | .evict _ :: .deliver _ pending _ (.message message) :: _ => if c ∈ pending then [message] else []
  | _ => []

variable {m made next : Machine} {setup : Setup} {event : Event} {earlier events : List Event}
  {t u : TaskId} {s r : SessionId} {p q : ServerId} {c : ConnectionId} {a f : Activity}
  {frames rest new : List Activity} {key : String}

theorem added_of_suffix (drained : (next.connection c).queue <:+ (m.connection c).queue) :
    Step.added ⟨m, event, next⟩ c = [] :=
  List.drop_eq_nil_of_le drained.length_le

theorem added_of_same (same : (next.connection c).queue = (m.connection c).queue) :
    Step.added ⟨m, event, next⟩ c = [] :=
  List.drop_eq_nil_of_le (Nat.le_of_eq (congrArg List.length same))

theorem added_of_append {e : ClientEvent}
    (queue : (next.connection c).queue = (m.connection c).queue ++ [e]) :
    Step.added ⟨m, event, next⟩ c = [e] := by
  simp only [Step.added]
  rw [queue, List.drop_left]

theorem queue_of_deliver {before after : Connection} {e : ClientEvent}
    (put : before.deliver e = (.queued, after)) : after.queue = before.queue ++ [e] := by
  have queue := Connection.queue_deliver before e
  rw [put] at queue
  exact queue

theorem added_cases (happens : Happens setup m event next) (c : ConnectionId) :
    Step.added ⟨m, event, next⟩ c = [] ∨
    (∃ t s pending gone e rest, event.task? = some t ∧
      m.frames t = .deliver s (c :: pending) gone e :: rest ∧
      Step.added ⟨m, event, next⟩ c = [e]) ∨
    ∃ key code text, Step.added ⟨m, event, next⟩ c = [.error key code text] := by
  cases happens with
  | started _ _ launches =>
    left
    apply added_of_same
    rw [connection, launches.connections]
    rfl
  | ambient _ _ outside => exact .inl (added_of_suffix (outside.queue c))
  | turned step turned _ leaves _ =>
    rcases leaves.foot.connections with same | ⟨d, reached, reaches, changed⟩
    · left
      apply added_of_same
      rw [connection, same]
      rfl
    · have after := connection_set changed c
      split at after
      · rename_i here
        obtain ⟨rfl, _⟩ := here
        cases reaches with
        | queued put =>
          rw [← after] at put
          refine .inr (.inl ⟨_, _, _, _, _, _, step, turned.stack, ?_⟩)
          exact added_of_append (queue_of_deliver put)
        | evicted =>
          left
          apply added_of_same
          rw [after]
          rfl
        | @refused k key code text =>
          have queue := Connection.queue_deliver (m.connection (m.socket k).connection)
            (.error key code text)
          rw [← after] at queue
          split at queue
          · exact .inr (.inr ⟨key, code, text, added_of_append queue⟩)
          · left
            exact added_of_same queue
        | drained suffix =>
          left
          apply added_of_suffix
          rw [after]
          exact suffix
      · left
        apply added_of_same
        rw [after]

theorem messages_cases (happens : Happens setup m event next) (c : ConnectionId) :
    Step.messages ⟨m, event, next⟩ c = [] ∨
    ∃ t s pending gone message rest, event.task? = some t ∧
      m.frames t = .deliver s (c :: pending) gone (.message message) :: rest ∧
      Step.messages ⟨m, event, next⟩ c = [message] := by
  unfold Step.messages
  rcases added_cases happens c with none | ⟨t, s, pending, gone, e, rest, step, stack, some⟩ |
    ⟨key, code, text, some⟩
  · left; rw [none]; rfl
  · rw [some]
    cases e with
    | message message => exact .inr ⟨t, s, pending, gone, message, rest, step, stack, rfl⟩
    | status event => exact .inl rfl
    | error key code text => exact .inl rfl
  · left; rw [some]; rfl

theorem messages_of_top (happens : Happens setup m event next) (step : event.task? = some t)
    (stack : m.frames t = a :: rest)
    (other : ∀ s pending gone message, a ≠ .deliver s (c :: pending) gone (.message message)) :
    Step.messages ⟨m, event, next⟩ c = [] := by
  rcases messages_cases happens c with none | ⟨u, s, pending, gone, message, below, also, top, _⟩
  · exact none
  · rw [step] at also
    cases also
    rw [stack] at top
    cases top
    exact absurd rfl (other s pending gone message)

theorem contributed_of_mem (step : event.task? = some t) (member : .pump s p ∈ m.frames t) :
    Step.contributed ⟨m, event, next⟩ p c = Step.messages ⟨m, event, next⟩ c := by
  have pumps : (m.frames t).any (Activity.pumps p) = true :=
    List.any_eq_true.2 ⟨_, member, by simp [Activity.pumps]⟩
  simp only [Step.contributed, step, pumps, if_true]

theorem contributed_of_not_mem (none : ∀ t s, event.task? = some t → .pump s p ∉ m.frames t) :
    Step.contributed ⟨m, event, next⟩ p c = [] := by
  unfold Step.contributed
  cases step : event.task? with
  | none => rfl
  | some t =>
    have idle : (m.frames t).any (Activity.pumps p) = false := by
      rw [List.any_eq_false]
      intro f member pumps
      cases f with
      | pump s q =>
        obtain rfl : q = p := by simpa [Activity.pumps] using pumps
        exact none t s step member
      | _ => cases pumps
    simp only [idle]
    rfl

theorem contributed_by_some (fans : Fans m) (happens : Happens setup m event next)
    (c : ConnectionId) :
    ∃ q, Step.messages ⟨m, event, next⟩ c = Step.contributed ⟨m, event, next⟩ q c := by
  rcases messages_cases happens c with none | ⟨t, s, pending, gone, message, rest, step, stack, _⟩
  · refine ⟨0, ?_⟩
    unfold Step.contributed
    cases event.task? with
    | none => exact none
    | some t =>
      rw [none]
      simp only [ite_self]
  · have fanning : ∃ f ∈ m.frames t, f.isFanning := by
      rw [stack]; exact ⟨_, List.mem_cons_self, rfl⟩
    obtain ⟨r, q, pumping⟩ := fans.pumping t fanning
    exact ⟨q, (contributed_of_mem step pumping.fanning_mem).symm⟩

theorem lt_of_queued {e : ClientEvent} {after : Connection}
    (put : (m.connection c).deliver e = (.queued, after)) : c < m.connections.length := by
  apply Nat.lt_of_not_le
  intro beyond
  have absent : m.connection c = default := by
    simp [connection, List.getD_eq_getElem?_getD, beyond]
  rw [absent] at put
  cases put

-- What a step puts into the queue, and what is owed after it, is what was owed before it and what the
-- step reads.
theorem Pumping.conserved (happens : Happens setup m event next) (step : event.task? = some t)
    (turned : Turned m t a rest new next) (taken : Takes setup m t a made new)
    (pumping : Pumping s p (a :: rest)) (attached : c ∈ (m.session s).subscribers)
    (room : Step.findsRoom ⟨m, event, next⟩ c) (connections : next.connections = made.connections)
    (named : (m.session s).key = key) :
    Step.messages ⟨m, event, next⟩ c ++ owed setup key c (new ++ rest) =
      owed setup key c (a :: rest) ++
        (Step.read ⟨m, event, next⟩ p).filterMap (fanned setup key) := by
  have stack := turned.stack
  have silent : (∀ s pending gone message, a ≠ .deliver s (c :: pending) gone (.message message)) →
      Step.messages ⟨m, event, next⟩ c = [] := messages_of_top happens step stack
  have unread : (∀ s, a ≠ .pump s p) → Step.read ⟨m, event, next⟩ p = [] := by
    intro other
    apply read_of_other
    intro u s below also top
    rw [step] at also
    cases also
    rw [stack] at top
    cases top
    exact other s rfl
  cases taken with
  | fails | breaks | attends => cases pumping
  | performs performed =>
    cases pumping with
    | atRest =>
      rw [silent (by simp), read_of_pump step stack]
      simp only [perform, Machine.pump] at performed
      split at performed
      · cases performed
      · rename_i message server read
        cases performed
        rw [read]
        cases result : fanned setup key message <;> simp [owed, result]
      · rename_i read
        cases performed
        rw [read]
        rfl
    | fanning =>
      rw [silent (by simp), unread (by simp)]
      subst named
      simp only [perform, Machine.fanOut] at performed
      split at performed
      · rename_i asked
        cases performed
        have dropped := congrArg Prod.fst asked
        simp only [Machine.askListeners] at dropped
        simp [owed, fanned, dropped]
      · rename_i asked
        cases performed
        have made := congrArg Prod.fst asked
        simp only [Machine.askListeners] at made
        simp [owed, fanned, made]
    | broadcasting =>
      rw [silent (by simp), unread (by simp)]
      cases performed
      simp [owed, attached]
    | @delivering pending gone message distinct =>
      rw [unread (by simp)]
      cases pending with
      | nil =>
        rw [silent (by simp)]
        cases performed
        split <;> simp [owed]
      | cons d pending =>
        have distinct := List.nodup_cons.1 distinct
        by_cases here : d = c
        · subst d
          have put : ((m.connection c).deliver (.message message)).1 = .queued := by
            simpa [Step.findsRoom, step, stack] using room
          simp only [perform, Machine.deliver] at performed
          split at performed
          · rename_i connection queued
            cases performed
            have after := connection_set connections c
            rw [if_pos ⟨rfl, lt_of_queued queued⟩] at after
            have queue := queue_of_deliver queued
            rw [← after] at queue
            rw [Step.messages, added_of_append queue]
            simp [owed, distinct.1, ClientEvent.message?]
          · rename_i full
            rw [full] at put; cases put
          · rename_i closed
            rw [closed] at put; cases put
        · rw [silent (by simp [here])]
          have apart : (c = d ∨ c ∈ pending) ↔ c ∈ pending := by simp [Ne.symm here]
          simp only [perform, Machine.deliver] at performed
          split at performed
          · cases performed; simp [owed, apart]
          · cases performed; simp [owed, apart]
          · cases performed; simp [owed, apart]
    | evicting distinct =>
      rw [silent (by simp), unread (by simp)]
      cases performed
      simp [owed]
    | removing | checking =>
      rw [silent (by simp), unread (by simp)]
      cases performed
      simp [owed]

theorem Reader.idle (reader : Reader m t s p key) (other : event.task? ≠ some t) :
    Step.contributed ⟨m, event, next⟩ p c = [] ∧ Step.read ⟨m, event, next⟩ p = [] := by
  constructor
  · apply contributed_of_not_mem
    intro u r step member
    rw [reader.alone u r member] at step
    exact other step
  · apply read_of_other
    intro u r rest step stack
    have here : u = t := reader.alone u r (by rw [stack]; exact List.mem_cons_self)
    rw [here] at step
    exact other step

theorem Reader.conserved (reader : Reader m t s p key) (sound : Sound m)
    (moved : m.advance setup event = some next) (attached : c ∈ (m.session s).subscribers)
    (room : Step.findsRoom ⟨m, event, next⟩ c) :
    Step.contributed ⟨m, event, next⟩ p c ++ owed setup key c (next.frames t) =
      owed setup key c (m.frames t) ++
        (Step.read ⟨m, event, next⟩ p).filterMap (fanned setup key) := by
  have happens := sound.happens moved
  by_cases own : event.task? = some t
  · cases happens with
    | @turned u a rest made new step turned taken leaves shape =>
      rw [step] at own
      cases own
      obtain ⟨pumping, named⟩ := reader.pumping turned.stack
      have member : .pump s p ∈ m.frames t := turned.stack ▸ pumping.fanning_mem
      have connections : next.connections = made.connections := by rw [shape]; rfl
      rw [contributed_of_mem step member, turned.replaced, turned.stack]
      exact pumping.conserved (.turned step turned taken leaves shape) step turned taken attached room
        connections named
    | started launch started _ =>
      subst launch
      cases own
      cases (reader.pumping started.stack).1
    | ambient outside _ _ => rw [outside] at own; cases own
  · obtain ⟨silent, unread⟩ : Step.contributed ⟨m, event, next⟩ p c = [] ∧
        Step.read ⟨m, event, next⟩ p = [] := reader.idle own
    rw [silent, unread, reader.kept happens own]
    simp

theorem run_of_unreplaced {context : ListenerContext} {direction : Direction}
    {chain : ListenerChain ListenerEffect} {after : Option ListenerChain.Current}
    (current : ListenerChain.Current)
    (unreplaced : ∀ entry ∈ chain, entry.filter.admits direction context current.value →
      ∀ other, (entry.listener.react direction context current.value).verdict ≠ .replace other)
    (ran : (chain.run direction context current).1 = after) : after = none ∨ after = some current := by
  induction chain with
  | nil => exact .inr ran.symm
  | cons entry chain ih =>
    have later := ih fun e member => unreplaced e (List.mem_cons_of_mem _ member)
    have first := unreplaced entry List.mem_cons_self
    simp only [ListenerChain.run] at ran
    have asked : (ListenerChain.ask entry direction context current).1 = none ∨
        (ListenerChain.ask entry direction context current).1 = some current := by
      unfold ListenerChain.ask
      split
      · rename_i admits
        dsimp only
        split
        · exact .inr rfl
        · exact .inr rfl
        · exact .inr rfl
        · rename_i other verdict
          exact absurd verdict (first admits other)
        · exact .inl rfl
      · exact .inr rfl
    split at ran
    · exact .inl ran.symm
    · rename_i next effects result
      rw [result] at asked
      rcases asked with none | same
      · cases none
      · cases same
        exact later ran

theorem fanned_of_unreplaced {message result : Message} (unreplaced : Unreplaced setup key message)
    (made : fanned setup key message = some result) : result = message := by
  unfold fanned ListenerChain.apply at made
  split at made
  · exact (Option.some.inj made).symm
  · split at made
    · exact (Option.some.inj made).symm
    · rename_i value read
      have runs := run_of_unreplaced ⟨value, false⟩
        (fun entry member admits => unreplaced entry member value read admits) rfl
      split at made
      · cases made
      · rename_i current effects ran
        rw [ran] at runs
        rcases runs with none | same
        · cases none
        · cases same
          exact (Option.some.inj made).symm

-- What the steps of a run have served: everything that was read and came through the listeners is in the
-- queue or still owed.
structure Served (setup : Setup) (t : TaskId) (s : SessionId) (p : ServerId) (c : ConnectionId)
    (key : String) (start : Bytes) (taken : List Step) (now : Machine) : Prop where
  fans : Fans now
  reader : Reader now t s p key
  by_some : ∀ step ∈ taken, ∃ q, step.messages c = step.contributed q c
  conserved : (∀ step ∈ taken, c ∈ (step.before.session s).subscribers) →
    (∀ step ∈ taken, step.findsRoom c) →
    taken.flatMap (·.contributed p c) ++ owed setup key c (now.frames t) =
      (taken.flatMap (·.read p)).filterMap (fanned setup key)
  drawn : (∀ step ∈ taken, step.readsElsewhere p = false) →
    Drawn now t p (start ++ taken.flatMap (·.output p)) ((taken.flatMap (·.read p)).map Message.body)

theorem Served.advance {start : Bytes} {taken : List Step} (served : Served setup t s p c key start taken m)
    (sound : Sound m) (moved : m.advance setup event = some next) :
    Served setup t s p c key start (taken ++ [⟨m, event, next⟩]) next := by
  have before : ∀ {motive : Step → Prop}, (∀ step ∈ taken ++ [⟨m, event, next⟩], motive step) →
      (∀ step ∈ taken, motive step) ∧ motive ⟨m, event, next⟩ := by
    intro motive all
    exact ⟨fun step member => all step (List.mem_append_left _ member), all _ (by simp)⟩
  refine ⟨served.fans.advance sound moved, served.reader.advance served.fans sound moved, ?_,
    fun attached room => ?_, fun other => ?_⟩
  · intro step member
    rcases List.mem_append.1 member with old | last
    · exact served.by_some step old
    · rw [List.mem_singleton.1 last]
      exact contributed_by_some served.fans (sound.happens moved) c
  · obtain ⟨attached, now⟩ := before attached
    obtain ⟨room, finds⟩ := before room
    have old := served.conserved attached room
    have last := served.reader.conserved sound moved now finds
    simp only [List.flatMap_append, List.flatMap_cons, List.flatMap_nil, List.append_nil,
      List.filterMap_append, List.append_assoc]
    rw [last, ← List.append_assoc, old]
  · obtain ⟨others, last⟩ := before other
    have drawn := served.reader.drawn sound moved last (served.drawn others)
    simpa only [List.flatMap_append, List.flatMap_cons, List.flatMap_nil, List.append_nil,
      List.map_append, List.append_assoc] using drawn

-- A subscriber who stays and has room while a server's output is read gets what the listeners make of
-- each message, in order and once, whatever else happens meanwhile. What is read are the frames that the
-- child has written.
theorem fan_out (ran : initial.runs setup earlier = some m) (atRest : m.frames t = [.pump s p])
    (span : m.runs setup events = some next)
    (attached : ∀ step ∈ m.steps setup events, c ∈ (step.before.session s).subscribers)
    (room : ∀ step ∈ m.steps setup events, step.findsRoom c) :
    (m.steps setup events).flatMap (·.contributed p c) <+:
      ((m.steps setup events).flatMap (·.read p)).filterMap (fanned setup (m.session s).key) ∧
    (next.frames t = [.pump s p] ∨ next.frames t = [] →
      (m.steps setup events).flatMap (·.contributed p c) =
        ((m.steps setup events).flatMap (·.read p)).filterMap (fanned setup (m.session s).key)) ∧
    (∀ step ∈ m.steps setup events, ∃ q, step.messages c = step.contributed q c) ∧
    (∀ message result, Unreplaced setup (m.session s).key message →
      fanned setup (m.session s).key message = some result → result = message) ∧
    ((∀ step ∈ m.steps setup events, step.readsElsewhere p = false) →
      ∃ left, Frame.Yields ((m.server p).output.buffered ++ (m.steps setup events).flatMap (·.output p))
        (((m.steps setup events).flatMap (·.read p)).map Message.body) left) := by
  have sound := sound_initial.runs ran
  have start : Served setup t s p c (m.session s).key (m.server p).output.buffered [] m := by
    refine ⟨.runs ran, .of_atRest (.runs ran) atRest, by simp, fun _ _ => ?_, fun _ => ?_⟩
    · rw [atRest]; rfl
    · exact ⟨_, by simpa using .none, fun _ => rfl⟩
  have served := sound.induction (motive := fun taken now =>
      Served setup t s p c (m.session s).key (m.server p).output.buffered taken now) span start
    fun _ _ _ _ sound moved served => served.advance sound moved
  have conserved := served.conserved attached room
  refine ⟨⟨_, conserved⟩, fun idle => ?_, served.by_some, fun _ _ => fanned_of_unreplaced,
    fun other => ?_⟩
  · rw [← conserved]
    rcases idle with atRest | gone
    · rw [atRest]; exact (List.append_nil _).symm
    · rw [gone]; exact (List.append_nil _).symm
  · obtain ⟨left, yields, _⟩ := served.drawn other
    exact ⟨left, yields⟩

-- Two subscribers, one of them with a queue that is full after one event.
def crowd : List Event :=
  ([.connect 8, .call (.subscribe "k" 0)] : List Event) ++ (.replicate 11 (.run 0) : List Event) ++
    ([.launch 0 none] : List Event) ++ (.replicate 5 (.run 0) : List Event) ++
    ([.connect 1, .call (.subscribe "k" 1)] : List Event) ++ (.replicate 9 (.run 3) : List Event)

-- The server writes a frame, and the task that reads it brings it to both.
def utterance : List Event := .childWrites 0 (Frame.encode "{}") :: .replicate 9 (.run 1)

theorem fan_out_past_full_queue : ∃ m next, initial.runs oneKey crowd = some m ∧
    m.runs oneKey utterance = some next ∧ (next.connection 1).evicted = true ∧
    (m.steps oneKey utterance).flatMap (·.read 0) = [⟨"{}"⟩] ∧
    (m.steps oneKey utterance).flatMap (·.contributed 0 0) =
      ((m.steps oneKey utterance).flatMap (·.read 0)).filterMap (fanned oneKey (m.session 0).key) := by
  obtain ⟨m, ran, atRest⟩ := Option.map_eq_some_iff.1
    (show (initial.runs oneKey crowd).map (fun m => m.frames 1) = some [.pump 0 0] by rfl)
  have steps : (initial.runs oneKey crowd).any (fun m => (m.steps oneKey utterance).all fun step =>
      (step.before.session 0).subscribers.contains 0 && step.findsRoom 0) := by decide
  have reads : (initial.runs oneKey crowd).any (fun m =>
      (m.steps oneKey utterance).flatMap (·.read 0) == [⟨"{}"⟩]) := by decide
  have ends : (initial.runs oneKey crowd).any (fun m => (m.runs oneKey utterance).any fun next =>
      (next.connection 1).evicted) := by decide
  have stays : (initial.runs oneKey crowd).map (fun m => (m.runs oneKey utterance).map fun next =>
      next.frames 1) = some (some [.pump 0 0]) := by rfl
  simp only [ran, Option.any_some, Option.map_some, Option.some.injEq] at steps reads ends stays
  obtain ⟨next, span, evicted⟩ := (Option.any_eq_true _ _).1 ends
  rw [span] at stays
  have every : ∀ step ∈ m.steps oneKey utterance, 0 ∈ (step.before.session 0).subscribers ∧
      step.findsRoom 0 = true := by
    intro step member
    simpa using List.all_eq_true.1 steps step member
  have served := fan_out ran atRest span (fun step member => (every step member).1)
    fun step member => (every step member).2
  exact ⟨m, next, ran, span, evicted, beq_iff_eq.1 reads, served.2.1 (.inl (Option.some.inj stays))⟩

end Machine
end LanguageRelay
