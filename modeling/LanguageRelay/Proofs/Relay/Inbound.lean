import LanguageRelay.Proofs.Relay.Changes
namespace LanguageRelay

inductive Deed where
  | routed (s : SessionId) (c : ConnectionId) (message : Message)
  | accepted (p : ServerId) (sender : Sender) (message : Message)
deriving DecidableEq

def Deed.acceptedFor? (p : ServerId) : Deed → Option Message
  | .accepted q _ message => if q = p then some message else none
  | _ => none

def passed (setup : Setup) (key : String) (message : Message) : Option Message :=
  (setup.chain.apply .clientToServer
    ⟨key, ((setup.specs.find? key).map LaunchSpec.languages).getD []⟩ message).1

def framesOf (messages : List Message) : Bytes := messages.flatMap fun m => Frame.encode m.body

def Command.bytes : Command → Bytes
  | .message _ m => Frame.encode m.body
  | .finish => []

def Writer.rest : Writer → Bytes
  | .writing rest => rest
  | _ => []

def Server.backlog (server : Server) : Bytes :=
  server.writer.rest ++ server.queue.flatMap Command.bytes

namespace Machine

structure Flow (server : Server) (accepted : List Message) (sent : Bytes) : Prop where
  isPrefix : sent <+: framesOf accepted
  whole : server.writer ≠ .stopped → sent ++ server.backlog = framesOf accepted

variable {server after : Server} {accepted : List Message} {sent : Bytes}

theorem Flow.congr (flow : Flow server accepted sent) (writer : after.writer = server.writer)
    (queue : after.queue = server.queue) : Flow after accepted sent := by
  refine ⟨flow.isPrefix, fun goesOn => ?_⟩
  rw [writer] at goesOn
  rw [Server.backlog, writer, queue]
  exact flow.whole goesOn

theorem Flow.stopWriter (flow : Flow server accepted sent) :
    Flow server.stopWriter accepted sent :=
  ⟨flow.isPrefix, fun goesOn => absurd rfl goesOn⟩

theorem Flow.accept {sender : Sender} {message : Message} (flow : Flow server accepted sent)
    (put : server.enqueue? (.message sender message) = some (true, after)) :
    Flow after (accepted ++ [message]) sent := by
  unfold Server.enqueue? at put
  split at put
  · cases put
  · rename_i running
    have whole := flow.whole running
    split at put
    · cases put
      have more : framesOf (accepted ++ [message]) = framesOf accepted ++ Frame.encode message.body := by
        simp [framesOf]
      refine ⟨?_, fun _ => ?_⟩
      · rw [more]; exact flow.isPrefix.trans (List.prefix_append _ _)
      · rw [more, ← whole]
        simp [Server.backlog, Command.bytes]
    · cases put

theorem Flow.finish {taken : Bool} (flow : Flow server accepted sent)
    (put : server.enqueue? .finish = some (taken, after)) : Flow after accepted sent := by
  unfold Server.enqueue? at put
  split at put
  · cases put; exact flow
  · split at put
    · cases put
      refine ⟨flow.isPrefix, fun goesOn => ?_⟩
      rw [← flow.whole goesOn]
      simp [Server.backlog, Command.bytes]
    · cases put

theorem Flow.write {count : Nat} (flow : Flow server accepted sent)
    (wrote : server.write? count = some after) : Flow after accepted
      (sent ++ after.input.buffered.drop server.input.buffered.length) := by
  have silent : server.input.buffered.drop server.input.buffered.length = [] := List.drop_length
  unfold Server.write? at wrote
  split at wrote
  · cases wrote
  · cases wrote
  · cases wrote
    simp only [Server.stopWriter]
    rw [silent, List.append_nil]
    exact flow.stopWriter
  · rename_i sender message rest writer queue
    cases wrote
    have whole := flow.whole (by rw [writer]; simp)
    rw [silent, List.append_nil]
    refine ⟨flow.isPrefix, fun _ => ?_⟩
    rw [← whole]
    simp [Server.backlog, writer, queue, Writer.rest, Command.bytes]
  · rename_i rest writer
    have whole := flow.whole (by rw [writer]; simp)
    rw [Server.backlog, writer] at whole
    split at wrote
    · cases wrote
      simp only [Server.stopWriter]
      rw [silent, List.append_nil]
      exact flow.stopWriter.congr rfl rfl
    · split at wrote
      · rename_i empty
        cases wrote
        rw [silent, List.append_nil]
        refine ⟨flow.isPrefix, fun _ => ?_⟩
        rw [← whole, empty]
        rfl
      · split at wrote
        · cases wrote
        · cases wrote
          have split : (sent ++ rest.take count) ++
              (rest.drop count ++ server.queue.flatMap Command.bytes) = framesOf accepted := by
            rw [← whole, List.append_assoc, ← List.append_assoc (rest.take count),
              List.take_append_drop]
            rfl
          rw [List.drop_left]
          exact ⟨⟨_, split⟩, fun _ => split⟩

theorem Flow.read {output : Output} (flow : Flow server accepted sent)
    (read : server.nextOutput = (output, after)) : Flow after accepted sent := by
  obtain ⟨_, _, _, rfl⟩ := Server.changes_nextOutput read
  exact flow.congr rfl rfl

theorem Flow.watch {clock : Nat} {wake : Wake} (flow : Flow server accepted sent)
    (watched : server.watch? clock wake = some after) : Flow after accepted sent := by
  obtain ⟨_, _, _, _, rfl⟩ := Server.changes_watch? watched
  exact flow.congr rfl rfl

variable {m made next : Machine} {setup : Setup} {event : Event} {events : List Event} {t : TaskId}
  {p q : ServerId} {a : Activity} {rest new : List Activity}

def Step.deed? (setup : Setup) (step : Step) : Option Deed :=
  match step.event.task? with
  | some t =>
    match step.before.frames t with
    | .route s c message :: _ =>
      (passed setup (step.before.session s).key message).map (Deed.routed s c)
    | .enqueue sender p message :: _ =>
      match (step.before.server p).enqueue? (.message sender message) with
      | some (true, _) => some (.accepted p sender message)
      | _ => none
    | _ => none
  | none => none

def Step.written (step : Step) (p : ServerId) : Bytes :=
  match step.event with
  | .write q _ =>
    if q = p then
      (step.after.server p).input.buffered.drop (step.before.server p).input.buffered.length
    else []
  | _ => []

def deeds (setup : Setup) (m : Machine) (events : List Event) : List Deed :=
  (m.steps setup events).filterMap (Step.deed? setup)

theorem deed_of_enqueue {sender : Sender} {message : Message} (step : event.task? = some t)
    (stack : m.frames t = .enqueue sender p message :: rest) :
    Step.deed? setup ⟨m, event, next⟩ =
      match (m.server p).enqueue? (.message sender message) with
      | some (true, _) => some (.accepted p sender message)
      | _ => none := by
  simp only [Step.deed?, step, stack]

theorem deed_of_route {s : SessionId} {c : ConnectionId} {message : Message}
    (step : event.task? = some t) (stack : m.frames t = .route s c message :: rest) :
    Step.deed? setup ⟨m, event, next⟩ =
      (passed setup (m.session s).key message).map (Deed.routed s c) := by
  simp only [Step.deed?, step, stack]

theorem deed_of_other (step : event.task? = some t) (stack : m.frames t = a :: rest)
    (route : ∀ s c message, a ≠ .route s c message)
    (enqueue : ∀ sender p message, a ≠ .enqueue sender p message) :
    Step.deed? setup ⟨m, event, next⟩ = none := by
  simp only [Step.deed?, step, stack]
  split
  · rename_i same
    cases same
    exact absurd rfl (route _ _ _)
  · rename_i same
    cases same
    exact absurd rfl (enqueue _ _ _)
  · rfl

theorem deed_cases (setup : Setup) (next : Machine) (step : event.task? = some t)
    (stack : m.frames t = a :: rest) :
    Step.deed? setup ⟨m, event, next⟩ = none ∨
    (∃ s c original message, a = .route s c original ∧
      Step.deed? setup ⟨m, event, next⟩ = some (.routed s c message)) ∨
    ∃ sender p message, a = .enqueue sender p message ∧
      Step.deed? setup ⟨m, event, next⟩ = some (.accepted p sender message) := by
  by_cases route : ∃ s c original, a = .route s c original
  · obtain ⟨s, c, original, rfl⟩ := route
    rw [deed_of_route step stack]
    cases passed setup (m.session s).key original with
    | none => exact .inl rfl
    | some message => exact .inr (.inl ⟨s, c, original, message, rfl, rfl⟩)
  · by_cases enqueue : ∃ sender p message, a = .enqueue sender p message
    · obtain ⟨sender, p, message, rfl⟩ := enqueue
      rw [deed_of_enqueue step stack]
      split
      · exact .inr (.inr ⟨sender, p, message, rfl, rfl⟩)
      · exact .inl rfl
    · exact .inl (deed_of_other step stack (fun s c message same => route ⟨s, c, message, same⟩)
        fun sender p message same => enqueue ⟨sender, p, message, same⟩)

theorem deed_of_world (outside : event.task? = none) :
    Step.deed? setup ⟨m, event, next⟩ = none := by
  simp only [Step.deed?, outside]

theorem written_of_task (step : event.task? = some t) :
    Step.written ⟨m, event, next⟩ p = [] := by
  cases event <;> first | rfl | cases step

theorem Flow.handles (flow : Flow (m.server p) accepted sent) (handles : Handles m a p server)
    (other : ∀ sender p message, a ≠ .enqueue sender p message) : Flow server accepted sent := by
  cases handles with
  | stop | kill => exact flow.congr rfl rfl
  | finish put => exact flow.finish put
  | abandon => exact flow.stopWriter
  | enqueue => exact absurd rfl (other _ _ _)
  | pump read => exact flow.read read
  | pumpEnd read => exact (flow.read read).congr rfl rfl
  | next read => exact flow.read read

theorem Flow.serves (flow : Flow (m.server p) accepted sent) (serves : Serves m event p server)
    (there : next.server p = server) :
    Flow server accepted (sent ++ Step.written ⟨m, event, next⟩ p) := by
  cases serves with
  | written wrote =>
    simp only [Step.written, if_true, there]
    exact flow.write wrote
  | released | inputCloses | outputCloses =>
    rw [Step.written, List.append_nil]
    exact flow.congr rfl rfl
  | watched watched =>
    rw [Step.written, List.append_nil]
    exact flow.watch watched
  | childReads read =>
    obtain ⟨input, rfl⟩ := Server.changes_childReads? read
    rw [Step.written, List.append_nil]
    exact flow.congr rfl rfl
  | childWrites put =>
    rw [Step.written, List.append_nil, Server.childWrites?_eq put]
    exact flow.congr rfl rfl
  | childEnds ended =>
    rw [Step.written, List.append_nil, (Server.childEnds?_eq ended).2]
    exact flow.congr rfl rfl

theorem written_of_serves_other (serves : Serves m event q server) (other : p ≠ q) :
    Step.written ⟨m, event, next⟩ p = [] := by
  cases serves <;> simp [Step.written, other.symm]

theorem lt_of_accepted {sender : Sender} {message : Message}
    (put : (m.server p).enqueue? (.message sender message) = some (true, after)) :
    p < m.servers.length := by
  apply Nat.lt_of_not_le
  intro beyond
  rw [server_of_length_le beyond] at put
  cases put

theorem Flow.enqueue {sender : Sender} {message : Message}
    (flow : Flow (m.server p) accepted sent) (step : event.task? = some t)
    (stack : m.frames t = .enqueue sender q message :: rest)
    (performed : m.enqueue t sender q message = some (made, new))
    (servers : next.servers = made.servers) :
    Flow (next.server p) (accepted ++
      (Step.deed? setup ⟨m, event, next⟩).toList.filterMap (Deed.acceptedFor? p)) sent := by
  rw [deed_of_enqueue step stack]
  simp only [Machine.enqueue] at performed
  split at performed
  · cases performed
  · rename_i server put
    cases performed
    have changed := server_set servers p
    simp only [put, Option.toList_some]
    by_cases here : p = q
    · subst p
      rw [if_pos ⟨rfl, lt_of_accepted put⟩] at changed
      rw [changed]
      simpa [Deed.acceptedFor?] using flow.accept put
    · rw [if_neg fun both => here both.1] at changed
      rw [changed]
      simpa [Deed.acceptedFor?, Ne.symm here] using flow
  · rename_i put
    have told := Option.some.inj performed
    have same : next.server p = m.server p := by
      rw [Machine.server, servers]
      cases sender <;> cases told <;> rfl
    rw [put, same]
    simpa using flow

-- Nothing but the step that puts a message into a queue accepts one.
theorem accepted_of_other (step : event.task? = some t) (stack : m.frames t = a :: rest)
    (other : ∀ sender p message, a ≠ .enqueue sender p message) :
    (Step.deed? setup ⟨m, event, next⟩).toList.filterMap (Deed.acceptedFor? p) = [] := by
  rcases deed_cases setup next step stack with none | ⟨s, c, _, message, _, routed⟩ |
    ⟨sender, q, message, rfl, _⟩
  · rw [none]; rfl
  · rw [routed]; rfl
  · exact absurd rfl (other sender q message)

theorem Flow.turned (flow : Flow (m.server p) accepted sent) (step : event.task? = some t)
    (stack : m.frames t = a :: rest) (taken : Takes setup m t a made new)
    (leaves : Leaves m a next new) (servers : next.servers = made.servers) :
    Flow (next.server p) (accepted ++
      (Step.deed? setup ⟨m, event, next⟩).toList.filterMap (Deed.acceptedFor? p)) sent := by
  by_cases enqueue : ∃ sender q message, a = .enqueue sender q message
  · obtain ⟨sender, q, message, rfl⟩ := enqueue
    cases taken with
    | performs performed => exact flow.enqueue step stack performed servers
  · have other : ∀ sender q message, a ≠ .enqueue sender q message :=
      fun sender q message same => enqueue ⟨sender, q, message, same⟩
    rw [accepted_of_other step stack other, List.append_nil]
    rcases leaves.foot.servers with same | ⟨q, server, handles, changed⟩
    · rw [Machine.server, same]
      exact flow
    · have after := server_set changed p
      split at after
      · rename_i here
        obtain ⟨rfl, _⟩ := here
        rw [after]
        exact flow.handles handles other
      · rw [after]
        exact flow

theorem Flow.started (flow : Flow (m.server p) accepted sent) {server : Server}
    (added : next.servers = m.servers ++ [server]) (writer : server.writer = .idle)
    (queue : server.queue = []) : Flow (next.server p) accepted sent := by
  rw [server_append added]
  split
  · rename_i here
    rw [server_of_length_le (Nat.le_of_eq here.symm)] at flow
    exact flow.congr writer queue
  · exact flow

theorem Flow.advance (flow : Flow (m.server p) accepted sent)
    (happens : Happens setup m event next) :
    Flow (next.server p) (accepted ++
        (Step.deed? setup ⟨m, event, next⟩).toList.filterMap (Deed.acceptedFor? p))
      (sent ++ Step.written ⟨m, event, next⟩ p) := by
  cases happens with
  | turned step turned taken leaves shape =>
    rw [written_of_task step, List.append_nil]
    exact flow.turned step turned.stack taken leaves (by rw [shape]; rfl)
  | started launch started launches =>
    subst launch
    rw [accepted_of_other rfl started.stack (by simp), List.append_nil, Step.written, List.append_nil]
    exact flow.started launches.servers rfl rfl
  | ambient world _ outside =>
    rw [deed_of_world world]
    simp only [Option.toList_none, List.filterMap_nil, List.append_nil]
    rcases outside.servers with ⟨none, same⟩ | ⟨q, server, there, serves, changed⟩ |
      ⟨limit, rfl, added⟩
    · have silent : Step.written ⟨m, event, next⟩ p = [] := by
        cases event <;> first | rfl | cases none
      rw [silent, List.append_nil, Machine.server, same]
      exact flow
    · by_cases here : p = q
      · subst q
        have after := server_set changed p
        rw [if_pos ⟨rfl, there⟩] at after
        rw [after]
        exact flow.serves serves after
      · rw [written_of_serves_other serves here, List.append_nil, server_set changed,
          if_neg fun both => here both.1]
        exact flow
    · rw [Step.written, List.append_nil]
      exact flow.started added rfl rfl

theorem deeds_concat (taken : List Step) (step : Step) :
    (taken ++ [step]).filterMap (Step.deed? setup) =
      taken.filterMap (Step.deed? setup) ++ (step.deed? setup).toList := by
  rw [List.filterMap_append]
  cases made : step.deed? setup <;> simp [made]

theorem Flow.runs (ran : initial.runs setup events = some m) (p : ServerId) :
    Flow (m.server p) ((initial.deeds setup events).filterMap (Deed.acceptedFor? p))
      ((initial.steps setup events).flatMap (·.written p)) := by
  refine sound_initial.induction (motive := fun taken now => Flow (now.server p)
      ((taken.filterMap (Step.deed? setup)).filterMap (Deed.acceptedFor? p))
      (taken.flatMap (·.written p))) ran ⟨List.nil_prefix, fun _ => rfl⟩ ?_
  intro taken before event after sound moved flow
  rw [deeds_concat, List.filterMap_append, List.flatMap_append, List.flatMap_singleton]
  exact flow.advance (sound.happens moved)

-- What has been written to a server's input are the frames of the messages it has accepted, in order, up
-- to some byte.
theorem written_isPrefix (ran : initial.runs setup events = some m) (p : ServerId) :
    (initial.steps setup events).flatMap (·.written p) <+:
      framesOf ((initial.deeds setup events).filterMap (Deed.acceptedFor? p)) :=
  (Flow.runs ran p).isPrefix

end Machine
end LanguageRelay
