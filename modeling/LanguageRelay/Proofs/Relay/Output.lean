import LanguageRelay.Proofs.Frame.Stream
import LanguageRelay.Proofs.Relay.Pumping
namespace LanguageRelay.Machine

def Step.read (step : Step) (p : ServerId) : List Message :=
  match step.event.task? with
  | some t =>
    match step.before.frames t with
    | .pump _ q :: _ =>
      if q = p then
        match (step.before.server p).nextOutput.1 with
        | .message message => [message]
        | _ => []
      else []
    | _ => []
  | none => []

def Step.output (step : Step) (p : ServerId) : Bytes :=
  match step.event with
  | .childWrites q bytes => if q = p then bytes else []
  | _ => []

-- Somebody besides the task takes messages from the output of `p`.
def Step.readsElsewhere (step : Step) (p : ServerId) : Bool :=
  match step.event.task? with
  | some t =>
    match step.before.frames t with
    | .next q :: _ => q == p
    | _ => false
  | none => false

variable {m made next : Machine} {setup : Setup} {event : Event} {events : List Event}
  {t u : TaskId} {s r : SessionId} {p q : ServerId} {c : ConnectionId} {a f : Activity}
  {frames rest new : List Activity} {key : String}

theorem read_of_other (none : ∀ t s rest, event.task? = some t → m.frames t ≠ .pump s p :: rest) :
    Step.read ⟨m, event, next⟩ p = [] := by
  unfold Step.read
  split
  · rename_i t step
    split
    · rename_i s q rest stack
      split
      · rename_i same
        subst same
        exact absurd stack (none t s rest step)
      · rfl
    · rfl
  · rfl

theorem read_of_pump (step : event.task? = some t) (stack : m.frames t = .pump s p :: rest) :
    Step.read ⟨m, event, next⟩ p =
      match (m.server p).nextOutput.1 with
      | .message message => [message]
      | _ => [] := by
  simp only [Step.read, step, stack, if_true]

theorem output_of_enqueue? {server after : Server} {command : Command} {taken : Bool}
    (put : server.enqueue? command = some (taken, after)) : after.output = server.output := by
  obtain ⟨queue, rfl⟩ := Server.changes_enqueue? put
  rfl

theorem output_of_handles {server : Server} (handles : Handles m a p server)
    (pump : ∀ s, a ≠ .pump s p) (next : a ≠ .next p) : server.output = (m.server p).output := by
  cases handles with
  | stop | kill | abandon => rfl
  | finish put => exact output_of_enqueue? put
  | enqueue put => exact output_of_enqueue? put
  | pump | pumpEnd => exact absurd rfl (pump _)
  | next => exact absurd rfl next

theorem output_of_write? {server after : Server} {count : Nat}
    (written : server.write? count = some after) : after.output = server.output := by
  obtain ⟨_, _, _, _, rfl⟩ := Server.changes_write? written
  rfl

theorem output_of_watch? {server after : Server} {clock : Nat} {wake : Wake}
    (watched : server.watch? clock wake = some after) : after.output = server.output := by
  obtain ⟨_, _, _, _, rfl⟩ := Server.changes_watch? watched
  rfl

theorem buffered_of_serves {server : Server} (serves : Serves m event p server) :
    server.output.buffered = (m.server p).output.buffered ++ Step.output ⟨m, event, next⟩ p := by
  cases serves with
  | released | inputCloses | outputCloses => exact (List.append_nil _).symm
  | written written => rw [output_of_write? written]; exact (List.append_nil _).symm
  | watched watched => rw [output_of_watch? watched]; exact (List.append_nil _).symm
  | childReads read =>
    obtain ⟨input, rfl⟩ := Server.changes_childReads? read
    exact (List.append_nil _).symm
  | childWrites written =>
    rw [Server.childWrites?_eq written]
    simp [Step.output]
  | childEnds ended =>
    rw [(Server.childEnds?_eq ended).2]
    exact (List.append_nil _).symm

theorem output_of_task (step : event.task? = some t) : Step.output ⟨m, event, next⟩ p = [] := by
  cases event <;> first | rfl | cases step

theorem output_of_serves_other {server : Server} (serves : Serves m event q server) (other : p ≠ q) :
    Step.output ⟨m, event, next⟩ p = [] := by
  cases serves <;> simp [Step.output, other.symm]

theorem buffered_of_other (happens : Happens setup m event next) (there : p < m.servers.length)
    (pump : ∀ t s rest, event.task? = some t → m.frames t ≠ .pump s p :: rest)
    (other : Step.readsElsewhere ⟨m, event, next⟩ p = false) :
    (next.server p).output.buffered =
      (m.server p).output.buffered ++ Step.output ⟨m, event, next⟩ p := by
  have still : next.server p = m.server p → Step.output ⟨m, event, next⟩ p = [] →
      (next.server p).output.buffered =
        (m.server p).output.buffered ++ Step.output ⟨m, event, next⟩ p := by
    intro same silent
    rw [same, silent, List.append_nil]
  cases happens with
  | @turned t a rest _ _ step turned _ leaves _ =>
    rcases leaves.foot.servers with same | ⟨q, server, handles, changed⟩
    · apply still _ (output_of_task step)
      rw [Machine.server, same]; rfl
    · have after := server_set changed p
      split at after
      · rename_i here
        obtain ⟨rfl, _⟩ := here
        have kept := output_of_handles handles ?_ ?_
        · rw [after, kept, output_of_task step, List.append_nil]
        · rintro s rfl
          exact pump t s rest step turned.stack
        · rintro rfl
          simp [Step.readsElsewhere, step, turned.stack] at other
      · exact still after (output_of_task step)
  | started launch _ launches =>
    subst launch
    apply still _ rfl
    rw [server_append launches.servers, if_neg (Nat.ne_of_lt there)]
  | ambient _ _ outside =>
    rcases outside.servers with ⟨none, same⟩ | ⟨q, server, _, serves, changed⟩ | ⟨limit, rfl, added⟩
    · apply still
      · rw [Machine.server, same]; rfl
      · cases event <;> first | rfl | cases none
    · have after := server_set changed p
      by_cases here : p = q
      · subst q
        rw [if_pos ⟨rfl, there⟩] at after
        rw [after]; exact buffered_of_serves serves
      · rw [if_neg fun both => here both.1] at after
        exact still after (output_of_serves_other serves here)
    · apply still _ rfl
      rw [server_append added, if_neg (Nat.ne_of_lt there)]

theorem feed_of_nextOutput {server after : Server} {message : Message}
    (read : server.nextOutput = (.message message, after)) :
    Frame.State.start.feed server.output.buffered =
      (.done (.frame message.body), after.output.buffered) := by
  unfold Server.nextOutput at read
  split at read
  · cases read
  · split at read
    · rename_i fed
      cases read
      exact fed
    · cases read
    · split at read <;> cases read

-- The bodies are those of the next frames of the bytes. What is left of them is what is buffered, as
-- long as the task reads on.
def Drawn (m : Machine) (t : TaskId) (p : ServerId) (bytes : Bytes) (bodies : List String) : Prop :=
  ∃ left, Frame.Yields bytes bodies left ∧
    (m.frames t ≠ [] → left = (m.server p).output.buffered)

theorem Reader.drawn {bytes : Bytes} {bodies : List String} (reader : Reader m t s p key)
    (sound : Sound m) (moved : m.advance setup event = some next)
    (other : Step.readsElsewhere ⟨m, event, next⟩ p = false) (drawn : Drawn m t p bytes bodies) :
    Drawn next t p (bytes ++ Step.output ⟨m, event, next⟩ p)
      (bodies ++ (Step.read ⟨m, event, next⟩ p).map Message.body) := by
  have happens := sound.happens moved
  obtain ⟨left, yields, buffered⟩ := drawn
  by_cases reads : ∃ u r rest, event.task? = some u ∧ m.frames u = .pump r p :: rest
  · obtain ⟨u, r, rest, step, stack⟩ := reads
    obtain rfl : u = t := reader.alone u r (by rw [stack]; exact List.mem_cons_self)
    have buffered := buffered (by rw [stack]; simp)
    rw [output_of_task step, List.append_nil, read_of_pump step stack]
    cases happens with
    | @turned v a below made new also turned taken _ shape =>
      rw [step] at also
      cases also
      cases stack.symm.trans turned.stack
      cases taken with
      | performs performed =>
        simp only [perform, Machine.pump] at performed
        split at performed
        · cases performed
        · rename_i message server read
          cases performed
          have fed := feed_of_nextOutput read
          rw [← buffered] at fed
          refine ⟨server.output.buffered, ?_, fun _ => ?_⟩
          · rw [read]; exact yields.concat fed
          · have servers : next.servers = m.servers.set p server := by rw [shape]; rfl
            rw [server_set servers, if_pos ⟨rfl, reader.server⟩]
        · rename_i server read
          cases performed
          refine ⟨left, ?_, fun goesOn => ?_⟩
          · rw [read]; simpa using yields
          · have alone := (reader.pumping turned.stack).1
            cases alone
            exact absurd turned.replaced goesOn
    | started launch started _ =>
      subst launch
      cases step
      cases stack.symm.trans started.stack
    | ambient outside _ _ => rw [outside] at step; cases step
  · have unread : Step.read ⟨m, event, next⟩ p = [] := by
      apply read_of_other
      intro u r rest step stack
      exact reads ⟨u, r, rest, step, stack⟩
    have grown := buffered_of_other happens reader.server
      (fun u r rest step stack => reads ⟨u, r, rest, step, stack⟩) other
    rw [unread, List.map_nil, List.append_nil]
    refine ⟨left ++ Step.output ⟨m, event, next⟩ p, yields.append _, fun goesOn => ?_⟩
    rw [grown, ← buffered]
    intro empty
    by_cases own : event.task? = some t
    · cases happens with
      | turned step turned _ _ _ =>
        rw [step] at own
        cases own
        rw [turned.stack] at empty; cases empty
      | started launch started _ =>
        subst launch
        cases own
        rw [started.stack] at empty; cases empty
      | ambient outside _ _ => rw [outside] at own; cases own
    · rw [reader.kept happens own] at goesOn
      exact goesOn empty

end LanguageRelay.Machine
