import LanguageRelay.Proofs.Relay.Errand
namespace LanguageRelay

def Server.isSettled (server : Server) : Bool :=
  server.writer == .stopped || server.writer == .idle && server.queue.isEmpty

namespace Machine

-- What stops a writer: the child has closed its input, the writer was asked to finish, or the server has
-- been seen to its end.
inductive Step.HaltedBy (step : Step) (p : ServerId) : Prop where
  | broken {count} : step.event = .write p count → (step.before.server p).input.reading = false →
      HaltedBy step p
  | finished {count queue} : step.event = .write p count →
      (step.before.server p).queue = .finish :: queue → HaltedBy step p
  | abandoned {t exit rest} : step.event.task? = some t →
      step.before.frames t = .abandon p exit :: rest → HaltedBy step p

structure Step.Halts (step : Step) (p : ServerId) : Prop where
  goes : (step.before.server p).writer ≠ .stopped
  stopped : (step.after.server p).writer = .stopped
  cause : step.HaltedBy p

-- The frame of the message that `p` accepts after the steps `earlier` is complete after the steps
-- `taken`.
def Complete (setup : Setup) (earlier : List Step) (p : ServerId) (message : Message)
    (taken : List Step) : Prop :=
  framesOf ((earlier.filterMap (Step.deed? setup)).filterMap (Deed.acceptedFor? p) ++ [message]) <+:
    taken.flatMap (·.written p)

-- The writer of `p` stops before the frame is complete.
def Swallowed (setup : Setup) (earlier : List Step) (p : ServerId) (message : Message)
    (taken : List Step) : Prop :=
  ∃ first halt later, taken = first ++ halt :: later ∧ halt.Halts p ∧
    ¬ Complete setup earlier p message first

-- The decision leads to what a client may expect: its frame is written, or a word about it goes into the
-- queue of the client.
def Answered (setup : Setup) (taken earlier : List Step) (decision : Step) (t : TaskId)
    (message : Message) : Prop :=
  match decision.before.frames t with
  | .enqueue _ p _ :: _ => Complete setup earlier p message taken
  | .deliver _ (c :: _) _ event :: _ =>
    ((decision.before.connection c).deliver event).1 = .queued
  | _ => False

-- The server swallows the message, or the client has left, or has no room in its queue, or the start of
-- the server broke down.
def Lost (setup : Setup) (taken earlier : List Step) (decision : Step) (t : TaskId)
    (message : Message) : Prop :=
  match decision.before.frames t with
  | .enqueue _ p _ :: _ => Swallowed setup earlier p message taken
  | .deliver _ (c :: _) _ event :: _ =>
    ((decision.before.connection c).deliver event).1 ≠ .queued
  | .notify s c _ :: _ => c ∉ (decision.before.session s).subscribers
  | .spawn _ _ :: _ => True
  | _ => False

variable {m next : Machine} {setup : Setup} {event : Event} {events : List Event} {t : TaskId}
  {s : SessionId} {c : ConnectionId} {p : ServerId} {a : Activity} {message : Message}
  {below : List Activity} {server after : Server} {taken earlier later : List Step} {step : Step}

theorem writer_of_read {output : Output} (read : server.nextOutput = (output, after)) :
    after.writer = server.writer := by
  obtain ⟨_, _, _, rfl⟩ := Server.changes_nextOutput read
  rfl

theorem writer_of_enqueue {command : Command} {accepted : Bool}
    (put : server.enqueue? command = some (accepted, after)) : after.writer = server.writer := by
  obtain ⟨queue, rfl⟩ := Server.changes_enqueue? put
  rfl

theorem Handles.writer (handles : Handles m a p server) :
    server.writer = (m.server p).writer ∨ server.writer = .stopped ∧ ∃ exit, a = .abandon p exit := by
  cases handles with
  | stop | kill => exact .inl rfl
  | finish put | enqueue put => exact .inl (writer_of_enqueue put)
  | abandon => exact .inr ⟨rfl, _, rfl⟩
  | pump read | next read => exact .inl (writer_of_read read)
  | pumpEnd read =>
    have same := writer_of_read read
    exact .inl same

theorem Serves.writer (serves : Serves m event p server) :
    server.writer = (m.server p).writer ∨
      ∃ count, event = .write p count ∧ (m.server p).write? count = some server := by
  cases serves with
  | released | inputCloses | outputCloses => exact .inl rfl
  | @written _ count _ wrote => exact .inr ⟨count, rfl, wrote⟩
  | watched woke =>
    obtain ⟨_, _, _, _, rfl⟩ := Server.changes_watch? woke
    exact .inl rfl
  | childReads read =>
    obtain ⟨input, rfl⟩ := Server.changes_childReads? read
    exact .inl rfl
  | childWrites put =>
    rw [Server.childWrites?_eq put]
    exact .inl rfl
  | childEnds ended =>
    rw [(Server.childEnds?_eq ended).2]
    exact .inl rfl

theorem write_stops {count : Nat} (wrote : server.write? count = some after)
    (stopped : after.writer = .stopped) :
    server.writer ≠ .stopped ∧ after.input.buffered = server.input.buffered ∧
      (server.input.reading = false ∨ ∃ queue, server.queue = .finish :: queue) := by
  unfold Server.write? at wrote
  split at wrote
  · cases wrote
  · cases wrote
  · rename_i writer queue
    cases wrote
    exact ⟨by rw [writer]; simp, rfl, .inr ⟨_, queue⟩⟩
  · cases wrote; cases stopped
  · rename_i writer
    have goes : server.writer ≠ .stopped := by rw [writer]; simp
    split at wrote
    · rename_i closed
      cases wrote
      exact ⟨goes, rfl, .inl (by simpa using closed)⟩
    · split at wrote
      · cases wrote; cases stopped
      · split at wrote <;> cases wrote
        cases stopped

theorem Happens.haltedBy (happens : Happens setup m event next)
    (goes : (m.server p).writer ≠ .stopped) (stopped : (next.server p).writer = .stopped) :
    Step.HaltedBy ⟨m, event, next⟩ p := by
  rcases happens.change p with same | ⟨session, limit, _, begun⟩ |
    ⟨t, a, rest, step, stack, handles⟩ | serves
  · rw [same] at stopped
    exact absurd stopped goes
  · rw [begun] at stopped; cases stopped
  · rcases handles.writer with same | ⟨_, exit, rfl⟩
    · exact absurd (same.symm.trans stopped) goes
    · exact .abandoned step stack
  · rcases serves.writer with same | ⟨count, written, wrote⟩
    · exact absurd (same.symm.trans stopped) goes
    · obtain ⟨_, _, closed | ⟨queue, finish⟩⟩ := write_stops wrote stopped
      · exact .broken written closed
      · exact .finished written finish

theorem Happens.stopped (happens : Happens setup m event next)
    (stopped : (m.server p).writer = .stopped) : (next.server p).writer = .stopped := by
  rcases happens.change p with same | ⟨session, limit, none, _⟩ |
    ⟨t, a, rest, step, stack, handles⟩ | serves
  · rw [same]; exact stopped
  · rw [none] at stopped; cases stopped
  · rcases handles.writer with same | ⟨still, _⟩
    · exact same.trans stopped
    · exact still
  · rcases serves.writer with same | ⟨count, _, wrote⟩
    · exact same.trans stopped
    · simp [Server.write?, stopped] at wrote

theorem Happens.silent (happens : Happens setup m event next)
    (stopped : (next.server p).writer = .stopped) : Step.written ⟨m, event, next⟩ p = [] := by
  cases event with
  | write q count =>
    by_cases here : q = p
    · subst q
      simp only [Step.written, if_true]
      rcases happens.change p with same | ⟨session, limit, _, begun⟩ | ⟨t, a, rest, step, _⟩ | serves
      · rw [same, List.drop_length]
      · rw [begun] at stopped; cases stopped
      · cases step
      · cases serves with
        | written wrote => rw [(write_stops wrote stopped).2.1, List.drop_length]
    · simp [Step.written, here]
  | _ => rfl

-- What a run has done to a writer: once it stopped, nothing more was written.
structure Ceases (now : Machine) (p : ServerId) (taken : List Step) : Prop where
  halted : (now.server p).writer = .stopped → ∃ first halt later, taken = first ++ halt :: later ∧
    halt.Halts p
  after : ∀ first halt later, taken = first ++ halt :: later → halt.Halts p →
    (now.server p).writer = .stopped ∧ taken.flatMap (·.written p) = first.flatMap (·.written p)

theorem Ceases.advance (ceases : Ceases m p taken) (happens : Happens setup m event next) :
    Ceases next p (taken ++ [⟨m, event, next⟩]) := by
  refine ⟨fun stopped => ?_, fun first halt later split halts => ?_⟩
  · by_cases before : (m.server p).writer = .stopped
    · obtain ⟨first, halt, later, rfl, halts⟩ := ceases.halted before
      exact ⟨first, halt, later ++ [⟨m, event, next⟩], by simp, halts⟩
    · exact ⟨taken, _, [], rfl, before, stopped, happens.haltedBy before stopped⟩
  · rcases List.eq_nil_or_concat later with rfl | ⟨middle, last, rfl⟩
    · obtain ⟨rfl, rfl⟩ := List.append_singleton_inj.1 split
      have stopped : (next.server p).writer = .stopped := halts.stopped
      refine ⟨stopped, ?_⟩
      rw [List.flatMap_append, List.flatMap_singleton, happens.silent stopped, List.append_nil]
    · rw [List.concat_eq_append, ← List.cons_append, ← List.append_assoc] at split
      obtain ⟨split, _⟩ := List.append_inj' split rfl
      obtain ⟨before, same⟩ := ceases.after first halt middle split halts
      have stopped := happens.stopped before
      refine ⟨stopped, ?_⟩
      rw [List.flatMap_append, List.flatMap_singleton, happens.silent stopped, List.append_nil, same]

theorem Ceases.runs (ran : initial.runs setup events = some m) (p : ServerId) :
    Ceases m p (initial.steps setup events) := by
  refine sound_initial.induction (motive := fun taken now => Ceases now p taken) ran ?_ ?_
  · refine ⟨fun stopped => (nomatch stopped), fun first halt later split => ?_⟩
    cases first <;> cases split
  · exact fun taken before event after sound moved ceases => ceases.advance (sound.happens moved)

theorem complete_of_settled (ran : initial.runs setup events = some m)
    (settled : (m.server p).isSettled) (goes : (m.server p).writer ≠ .stopped)
    (split : initial.steps setup events = earlier ++ step :: later)
    (accepted : (step.deed? setup).bind (Deed.acceptedFor? p) = some message) :
    Complete setup earlier p message (initial.steps setup events) := by
  have idle : (m.server p).writer = .idle ∧ (m.server p).queue = [] := by
    simpa [Server.isSettled, goes] using settled
  have whole := (Flow.runs ran p).whole goes
  have nothing : (m.server p).backlog = [] := by
    simp [Server.backlog, idle.1, idle.2, Writer.rest]
  rw [nothing, List.append_nil] at whole
  rw [Complete, whole, deeds, split, List.filterMap_append, List.filterMap_append,
    List.filterMap_cons]
  obtain ⟨deed, made, own⟩ := Option.bind_eq_some_iff.1 accepted
  simp only [made, List.filterMap_cons, own, framesOf, List.flatMap_append, List.flatMap_cons,
    List.flatMap_nil, List.append_nil]
  rw [← List.append_assoc]
  exact List.prefix_append _ _

-- The frame of an accepted message is complete unless the writer stopped first.
theorem complete_iff (ran : initial.runs setup events = some m) (settled : (m.server p).isSettled)
    (split : initial.steps setup events = earlier ++ step :: later)
    (accepted : (step.deed? setup).bind (Deed.acceptedFor? p) = some message) :
    Complete setup earlier p message (initial.steps setup events) ↔
      ¬ Swallowed setup earlier p message (initial.steps setup events) := by
  have ceases := Ceases.runs ran p
  refine ⟨fun complete ⟨first, halt, later, cut, halts, missing⟩ => ?_, fun kept => ?_⟩
  · rw [Complete, (ceases.after first halt later cut halts).2] at complete
    exact missing complete
  · by_cases stopped : (m.server p).writer = .stopped
    · obtain ⟨first, halt, later, cut, halts⟩ := ceases.halted stopped
      rw [Complete, (ceases.after first halt later cut halts).2]
      exact Classical.byContradiction fun missing => kept ⟨first, halt, later, cut, halts, missing⟩
    · exact complete_of_settled ran settled stopped split accepted

theorem Passage.decision {original : Message} {decision : Step}
    (passage : Passage setup initial events m t (.route s c original :: below))
    (member : decision ∈ passage.decisions) : ∃ earlier later,
      initial.steps setup events = earlier ++ decision :: later ∧
      (initial.steps setup passage.first).length < earlier.length ∧
      decision.event.task? = some t := by
  obtain ⟨inside, decides⟩ := List.mem_filter.1 member
  have later := (List.takeWhile_sublist _).subset inside
  obtain ⟨during, later, split⟩ := List.append_of_mem later
  refine ⟨initial.steps setup passage.first ++ ⟨passage.before, passage.event, passage.after⟩ :: during,
    later, (congrArg (initial.steps setup) passage.split).trans ?_, by simp, ?_⟩
  · rw [steps_append passage.reached, steps, passage.moved]
    simp [split]
  · simp only [Step.decides, Bool.and_eq_true, beq_iff_eq] at decides
    exact decides.1

-- Whoever routes a message that the listeners leave may expect its frame or a word about it, and gets one
-- of the two unless the message is lost.
theorem answered_iff {original : Message} (ran : initial.runs setup events = some m)
    (quiet : m.isQuiet) (settled : ∀ p, (m.server p).isSettled)
    (passage : Passage setup initial events m t (.route s c original :: below))
    (kept : passed setup (passage.before.session s).key original = some message) :
    ∃ earlier decision later, initial.steps setup events = earlier ++ decision :: later ∧
      (initial.steps setup passage.first).length < earlier.length ∧
      passage.decisions = [decision] ∧ decision.Decides t s c message ∧
      (Answered setup (initial.steps setup events) earlier decision t message ↔
        ¬ Lost setup (initial.steps setup events) earlier decision t message) := by
  obtain ⟨decision, decided, decides⟩ := passage.decides kept quiet
  obtain ⟨earlier, later, split, behind, step⟩ :=
    passage.decision (decided ▸ List.mem_singleton_self decision)
  refine ⟨earlier, decision, later, split, behind, decided, decides, ?_⟩
  cases decides with
  | @taken p rest after stack put own =>
    have accepted : (decision.deed? setup).bind (Deed.acceptedFor? p) = some message := by
      rw [show decision.deed? setup = _ from deed_of_enqueue step stack, put]
      simp [Deed.acceptedFor?]
    simp only [Answered, Lost, stack]
    exact complete_iff ran (settled p) split accepted
  | told stack =>
    simp only [Answered, Lost, stack]
    exact Classical.not_not.symm
  | unheard stack left =>
    simp only [Answered, Lost, stack]
    exact ⟨False.elim, fun stays => stays left⟩
  | broke stack =>
    simp only [Answered, Lost, stack]
    exact ⟨False.elim, fun stays => stays trivial⟩

-- A child closes its input while the only message for it waits in the queue. Then the child ends.
def closedInput : List Event :=
  ([.connect 8, .call (.subscribe "k" 0)] : List Event) ++ (.replicate 11 (.run 0) : List Event) ++
    ([.launch 0 none] : List Event) ++ (.replicate 5 (.run 0) : List Event) ++
    ([.call (.route "k" 0 ⟨"{}"⟩)] : List Event) ++ (.replicate 8 (.run 3) : List Event) ++
    ([.inputCloses 0, .write 0 1, .write 0 1, .outputCloses 0, .run 1, .childEnds 0 (some 0),
      .watch 0 .childEnded] : List Event) ++ (.replicate 7 (.run 2) : List Event)

theorem runs_closedInput : ∃ m,
    ∃ passage : Passage oneKey initial closedInput m 3 [.route 0 0 ⟨"{}"⟩],
    initial.runs oneKey closedInput = some m ∧ m.isQuiet ∧ (∀ p, (m.server p).isSettled) ∧
    passed oneKey (passage.before.session 0).key ⟨"{}"⟩ = some ⟨"{}"⟩ ∧
    0 ∈ (passage.before.session 0).subscribers ∧ (passage.before.connection 0).queue.length < 8 ∧
    passage.decisions.map (·.before.frames 3) = [[.enqueue (.client 0 0) 0 ⟨"{}"⟩]] ∧
    m.servers.length = 1 ∧ (m.session 0).subscribers = [0] ∧
    (m.connection 0).queue = [.status ⟨"k", .starting, none, none⟩,
      .status ⟨"k", .running, none, none⟩, .status ⟨"k", .stopped, some 0, none⟩] := by
  obtain ⟨before, reached, start⟩ := Option.map_eq_some_iff.1 (show
    (initial.runs oneKey (closedInput.take 24)).map (fun m => (m.frames 3, (m.session 0).key,
      (m.session 0).subscribers, (m.connection 0).queue.length)) =
      some ([.route 0 0 ⟨"{}"⟩], "k", [0], 2) by rfl)
  obtain ⟨after, passes, decides⟩ := Option.map_eq_some_iff.1 (show
    (initial.runs oneKey (closedInput.take 24 ++ [.run 3])).map (fun m =>
      ((errand 3 [] (m.steps oneKey (closedInput.drop 25))).filter (Step.decides 3)).map
        (·.before.frames 3)) = some [[.enqueue (.client 0 0) 0 ⟨"{}"⟩]] by rfl)
  obtain ⟨m, ran, ends⟩ := Option.map_eq_some_iff.1 (show (initial.runs oneKey closedInput).map
    (fun m => (m.isQuiet, m.servers.all Server.isSettled, m.servers.length, (m.session 0).subscribers,
      (m.connection 0).queue)) = some (true, true, 1, [0], [.status ⟨"k", .starting, none, none⟩,
      .status ⟨"k", .running, none, none⟩, .status ⟨"k", .stopped, some 0, none⟩]) by rfl)
  simp only [Prod.mk.injEq] at start ends
  obtain ⟨stack, key, subscribed, room⟩ := start
  obtain ⟨quiet, settled, alone, still, queue⟩ := ends
  obtain ⟨again, first, moved⟩ := runs_concat passes
  cases reached.symm.trans first
  have cut : closedInput = (closedInput.take 24 ++ [.run 3]) ++ closedInput.drop 25 := rfl
  have onward := ran
  rw [cut, runs_append, passes, Option.bind_some] at onward
  have every : ∀ p, (m.server p).isSettled := by
    intro p
    by_cases there : p < m.servers.length
    · rw [Machine.server, List.getD_eq_getElem?_getD, List.getElem?_eq_getElem there]
      exact List.all_eq_true.1 settled _ (List.getElem_mem there)
    · rw [server_of_length_le (Nat.le_of_not_lt there)]; rfl
  refine ⟨m, ⟨_, before, .run 3, after, closedInput.drop 25, rfl, reached, stack, rfl, moved, onward⟩,
    ran, quiet, every, ?_, ?_, ?_, decides, alone, still, queue⟩
  · show passed oneKey (before.session 0).key ⟨"{}"⟩ = some ⟨"{}"⟩
    rw [key]; rfl
  · show 0 ∈ (before.session 0).subscribers
    rw [subscribed]; exact List.mem_singleton_self 0
  · show (before.connection 0).queue.length < 8
    rw [room]; decide

theorem written_closedInput : (initial.steps oneKey closedInput).flatMap (·.written 0) = [] := by decide

-- A message is routed by a subscriber whose queue has room, and nothing is written and nobody is told.
theorem silence_after_closed_input : ∃ m,
    ∃ passage : Passage oneKey initial closedInput m 3 [.route 0 0 ⟨"{}"⟩],
    initial.runs oneKey closedInput = some m ∧ m.isQuiet ∧ (∀ p, (m.server p).isSettled) ∧
    passed oneKey (passage.before.session 0).key ⟨"{}"⟩ = some ⟨"{}"⟩ ∧
    0 ∈ (passage.before.session 0).subscribers ∧ (passage.before.connection 0).queue.length < 8 ∧
    0 ∈ (m.session 0).subscribers ∧ m.servers.length = 1 ∧
    (initial.steps oneKey closedInput).flatMap (·.written 0) = [] ∧
    (∀ c, .receive c ∉ closedInput ∧ .hangUp c ∉ closedInput) ∧
    ∀ event ∈ (m.connection 0).queue, event.isReport = false := by
  obtain ⟨m, passage, ran, quiet, settled, kept, subscribed, room, _, alone, still, queue⟩ :=
    runs_closedInput
  refine ⟨m, passage, ran, quiet, settled, kept, subscribed, room, ?_, alone, written_closedInput,
    ?_, ?_⟩
  · rw [still]; exact List.mem_singleton_self 0
  · intro c; simp [closedInput]
  · rw [queue]; simp [ClientEvent.isReport]

theorem lost_after_closed_input : ∃ m,
    ∃ passage : Passage oneKey initial closedInput m 3 [.route 0 0 ⟨"{}"⟩],
    initial.runs oneKey closedInput = some m ∧ m.isQuiet ∧ (∀ p, (m.server p).isSettled) ∧
    passed oneKey (passage.before.session 0).key ⟨"{}"⟩ = some ⟨"{}"⟩ ∧
    ∃ earlier decision, passage.decisions = [decision] ∧
      Lost oneKey (initial.steps oneKey closedInput) earlier decision 3 ⟨"{}"⟩ := by
  obtain ⟨m, passage, ran, quiet, settled, kept, _, _, decides, _⟩ := runs_closedInput
  obtain ⟨earlier, decision, later, _, _, decided, _, law⟩ := answered_iff ran quiet settled passage kept
  refine ⟨m, passage, ran, quiet, settled, kept, earlier, decision, decided,
    Classical.not_not.1 fun kept => ?_⟩
  have stack : decision.before.frames 3 = [.enqueue (.client 0 0) 0 ⟨"{}"⟩] := by
    rw [decided] at decides
    exact List.singleton_inj.1 decides
  have complete := law.2 kept
  simp only [Answered, stack, Complete, written_closedInput, List.prefix_nil] at complete
  have empty : Text.utf8 "{}" = [] := by simp_all [framesOf, Frame.encode]
  cases empty

end Machine
end LanguageRelay
