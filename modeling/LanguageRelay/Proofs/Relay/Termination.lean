import LanguageRelay.Proofs.Relay.Bookkeeping
import LanguageRelay.Proofs.Relay.Clock
import LanguageRelay.Proofs.Relay.Detached
import LanguageRelay.Proofs.Relay.Handover
namespace LanguageRelay

namespace Server
variable {server after : Server} {clock : Nat} {wake : Wake}

-- What wakes a watcher, and what it does then.
inductive Rouses (server : Server) (clock : Nat) : Wake → Server → Prop where
  | records {code} : server.child = .ended code → server.watcher ≠ .finished →
      Rouses server clock .childEnded (server.record code)
  | obeys : server.watcher = .waiting → server.killRequested →
      Rouses server clock .killRequested { server with stopRequested := true }.kill
  | waits : server.watcher = .waiting → server.broken →
      Rouses server clock .pipeBroken { server with watcher := .patient (clock + patience) }
  | losesPatience {deadline} : server.watcher = .patient deadline → deadline ≤ clock →
      Rouses server clock .timeUp server.kill

theorem rouses_of_watch? (woke : server.watch? clock wake = some after) :
    server.Rouses clock wake after := by
  unfold watch? at woke
  split at woke
  · cases woke
    exact .records ‹_› (by simp_all)
  · split at woke <;> cases woke
    exact .obeys ‹_› ‹_›
  · split at woke <;> cases woke
    exact .waits ‹_› ‹_›
  · cases woke
    exact .records ‹_› (by simp_all)
  · split at woke <;> cases woke
    exact .losesPatience ‹_› ‹_›
  · cases woke
    exact .records ‹_› (by simp_all)
  · cases woke

theorem broken_of_write? {count : Nat} (wrote : server.write? count = some after) :
    after.broken = server.broken ∨ server.input.reading = false ∧ after.broken = true := by
  unfold write? at wrote
  split at wrote
  · cases wrote
  · cases wrote
  · cases wrote; exact .inl rfl
  · cases wrote; exact .inl rfl
  · split at wrote
    · rename_i closed
      cases wrote
      exact .inr ⟨by simpa using closed, rfl⟩
    · split at wrote
      · cases wrote; exact .inl rfl
      · split at wrote <;> cases wrote
        exact .inl rfl

theorem broken_of_nextOutput {output : Output} (read : server.nextOutput = (output, after)) :
    after.broken = server.broken ∨ output = .ended ∧ after.broken = true := by
  unfold nextOutput at read
  split at read
  · cases read; exact .inl rfl
  · split at read
    · cases read; exact .inl rfl
    · cases read; exact .inr ⟨rfl, rfl⟩
    · split at read <;> cases read
      · exact .inl rfl
      · exact .inr ⟨rfl, rfl⟩

-- A watcher waits patiently only for a broken server, and nobody is killed as long as it waits.
structure IsLenient (server : Server) : Prop where
  waiting : server.watcher = .waiting → server.killed = false
  patient : ∀ deadline, server.watcher = .patient deadline → server.broken ∧ server.killed = false

theorem Rouses.isLenient (rouses : server.Rouses clock wake after) (lenient : server.IsLenient) :
    after.IsLenient := by
  cases rouses with
  | records | obeys | losesPatience => exact ⟨nofun, nofun⟩
  | waits waiting broken => exact ⟨nofun, fun _ _ => ⟨broken, lenient.waiting waiting⟩⟩

end Server

def Activity.grants (grace due : Nat) : Activity → Prop
  | .stop _ given | .askToFinish _ given _ => given = grace
  | .awaitEnd _ deadline => due ≤ deadline
  | _ => True

namespace Machine

namespace Step

def Kills (step : Step) (p : ServerId) : Prop :=
  (step.before.server p).killed = false ∧ (step.after.server p).killed = true

def Breaks (step : Step) (p : ServerId) : Prop :=
  (step.before.server p).broken = false ∧ (step.after.server p).broken = true

instance (step : Step) (p : ServerId) : Decidable (step.Kills p) := inferInstanceAs (Decidable (_ ∧ _))

instance (step : Step) (p : ServerId) : Decidable (step.Breaks p) :=
  inferInstanceAs (Decidable (_ ∧ _))

def LosesPatience (step : Step) (p : ServerId) : Prop := step.event = .watch p .timeUp

-- The writer finds that the child has closed its input, or a task that its output is at an end.
inductive FindsEnd (step : Step) (p : ServerId) : Prop where
  | input {count} : step.event = .write p count → (step.before.server p).input.reading = false →
      FindsEnd step p
  | output {t f} : step.Performs t f → f = .next p ∨ (∃ s, f = .pump s p) →
      (step.before.server p).nextOutput.1 = .ended → FindsEnd step p

-- What a step does to a server that may have its child killed.
inductive Troubles (step : Step) (p : ServerId) : Prop where
  | leaves : (step.after.server p).watcher = (step.before.server p).watcher →
      (step.after.server p).killed = (step.before.server p).killed →
      (step.after.server p).broken = (step.before.server p).broken ∨
        step.FindsEnd p ∧ (step.after.server p).broken = true → Troubles step p
  | wakes {wake} : step.event = .watch p wake →
      (step.before.server p).Rouses step.before.clock wake (step.after.server p) → Troubles step p

end Step

-- In one of the steps, at a time between the two, a pipe of the server breaks because its end is found.
def BreaksBetween (taken : List Step) (p : ServerId) (start limit : Nat) : Prop :=
  ∃ step ∈ taken, step.Breaks p ∧ step.FindsEnd p ∧
    start ≤ step.before.clock ∧ step.before.clock ≤ limit

-- The child of the server is not killed before the deadline in any of the steps.
def SparesUntil (taken : List Step) (p : ServerId) (deadline : Nat) : Prop :=
  ∀ step ∈ taken, step.Kills p → deadline ≤ step.before.clock

instance (taken : List Step) (p : ServerId) (deadline : Nat) : Decidable (SparesUntil taken p deadline) :=
  inferInstanceAs (Decidable (∀ step ∈ taken, _))

-- What is known of a server since it was to be stopped, at the time `start`, with its pipes intact. Its exit is
-- on record, or the task still sees it to its end.
structure Terminating (p : ServerId) (t : TaskId) (rest : List Activity) (start grace : Nat)
    (taken : List Step) (now : Machine) : Prop where
  onward : start ≤ now.clock
  phase : (∃ exit, (now.server p).exit = some exit) ∨
    ∃ f, now.InHand p t f rest ∧ f.grants grace (start + grace) ∧
      ((now.server p).killRequested → start + grace ≤ now.clock)
  broken : (now.server p).broken → BreaksBetween taken p start now.clock
  patient : ∀ deadline, (now.server p).watcher = .patient deadline →
    ∃ limit, BreaksBetween taken p start limit ∧ limit + Server.patience ≤ deadline
  kills : ∀ step ∈ taken, step.Kills p →
    start + grace ≤ step.before.clock ∨ step.LosesPatience p
  impatient : ∀ step ∈ taken, step.LosesPatience p → step.Kills p ∧
    ∃ limit, BreaksBetween taken p start limit ∧ limit + Server.patience ≤ step.before.clock

variable {m made next : Machine} {setup : Setup} {event : Event} {events more : List Event}
  {t : TaskId} {p : ServerId} {a f g : Activity} {rest new : List Activity} {taken : List Step}
  {start limit grace : Nat} {server : Server}

theorem Handles.troubles (handles : Handles m a p server) :
    server.watcher = (m.server p).watcher ∧ server.killed = (m.server p).killed ∧
    (server.broken = (m.server p).broken ∨ (a = .next p ∨ ∃ s, a = .pump s p) ∧
      (m.server p).nextOutput.1 = .ended ∧ server.broken = true) := by
  cases handles with
  | stop | kill | abandon => exact ⟨rfl, rfl, .inl rfl⟩
  | finish put | enqueue put =>
    obtain ⟨queue, rfl⟩ := Server.changes_enqueue? put
    exact ⟨rfl, rfl, .inl rfl⟩
  | next read =>
    have broken := Server.broken_of_nextOutput read
    obtain ⟨_, _, _, rfl⟩ := Server.changes_nextOutput read
    exact ⟨rfl, rfl, broken.imp_right fun ⟨ended, after⟩ => ⟨.inl rfl, by rw [read, ended], after⟩⟩
  | pump read | pumpEnd read =>
    have broken := Server.broken_of_nextOutput read
    obtain ⟨_, _, _, rfl⟩ := Server.changes_nextOutput read
    exact ⟨rfl, rfl, broken.imp_right fun ⟨ended, after⟩ => ⟨.inr ⟨_, rfl⟩, by rw [read, ended], after⟩⟩

theorem Serves.troubles (serves : Serves m event p (next.server p)) :
    Step.Troubles ⟨m, event, next⟩ p := by
  generalize here : next.server p = server at serves
  have quiet : server.watcher = (m.server p).watcher → server.killed = (m.server p).killed →
      (server.broken = (m.server p).broken ∨
        Step.FindsEnd ⟨m, event, next⟩ p ∧ server.broken = true) →
      Step.Troubles ⟨m, event, next⟩ p := by
    subst server
    exact fun watcher killed broken => .leaves watcher killed broken
  cases serves with
  | released | inputCloses | outputCloses => exact quiet rfl rfl (.inl rfl)
  | watched woke =>
    subst server
    exact .wakes rfl (Server.rouses_of_watch? woke)
  | written wrote =>
    have broken := Server.broken_of_write? wrote
    obtain ⟨_, _, _, _, rfl⟩ := Server.changes_write? wrote
    exact quiet rfl rfl (broken.imp_right fun ⟨closed, after⟩ => ⟨.input rfl closed, after⟩)
  | childReads read =>
    obtain ⟨input, rfl⟩ := Server.changes_childReads? read
    exact quiet rfl rfl (.inl rfl)
  | childWrites put =>
    rw [Server.childWrites?_eq put] at quiet
    exact quiet rfl rfl (.inl rfl)
  | childEnds ended =>
    rw [(Server.childEnds?_eq ended).2] at quiet
    exact quiet rfl rfl (.inl rfl)

theorem Happens.troubles (happens : Happens setup m event next) (p : ServerId) :
    Step.Troubles ⟨m, event, next⟩ p := by
  rcases happens.change p with
    same | ⟨session, limit, fresh, started⟩ | ⟨t, a, rest, step, stack, handles⟩ | serves
  · exact .leaves (congrArg Server.watcher same) (congrArg Server.killed same)
      (.inl (congrArg Server.broken same))
  · have same : ∀ {α : Type} (g : Server → α), g (Server.start session limit) = g default →
        g (next.server p) = g (m.server p) := fun g same => by rw [fresh, started, same]
    exact .leaves (same Server.watcher rfl) (same Server.killed rfl) (.inl (same Server.broken rfl))
  · obtain ⟨watcher, killed, broken⟩ := handles.troubles
    refine .leaves watcher killed (broken.imp_right fun ⟨reads, ended, after⟩ => ⟨?_, after⟩)
    exact .output ⟨step, rest, stack⟩ reads ended
  · exact serves.troubles

theorem Step.Troubles.isLenient {step : Step} (troubles : step.Troubles p)
    (lenient : (step.before.server p).IsLenient) : (step.after.server p).IsLenient := by
  cases troubles with
  | leaves watcher killed broken =>
    refine ⟨fun waiting => killed.trans (lenient.waiting (watcher ▸ waiting)), fun deadline patient => ?_⟩
    obtain ⟨before, unkilled⟩ := lenient.patient deadline (watcher ▸ patient)
    refine ⟨?_, killed.trans unkilled⟩
    rcases broken with same | ⟨_, after⟩
    · exact same.trans before
    · exact after
  | wakes _ rouses => exact rouses.isLenient lenient

theorem Step.Troubles.findsEnd {step : Step} (troubles : step.Troubles p) (breaks : step.Breaks p) :
    step.FindsEnd p := by
  obtain ⟨whole, broken⟩ := breaks
  cases troubles with
  | leaves _ _ how =>
    rcases how with same | ⟨finds, _⟩
    · rw [same, whole] at broken; cases broken
    · exact finds
  | wakes _ rouses =>
    have same : (step.after.server p).broken = (step.before.server p).broken := by
      generalize step.after.server p = after at rouses
      cases rouses <;> rfl
    rw [same, whole] at broken; cases broken

theorem lenient_of_runs (ran : initial.runs setup events = some m) (p : ServerId) :
    (m.server p).IsLenient :=
  sound_initial.induction (motive := fun _ now => (now.server p).IsLenient) ran ⟨fun _ => rfl, nofun⟩
    fun _ _ _ _ sound moved lenient => ((sound.happens moved).troubles p).isLenient lenient

theorem Nears.grants (nears : Nears m p f g) (grants : f.grants grace (start + grace))
    (onward : start ≤ m.clock) : g.grants grace (start + grace) := by
  cases nears with
  | asks => exact grants
  | waits =>
    cases grants
    exact Nat.add_le_add_right onward grace
  | givesUp => trivial

theorem BreaksBetween.later (breaks : BreaksBetween taken p start limit) (more : List Step)
    {late : Nat} (onward : limit ≤ late) : BreaksBetween (taken ++ more) p start late := by
  obtain ⟨step, member, breaks, finds, after, before⟩ := breaks
  exact ⟨step, List.mem_append_left _ member, breaks, finds, after, Nat.le_trans before onward⟩

theorem Terminating.phase_next (terminating : Terminating p t rest start grace taken m) (watched : Watched m)
    (sound : Sound m) (moved : m.advance setup event = some next) (other : ¬ event.disposes p) :
    (∃ exit, (next.server p).exit = some exit) ∨
    ∃ f, next.InHand p t f rest ∧ f.grants grace (start + grace) ∧
      ((next.server p).killRequested → start + grace ≤ next.clock) := by
  have happens := sound.happens moved
  have kept := (endures_advance watched.recorded happens p).kept
  have later := clock_le moved
  rcases terminating.phase with ⟨exit, ended⟩ | ⟨f, hand, grants, asked⟩
  · exact .inl ⟨exit, kept exit ended⟩
  rcases hand.advance sound moved other with ⟨away, still⟩ | ⟨step, ⟨g, nears, still⟩ | ⟨exit, ended, _⟩⟩
  · refine .inr ⟨f, still, grants, fun yes => ?_⟩
    rcases hand.asked_next happens other yes with before | ⟨step, _⟩
    · exact Nat.le_trans (asked before) later
    · exact absurd step away
  · refine .inr ⟨g, still, nears.grants grants terminating.onward, fun yes => ?_⟩
    rcases hand.asked_next happens other yes with before | ⟨_, deadline, rfl⟩
    · exact Nat.le_trans (asked before) later
    -- The task asks for the kill when its wait is over, and the wait has been given the whole grace.
    · cases nears with
      | givesUp due => exact Nat.le_trans grants (Nat.le_trans due later)
  · exact .inl ⟨exit, kept exit ended⟩

theorem Terminating.broken_next (terminating : Terminating p t rest start grace taken m)
    (troubles : Step.Troubles ⟨m, event, next⟩ p) (later : m.clock ≤ next.clock)
    (broken : (next.server p).broken) :
    BreaksBetween (taken ++ [⟨m, event, next⟩]) p start next.clock := by
  by_cases before : (m.server p).broken
  · exact (terminating.broken before).later _ later
  · have breaks : Step.Breaks ⟨m, event, next⟩ p := ⟨Bool.eq_false_iff.2 before, broken⟩
    exact ⟨⟨m, event, next⟩, by simp, breaks, troubles.findsEnd breaks, terminating.onward, later⟩

theorem Terminating.patient_next (terminating : Terminating p t rest start grace taken m)
    (troubles : Step.Troubles ⟨m, event, next⟩ p) {deadline : Nat}
    (patient : (next.server p).watcher = .patient deadline) :
    ∃ limit, BreaksBetween taken p start limit ∧ limit + Server.patience ≤ deadline := by
  cases troubles with
  | leaves watcher => exact terminating.patient deadline (watcher ▸ patient)
  | wakes _ rouses =>
    dsimp only at rouses
    generalize next.server p = after at rouses patient
    cases rouses with
    | records | obeys | losesPatience => cases patient
    | waits _ broken =>
      cases patient
      exact ⟨m.clock, terminating.broken broken, Nat.le_refl _⟩

theorem Terminating.kills_next (terminating : Terminating p t rest start grace taken m)
    (watched : Watched m) (troubles : Step.Troubles ⟨m, event, next⟩ p)
    (kills : Step.Kills ⟨m, event, next⟩ p) :
    start + grace ≤ m.clock ∨ Step.LosesPatience ⟨m, event, next⟩ p := by
  obtain ⟨alive, dead⟩ := kills
  cases troubles with
  | leaves _ same => cases alive.symm.trans (same.symm.trans dead)
  | wakes wakes rouses =>
    dsimp only at rouses alive dead
    generalize next.server p = after at rouses dead
    cases rouses with
    | records | waits => cases alive.symm.trans dead
    | losesPatience => exact .inr wakes
    | obeys waiting asked =>
      rcases terminating.phase with ⟨exit, ended⟩ | ⟨f, _, _, due⟩
      · cases waiting.symm.trans (watched.recorded p exit ended).1
      · exact .inl (due asked)

theorem Terminating.impatient_next (terminating : Terminating p t rest start grace taken m)
    (lenient : (m.server p).IsLenient) (moved : m.advance setup (.watch p .timeUp) = some next) :
    Step.Kills ⟨m, .watch p .timeUp, next⟩ p ∧
    ∃ limit, BreaksBetween taken p start limit ∧ limit + Server.patience ≤ m.clock := by
  have rouses := Server.rouses_of_watch? (watch?_of_advance moved)
  unfold Step.Kills
  dsimp only
  generalize next.server p = after at rouses
  cases rouses with
  | losesPatience patient due =>
    obtain ⟨limit, breaks, early⟩ := terminating.patient _ patient
    exact ⟨⟨(lenient.patient _ patient).2, rfl⟩, limit, breaks, Nat.le_trans early due⟩

theorem Terminating.advance (terminating : Terminating p t rest start grace taken m)
    (watched : Watched m) (lenient : (m.server p).IsLenient) (sound : Sound m)
    (moved : m.advance setup event = some next) (other : ¬ event.disposes p) :
    Terminating p t rest start grace (taken ++ [⟨m, event, next⟩]) next := by
  have troubles := (sound.happens moved).troubles p
  have more : ∀ {limit : Nat}, BreaksBetween taken p start limit →
      BreaksBetween (taken ++ [⟨m, event, next⟩]) p start limit :=
    fun breaks => breaks.later _ (Nat.le_refl _)
  refine ⟨Nat.le_trans terminating.onward (clock_le moved),
    terminating.phase_next watched sound moved other,
    terminating.broken_next troubles (clock_le moved),
    fun deadline patient => ?_, fun step member kills => ?_, fun step member loses => ?_⟩
  · obtain ⟨limit, breaks, early⟩ := terminating.patient_next troubles patient
    exact ⟨limit, more breaks, early⟩
  · rcases List.mem_append.1 member with before | last
    · exact terminating.kills step before kills
    · cases List.mem_singleton.1 last
      exact terminating.kills_next watched troubles kills
  · rcases List.mem_append.1 member with before | last
    · obtain ⟨kills, limit, breaks, early⟩ := terminating.impatient step before loses
      exact ⟨kills, limit, more breaks, early⟩
    · cases List.mem_singleton.1 last
      cases loses
      obtain ⟨kills, limit, breaks, early⟩ := terminating.impatient_next lenient moved
      exact ⟨kills, limit, more breaks, early⟩

theorem InHand.terminating (hand : m.InHand p t (.stop p grace) rest)
    (lenient : (m.server p).IsLenient) (intact : (m.server p).broken = false) :
    Terminating p t rest m.clock grace [] m := by
  refine ⟨Nat.le_refl _, .inr ⟨_, hand, rfl, fun asked => ?_⟩, fun broken => ?_,
    fun deadline patient => ?_, fun step member => ?_, fun step member => ?_⟩
  · cases hand.asked asked
  · cases intact.symm.trans broken
  · cases intact.symm.trans (lenient.patient deadline patient).1
  · cases member
  · cases member

theorem Terminating.runs (ran : initial.runs setup events = some m)
    (stack : m.frames t = .stop p grace :: rest) (intact : (m.server p).broken = false)
    (onward : m.runs setup more = some next) (exclusive : next.Exclusive (events ++ more) p) :
    Terminating p t rest m.clock grace (m.steps setup more) next := by
  obtain ⟨hand, others⟩ := inHand_of_finishing ran stack rfl onward exclusive
  -- The induction is on what has happened since, each event of which leaves the server to the task.
  clear exclusive
  induction more using List.reverseRecOn generalizing next with
  | nil => cases onward; exact hand.terminating (lenient_of_runs ran p) intact
  | append_singleton more event ih =>
    obtain ⟨made, first, moved⟩ := runs_concat onward
    have whole : initial.runs setup (events ++ more) = some made := by
      rw [runs_append, ran]; exact first
    have before := ih first fun other member => others other (List.mem_append_left _ member)
    rw [steps_concat first moved]
    exact before.advance (Booked.runs whole p).1 (lenient_of_runs whole p) (sound_initial.runs whole)
      moved (others event (by simp))

-- A watcher that finds a pipe broken kills the child when the time is up, if the child does not end first.
theorem exists_kill_of_broken (setup : Setup) (lenient : (m.server p).IsLenient) (broken : (m.server p).broken)
    (waiting : (m.server p).watcher = .waiting) (alive : (m.server p).child = .alive) :
    ∃ made next, m.runs setup [.watch p .pipeBroken, .tick Server.patience] = some made ∧
      made.clock = m.clock + Server.patience ∧ made.advance setup (.watch p .timeUp) = some next ∧
      Step.Kills ⟨made, .watch p .timeUp, next⟩ p := by
  have there : p < m.servers.length := by
    by_contra beyond
    rw [server_of_length_le (Nat.le_of_not_lt beyond)] at broken
    cases broken
  let patient : Server := { m.server p with watcher := .patient (m.clock + Server.patience) }
  have woke : (m.server p).watch? m.clock .pipeBroken = some patient := by
    simp [Server.watch?, waiting, broken, patient]
  let made : Machine := { m.setServer p patient with clock := m.clock + Server.patience }
  have now : made.server p = patient := server_setServer there patient
  have late : (made.server p).watch? made.clock .timeUp = some patient.kill := by
    rw [now]
    simp [Server.watch?, patient, alive, made]
  have still : p < made.servers.length := by simpa [made, setServer] using there
  have reached : m.runs setup [.watch p .pipeBroken, .tick Server.patience] = some made := by
    rw [runs, advance_watch there woke]; rfl
  have kills : Step.Kills ⟨made, .watch p .timeUp, made.setServer p patient.kill⟩ p := by
    refine ⟨(congrArg Server.killed now).trans (lenient.waiting waiting), ?_⟩
    exact congrArg Server.killed (server_setServer still patient.kill)
  exact ⟨made, made.setServer p patient.kill, reached, rfl, advance_watch still late, kills⟩

-- The watcher finds a pipe broken, and its time runs out.
def lapse (p : ServerId) : List Event :=
  [.watch p .pipeBroken, .tick Server.patience, .watch p .timeUp]

-- A server is to be stopped while its pipes are intact, and nobody else disposes of it. Its child is not
-- killed before the grace is over exactly if its watcher does not lose patience before. That takes a pipe whose
-- end has been found since, and the watcher's own time from then on; so the child is never killed before the
-- shorter of the two. A pipe that is found broken while more than that time is left can cost the child the
-- rest of its grace. The task goes on only when the exit of the server is on record.
theorem grace_honoured_iff (ran : initial.runs setup events = some m)
    (stack : m.frames t = .stop p grace :: rest) (intact : (m.server p).broken = false)
    (onward : m.runs setup more = some next) (exclusive : next.Exclusive (events ++ more) p) :
    (SparesUntil (m.steps setup more) p (m.clock + grace) ↔
      ∀ step ∈ m.steps setup more, step.LosesPatience p → m.clock + grace ≤ step.before.clock) ∧
    (∀ step ∈ m.steps setup more, step.LosesPatience p → ∃ limit,
      BreaksBetween (m.steps setup more) p m.clock limit ∧
        limit + Server.patience ≤ step.before.clock) ∧
    SparesUntil (m.steps setup more) p (m.clock + min grace Server.patience) ∧
    ((next.server p).broken → (next.server p).watcher = .waiting →
      (next.server p).child = .alive → next.clock + Server.patience < m.clock + grace →
      (m.runs setup (more ++ lapse p)).isSome ∧
        ¬ SparesUntil (m.steps setup (more ++ lapse p)) p (m.clock + grace)) ∧
    ((∃ f, next.frames t = f :: rest ∧ f.role = .finishing p) ∨
      ∃ exit, (next.server p).exit = some exit ∧ (next.server p).child = .ended exit.code) := by
  have terminating := Terminating.runs ran stack intact onward exclusive
  have whole : initial.runs setup (events ++ more) = some next := by
    rw [runs_append, ran]; exact onward
  refine ⟨⟨fun spares step member loses => ?_, fun patient step member kills => ?_⟩,
    fun step member loses => (terminating.impatient step member loses).2, fun step member kills => ?_,
    fun broken waiting alive early => ?_, ?_⟩
  · exact spares step member (terminating.impatient step member loses).1
  · rcases terminating.kills step member kills with due | loses
    · exact due
    · exact patient step member loses
  · rcases terminating.kills step member kills with due | loses
    · have least := Nat.min_le_left grace Server.patience
      omega
    · obtain ⟨_, limit, ⟨_, _, _, _, after, before⟩, late⟩ := terminating.impatient step member loses
      have least := Nat.min_le_right grace Server.patience
      omega
  · obtain ⟨made, last, waits, clock, moved, kills⟩ :=
      exists_kill_of_broken setup (lenient_of_runs whole p) broken waiting alive
    have reached : m.runs setup (more ++ [.watch p .pipeBroken, .tick Server.patience]) = some made := by
      rw [runs_append, onward]; exact waits
    have split : more ++ lapse p =
        (more ++ [.watch p .pipeBroken, .tick Server.patience]) ++ [.watch p .timeUp] := by
      rw [List.append_assoc]; rfl
    rw [split]
    refine ⟨?_, fun spares => ?_⟩
    · rw [runs_append, reached, Option.bind_some, runs_one moved]; rfl
    · have due := spares _ (mem_steps reached moved []) kills
      dsimp only at due
      omega
  · rcases terminating.phase with ⟨exit, ended⟩ | ⟨f, hand, _⟩
    · exact .inr ⟨exit, ended, ((Booked.runs whole p).1.recorded p exit ended).2⟩
    · exact .inl ⟨f, hand.stack, hand.part⟩

-- Closing a session has taken its server out of the slot. The child has two seconds to end.
def dismissal : List Event := heyday ++ [.run 3, .run 3]

-- The child does not care that its input is closed, and is killed when the grace is over.
def stubborn : List Event :=
  [.run 3, .run 3, .write 0 0, .tick 2000, .run 3, .watch 0 .killRequested, .childEnds 0 none,
    .watch 0 .childEnded, .run 3, .run 3]

-- The child sees its input closed and closes its output, but takes its time to end.
def orderly : List Event := [.run 3, .run 3, .write 0 0, .outputCloses 0, .run 1] ++ lapse 0

theorem runs_dismissal : ∃ m rest, initial.runs oneKey dismissal = some m ∧
    m.frames 3 = .stop 0 2000 :: rest ∧ (m.server 0).broken = false ∧ m.clock = 0 ∧
    (m.server 0).input = .new ∧ (m.server 0).output = .new := by
  obtain ⟨m, ran, facts⟩ := Option.map_eq_some_iff.1 (show (initial.runs oneKey dismissal).map
    (fun m => ((m.frames 3).head?, (m.server 0).broken, m.clock, (m.server 0).input,
      (m.server 0).output)) = some (some (.stop 0 2000), false, 0, .new, .new) by rfl)
  simp only [Prod.mk.injEq, List.head?_eq_some_iff] at facts
  obtain ⟨⟨rest, stack⟩, intact, clock, input, output⟩ := facts
  exact ⟨m, rest, ran, stack, intact, clock, input, output⟩

theorem grace_honoured_for_stubborn : ∃ m rest next, initial.runs oneKey dismissal = some m ∧
    m.frames 3 = .stop 0 2000 :: rest ∧ (m.server 0).broken = false ∧
    m.runs oneKey stubborn = some next ∧ next.Exclusive (dismissal ++ stubborn) 0 ∧
    (next.server 0).killed ∧ SparesUntil (m.steps oneKey stubborn) 0 (m.clock + 2000) ∧
    ∃ exit, (next.server 0).exit = some exit ∧ (next.server 0).child = .ended exit.code := by
  obtain ⟨m, rest, ran, stack, intact, _⟩ := runs_dismissal
  have facts : (initial.runs oneKey dismissal).any fun m => (m.steps oneKey stubborn).all
      (fun step => !decide (step.Breaks 0)) && (m.runs oneKey stubborn).any fun next =>
        decide (next.Exclusive (dismissal ++ stubborn) 0 ∧ (next.server 0).killed) &&
          (next.frames 3).all fun f => f.role != .finishing 0 := by decide
  rw [ran, Option.any_some, Bool.and_eq_true, Option.any_eq_true] at facts
  obtain ⟨quiet, next, onward, facts⟩ := facts
  simp only [Bool.and_eq_true, decide_eq_true_eq, List.all_eq_true, bne_iff_ne, ne_eq] at facts quiet
  obtain ⟨⟨exclusive, killed⟩, returned⟩ := facts
  obtain ⟨spares, breaks, _, _, returns⟩ := grace_honoured_iff ran stack intact onward exclusive
  refine ⟨m, rest, next, ran, stack, intact, onward, exclusive, killed, spares.2 ?_, ?_⟩
  · intro step member loses
    obtain ⟨_, ⟨other, among, breaks, _⟩, _⟩ := breaks step member loses
    have whole := quiet other among
    simp [breaks] at whole
  · apply returns.resolve_left
    rintro ⟨f, busy, part⟩
    exact returned f (busy ▸ List.mem_cons_self) part

-- The child is killed half a second after its server was to be stopped.
theorem killed_within_grace : ∃ m rest next, initial.runs oneKey dismissal = some m ∧
    m.frames 3 = .stop 0 2000 :: rest ∧ m.clock = 0 ∧ (m.server 0).broken = false ∧
    (m.server 0).input = .new ∧ (m.server 0).output = .new ∧
    m.runs oneKey orderly = some next ∧ next.Exclusive (dismissal ++ orderly) 0 ∧
    ¬ SparesUntil (m.steps oneKey orderly) 0 (m.clock + 2000) ∧ next.clock = 500 := by
  obtain ⟨m, rest, ran, stack, intact, clock, input, output⟩ := runs_dismissal
  have facts : (initial.runs oneKey dismissal).any fun m => !decide (SparesUntil (m.steps oneKey orderly)
      0 (m.clock + 2000)) && (m.runs oneKey orderly).any fun next =>
        decide (next.Exclusive (dismissal ++ orderly) 0 ∧ next.clock = 500) := by decide
  rw [ran, Option.any_some, Bool.and_eq_true, Option.any_eq_true] at facts
  obtain ⟨early, next, onward, facts⟩ := facts
  simp only [decide_eq_true_eq, Bool.not_eq_true', decide_eq_false_iff_not] at facts early
  exact ⟨m, rest, next, ran, stack, clock, intact, input, output, onward, facts.1, early, facts.2⟩

end Machine
end LanguageRelay
