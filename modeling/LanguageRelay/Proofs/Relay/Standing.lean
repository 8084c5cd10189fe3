import LanguageRelay.Proofs.Relay.Endings
import LanguageRelay.Proofs.Relay.Passages
namespace LanguageRelay

-- What the exit of a server depends on besides its child.
structure Standing where
  watcher : Watcher
  stopRequested : Bool
  killRequested : Bool
  exit : Option ServerExit

namespace Server
variable {server after : Server} {clock : Nat} {wake : Wake}

def standing (server : Server) : Standing :=
  ⟨server.watcher, server.stopRequested, server.killRequested, server.exit⟩

def wakesLeft (server : Server) : Nat :=
  match server.watcher with
  | .waiting => 3
  | .patient _ => 2
  | .killing => 1
  | .finished => 0

theorem standing_of_enqueue? {command : Command} {taken : Bool}
    (put : server.enqueue? command = some (taken, after)) : after.standing = server.standing := by
  obtain ⟨queue, rfl⟩ := changes_enqueue? put
  rfl

theorem standing_of_nextOutput {output : Output} (read : server.nextOutput = (output, after)) :
    after.standing = server.standing := by
  obtain ⟨_, _, _, rfl⟩ := changes_nextOutput read
  rfl

theorem standing_of_write? {count : Nat} (wrote : server.write? count = some after) :
    after.standing = server.standing := by
  obtain ⟨_, _, _, _, rfl⟩ := changes_write? wrote
  rfl

theorem wakesLeft_watch? (woke : server.watch? clock wake = some after) :
    after.wakesLeft < server.wakesLeft := by
  unfold watch? at woke
  split at woke
  · cases woke; simp_all [wakesLeft, record]
  · split at woke <;> cases woke
    simp_all [wakesLeft, kill]
  · split at woke <;> cases woke
    simp_all [wakesLeft]
  · cases woke; simp_all [wakesLeft, record]
  · split at woke <;> cases woke
    simp_all [wakesLeft, kill]
  · cases woke; simp_all [wakesLeft, record]
  · cases woke

theorem wakesLeft_of_watcher (same : after.watcher = server.watcher) :
    after.wakesLeft = server.wakesLeft := by
  rw [wakesLeft, wakesLeft, same]

end Server

namespace Machine

namespace Step

def Terminates (step : Step) (p : ServerId) : Prop := ∃ t grace, step.Performs t (.stop p grace)

def Records (step : Step) (p : ServerId) (exit : ServerExit) : Prop :=
  (step.before.server p).exit = none ∧ (step.after.server p).exit = some exit

inductive Enters (step : Step) (p : ServerId) : Prop where
  | keeps : (step.after.server p).standing = (step.before.server p).standing → Enters step p
  | stops : step.Terminates p → (step.after.server p).standing =
      { (step.before.server p).standing with stopRequested := true } → Enters step p
  | givesUp : (step.event = .release p ∨ ∃ t deadline, step.Performs t (.awaitEnd p deadline)) →
      (step.after.server p).standing =
        { (step.before.server p).standing with killRequested := true } → Enters step p
  | wakes {wake} : step.event = .watch p wake →
      (step.before.server p).watch? step.before.clock wake = some (step.after.server p) →
      Enters step p

end Step

-- Where a frame comes from that sees the server to its end.
inductive SeesOff (m : Machine) (event : Event) (next : Machine) (u : TaskId) (p : ServerId)
    (f : Activity) : Prop where
  | kept : f ∈ m.frames u → SeesOff m event next u p f
  | goesOn {a rest} : event.task? = some u → m.frames u = a :: rest → a.role = .finishing p →
      SeesOff m event next u p f
  | takesOut {a rest later grace s} : event.task? = some u → m.frames u = a :: rest →
      Step.TakesOut ⟨m, event, next⟩ s p → f = .stop p grace →
      next.frames u = .stop p grace :: (later ++ rest) → (∀ g ∈ later, g.role ≠ .finishing p) →
      SeesOff m event next u p f
  | asked {grace} : event = .call (.stop p grace) → u = m.tasks.length → f = .stop p grace →
      p < m.servers.length → SeesOff m event next u p f

variable {m made next : Machine} {setup : Setup} {event : Event} {t u : TaskId} {p : ServerId}
  {a f : Activity} {rest new : List Activity} {exit : ServerExit} {server : Server}

theorem Handles.enters (handles : Handles m a p (next.server p)) (step : event.task? = some t)
    (stack : m.frames t = a :: rest) : Step.Enters ⟨m, event, next⟩ p := by
  generalize here : next.server p = server at handles
  have standing : (next.server p).standing = server.standing := congrArg Server.standing here
  cases handles with
  | stop => exact .stops ⟨t, _, step, rest, stack⟩ standing
  | kill => exact .givesUp (.inr ⟨t, _, step, rest, stack⟩) standing
  | abandon => exact .keeps standing
  | finish put | enqueue put => exact .keeps (standing.trans (Server.standing_of_enqueue? put))
  | pump read | next read => exact .keeps (standing.trans (Server.standing_of_nextOutput read))
  | pumpEnd read =>
    have same := Server.standing_of_nextOutput read
    exact .keeps (standing.trans same)

theorem Serves.enters (serves : Serves m event p (next.server p)) :
    Step.Enters ⟨m, event, next⟩ p := by
  generalize here : next.server p = server at serves
  have standing : (next.server p).standing = server.standing := congrArg Server.standing here
  cases serves with
  | released => exact .givesUp (.inl rfl) standing
  | watched woke => exact .wakes rfl (by rw [woke]; exact congrArg some here.symm)
  | inputCloses | outputCloses => exact .keeps standing
  | written wrote => exact .keeps (standing.trans (Server.standing_of_write? wrote))
  | childReads read =>
    obtain ⟨input, rfl⟩ := Server.changes_childReads? read
    exact .keeps standing
  | childWrites put =>
    rw [Server.childWrites?_eq put] at standing
    exact .keeps standing
  | childEnds ended =>
    rw [(Server.childEnds?_eq ended).2] at standing
    exact .keeps standing

theorem Happens.enters (happens : Happens setup m event next) (p : ServerId) :
    Step.Enters ⟨m, event, next⟩ p := by
  rcases happens.change p with
    same | ⟨session, limit, fresh, started⟩ | ⟨t, a, rest, step, stack, handles⟩ | serves
  · exact .keeps (congrArg Server.standing same)
  · refine .keeps ?_
    show (next.server p).standing = (m.server p).standing
    rw [fresh, started]; rfl
  · exact handles.enters step stack
  · exact serves.enters

-- A step puts in a frame that sees the server to its end in the place of such a frame, or where it takes the
-- server out of its slot.
theorem Move.finishing_cases {held : SessionId → Custody} (move : Move m t a held new) (p : ServerId) :
    (∀ f ∈ new, f.role ≠ .finishing p) ∨
    (a.role = .finishing p ∧ ∃ f, new = [f] ∧ f.role = .finishing p) ∨
    ∃ s slot grace later, (m.custody s).slot = some slot ∧ slot.server = p ∧ (held s).slot = none ∧
      new = .stop p grace :: later ∧ ∀ f ∈ later, f.role ≠ .finishing p := by
  have inside : ∀ {inner : List Activity} {last : Activity}, (∀ g ∈ inner, g.role = .inner) →
      last.role ≠ .finishing p → ∀ f ∈ inner ++ [last], f.role ≠ .finishing p := by
    intro inner last light other f member
    rcases List.mem_append.1 member with old | top
    · rw [light f old]; simp
    · rw [List.mem_singleton.1 top]; exact other
  have single : ∀ {f : Activity}, f.role ≠ .finishing p → ∀ g ∈ [f], g.role ≠ .finishing p := by
    intro f other g member
    rw [List.mem_singleton.1 member]; exact other
  cases move with
  | plain _ _ roles =>
    refine .inl fun f member => ?_
    rcases roles f member with inner | ⟨outer, _⟩
    · rw [inner]; simp
    · rw [outer]; simp
  | @finishing q _ f _ top still _ =>
    by_cases own : q = p
    · subst q; exact .inr (.inl ⟨top, f, rfl, still⟩)
    · exact .inl (single (by rw [still]; exact fun same => own (Role.finishing.inj same)))
  | finished | awaited | vacant | locked | closed => exact .inl (single (by simp [Activity.role]))
  | vacated _ _ _ _ light | outlived _ _ _ _ light | begun _ _ light | refused _ _ light =>
    exact .inl (inside light (by simp [Activity.role]))
  | @stopped s slot grace _ _ occupied changed =>
    have later : ∀ f ∈ [.setState s .stopped, .unlock s], Activity.role f ≠ .finishing p := by
      simp [Activity.role]
    by_cases own : slot.server = p
    · refine .inr (.inr ⟨s, slot, grace, _, occupied, own, ?_, by rw [own], later⟩)
      rw [changed, Function.update_self]
    · refine .inl fun f member => ?_
      rcases List.mem_cons.1 member with rfl | among
      · exact fun same => own (Role.finishing.inj same)
      · exact later f among
  | released _ _ _ outer => exact .inl fun f member => by simp [outer f member]
  | @taken s _ stops inner _ changed how light =>
    have later : ∀ f ∈ inner ++ [.clear s], f.role ≠ .finishing p :=
      inside light (by simp [Activity.role])
    rcases how with ⟨_, rfl⟩ | ⟨slot, grace, occupied, rfl⟩
    · exact .inl later
    · by_cases own : slot.server = p
      · refine .inr (.inr ⟨s, slot, grace, _, occupied, own, ?_, by rw [own]; rfl, later⟩)
        rw [changed, Function.update_self]
      · refine .inl fun f member => ?_
        rcases List.mem_cons.1 member with rfl | among
        · exact fun same => own (Role.finishing.inj same)
        · exact later f among

theorem Sound.seesOff (sound : Sound m) (moved : m.advance setup event = some next)
    (member : f ∈ next.frames u) (part : f.role = .finishing p) : SeesOff m event next u p f := by
  cases sound.arises moved member with
  | kept old => exact .kept old
  | @stems a rest _ _ step stack _ _ _ =>
    cases sound.happens moved with
    | @turned _ _ _ _ new own turned _ _ _ =>
      cases own.symm.trans step
      cases turned.stack.symm.trans stack
      have replaced := turned.replaced
      rw [replaced] at member
      rcases List.mem_append.1 member with added | under
      · rcases turned.move.finishing_cases p with none | ⟨same, _⟩ |
          ⟨s, slot, grace, later, occupied, here, empty, rfl, loose⟩
        · exact absurd part (none f added)
        · exact .goesOn step stack same
        · have takesOut : Step.TakesOut ⟨m, event, next⟩ s p := by
            refine ⟨⟨slot, occupied, here⟩, ?_⟩
            rintro ⟨other, found, _⟩
            cases empty.symm.trans found
          rcases List.mem_cons.1 added with same | among
          · exact .takesOut step stack takesOut same replaced loose
          · exact absurd part (loose f among)
      · exact .kept (stack ▸ List.mem_cons_of_mem _ under)
    | started launch started =>
      subst event
      cases step
      obtain ⟨inner, light, replaced⟩ := started.replaced
      rw [replaced] at member
      rcases List.mem_append.1 member with above | below
      · rw [light f above] at part; cases part
      · rcases List.mem_cons.1 below with rfl | under
        · cases part
        · exact .kept (started.stack ▸ List.mem_cons_of_mem _ under)
    | ambient outside => rw [outside] at step; cases step
  | begins _ _ _ begins =>
    rcases begins_cases begins with ⟨r, _, rfl⟩ | ⟨r, _, rfl⟩ | ⟨e, _, _, rfl⟩ <;> cases part
  | starts _ _ among =>
    simp only [startFrames, List.mem_cons, List.not_mem_nil, or_false] at among
    rcases among with rfl | rfl | rfl | rfl | rfl <;> cases part
  | @asked operation call last among =>
    subst event
    have known : operation.isKnown m := by
      by_contra unknown
      simp [Machine.advance, unknown] at moved
    cases operation with
    | stop q grace =>
      cases List.mem_singleton.1 among
      cases part
      exact .asked rfl last rfl (by simpa [Operation.isKnown] using known)
    | _ => cases List.mem_singleton.1 among; cases part
  | opened _ _ among =>
    simp only [socketFrames, List.mem_cons, List.not_mem_nil, or_false] at among
    rcases among with rfl | rfl | rfl | rfl <;> cases part

theorem Sound.finishing (sound : Sound m) (moved : m.advance setup event = some next)
    (member : f ∈ next.frames u) (part : f.role = .finishing p) :
    f ∈ m.frames u ∨
    (∃ a rest, event.task? = some u ∧ m.frames u = a :: rest ∧ a.role = .finishing p) ∨
    (∃ grace, f = .stop p grace) ∧ p < m.servers.length := by
  cases sound.seesOff moved member part with
  | kept old => exact .inl old
  | goesOn step stack same => exact .inr (.inl ⟨_, _, step, stack, same⟩)
  | takesOut _ _ takesOut stop => exact .inr (.inr ⟨⟨_, stop⟩, Holds.lt sound takesOut.1⟩)
  | asked _ _ stop there => exact .inr (.inr ⟨⟨_, stop⟩, there⟩)

theorem Sound.stopRequested (sound : Sound m) (moved : m.advance setup event = some next)
    (there : p < m.servers.length) (terminates : Step.Terminates ⟨m, event, next⟩ p) :
    (next.server p).stopRequested := by
  obtain ⟨t, grace, step, rest, stack⟩ := terminates
  obtain ⟨made, new, taken, _, _, shape⟩ := sound.takes moved step stack nofun
  cases taken with
  | performs performed =>
    cases performed
    have changed : next.servers = m.servers.set p { m.server p with stopRequested := true } := by
      rw [shape]; rfl
    rw [server_set changed, if_pos ⟨rfl, there⟩]

-- Told to stop again or not, a server that is marked stays so.
theorem Step.Enters.marked {step : Step} (enters : step.Enters p)
    (marked : (step.before.server p).stopRequested) : (step.after.server p).stopRequested := by
  cases enters with
  | keeps same => exact (congrArg Standing.stopRequested same).trans marked
  | stops _ standing => exact congrArg Standing.stopRequested standing
  | givesUp _ standing => exact (congrArg Standing.stopRequested standing).trans marked
  | wakes _ woke =>
    obtain ⟨_, ⟨code, _, after⟩ | ⟨_, _, _, after, _, same | ⟨yes, _⟩⟩⟩ := Server.watch?_cases woke
    · rw [after]; exact marked
    · rw [after]; exact same.trans marked
    · rw [after]; exact yes

theorem Step.Enters.stopped {step : Step} (enters : step.Enters p)
    (marked : (step.after.server p).stopRequested) : (step.before.server p).stopRequested ∨
      (step.before.server p).killRequested ∨ step.Terminates p := by
  cases enters with
  | keeps same => exact .inl ((congrArg Standing.stopRequested same).symm.trans marked)
  | stops terminates _ => exact .inr (.inr terminates)
  | givesUp _ standing => exact .inl ((congrArg Standing.stopRequested standing).symm.trans marked)
  | wakes _ woke =>
    obtain ⟨_, ⟨code, _, after⟩ | ⟨_, _, _, after, _, same | ⟨_, asked⟩⟩⟩ := Server.watch?_cases woke
    · rw [after] at marked; exact .inl marked
    · rw [after] at marked; exact .inl (same.symm.trans marked)
    · exact .inr (.inl asked)

theorem Step.Enters.killed {step : Step} (enters : step.Enters p)
    (asked : (step.after.server p).killRequested) : (step.before.server p).killRequested ∨
      step.event = .release p ∨ ∃ t deadline, step.Performs t (.awaitEnd p deadline) := by
  cases enters with
  | keeps same => exact .inl ((congrArg Standing.killRequested same).symm.trans asked)
  | stops _ standing => exact .inl ((congrArg Standing.killRequested standing).symm.trans asked)
  | givesUp why _ => exact .inr why
  | wakes _ woke =>
    obtain ⟨_, _, _, _, after⟩ := Server.changes_watch? woke
    rw [after] at asked; exact .inl asked

theorem Step.Enters.finished {step : Step} (enters : step.Enters p)
    (before : (step.before.server p).watcher = .finished → (step.before.server p).exit.isSome) :
    (step.after.server p).watcher = .finished → (step.after.server p).exit.isSome := by
  have still : ∀ {standing : Standing}, (step.after.server p).standing = standing →
      standing.watcher = (step.before.server p).watcher → standing.exit = (step.before.server p).exit →
      (step.after.server p).watcher = .finished → (step.after.server p).exit.isSome := by
    rintro _ rfl watcher exit finished
    have none := before (watcher.symm.trans finished)
    rwa [← exit] at none
  cases enters with
  | keeps same => exact still same rfl rfl
  | stops _ standing | givesUp _ standing => exact still standing rfl rfl
  | wakes _ woke =>
    intro finished
    obtain ⟨_, ⟨code, _, after⟩ | ⟨_, _, _, after, goesOn, _⟩⟩ := Server.watch?_cases woke
    · rw [after]; rfl
    · rw [after] at finished; exact absurd finished goesOn

-- The exit that a step records says what the server was marked with before the step.
theorem Step.Enters.requested {step : Step} (enters : step.Enters p) (records : step.Records p exit) :
    exit.requested = (step.before.server p).stopRequested := by
  obtain ⟨running, ended⟩ := records
  have absent : ∀ {standing : Standing}, (step.after.server p).standing = standing →
      standing.exit = (step.before.server p).exit →
      exit.requested = (step.before.server p).stopRequested := by
    rintro _ rfl same
    have found := ended.symm.trans (same.trans running)
    cases found
  cases enters with
  | keeps same => exact absent same rfl
  | stops _ standing | givesUp _ standing => exact absent standing rfl
  | wakes _ woke =>
    obtain ⟨_, ⟨code, _, after⟩ | ⟨_, _, _, after, _⟩⟩ := Server.watch?_cases woke
    · rw [after] at ended
      cases ended
      rfl
    · rw [after] at ended
      cases running.symm.trans ended

theorem Step.Enters.wakesLeft {step : Step} (enters : step.Enters p) :
    (step.after.server p).wakesLeft ≤ (step.before.server p).wakesLeft := by
  cases enters with
  | keeps same => exact Nat.le_of_eq (Server.wakesLeft_of_watcher (congrArg Standing.watcher same))
  | stops _ standing | givesUp _ standing =>
    exact Nat.le_of_eq (Server.wakesLeft_of_watcher (congrArg Standing.watcher standing))
  | wakes _ woke => exact Nat.le_of_lt (Server.wakesLeft_watch? woke)

end Machine
end LanguageRelay
