import LanguageRelay.Proofs.Relay.Runs
import LanguageRelay.Rehearsal.Client
namespace LanguageRelay.Rehearsal.Stage
open Shell (Act)
variable {stage made next : Stage} {event : Event} {p : ServerId} {t : TaskId}

-- All that the relay has gone through from one stage to the other is a run of it.
def Follows (stage next : Stage) : Prop :=
  next.setup = stage.setup ∧ ∃ events, stage.machine.runs stage.setup events = some next.machine

theorem Follows.of_same (setup : next.setup = stage.setup) (machine : next.machine = stage.machine) :
    stage.Follows next :=
  ⟨setup, [], congrArg some machine.symm⟩

theorem Follows.refl (stage : Stage) : stage.Follows stage := .of_same rfl rfl

theorem Follows.trans (first : stage.Follows made) (second : made.Follows next) : stage.Follows next := by
  obtain ⟨setup, events, ran⟩ := first
  obtain ⟨kept, later, onward⟩ := second
  refine ⟨kept.trans setup, events ++ later, ?_⟩
  rw [Machine.runs_append, ran, ← setup]
  exact onward

theorem follows_of_advance (moved : stage.advance? event = some next) : stage.Follows next := by
  obtain ⟨machine, step, rfl⟩ := Option.map_eq_some_iff.1 moved
  exact ⟨rfl, [event], Option.bind_eq_some_iff.2 ⟨machine, step, rfl⟩⟩

theorem follows_after (stage : Stage) (event : Event) : stage.Follows (stage.after event) := by
  unfold after
  cases moved : stage.advance? event with
  | none => exact .refl stage
  | some next => exact follows_of_advance moved

theorem follows_of_findSome {α : Type} {items : List α} {step : α → Option Stage}
    (each : ∀ x next, step x = some next → stage.Follows next)
    (found : items.findSome? step = some next) : stage.Follows next := by
  obtain ⟨x, _, taken⟩ := List.exists_of_findSome?_eq_some found
  exact each x next taken

theorem follows_of_orElse {first second : Option Stage}
    (one : ∀ next, first = some next → stage.Follows next)
    (other : ∀ next, second = some next → stage.Follows next)
    (found : (first <|> second) = some next) : stage.Follows next := by
  cases first with
  | none => exact other next found
  | some made => exact one next found

theorem follows_of_launchFor {s : SessionId} (launched : stage.launchFor? t s = some next) :
    stage.Follows next := by
  simp only [launchFor?] at launched
  split at launched
  · cases launched
  · split at launched
    · exact follows_of_advance launched
    · obtain ⟨made, moved, rfl⟩ := Option.map_eq_some_iff.1 launched
      refine (follows_of_advance moved).trans ?_
      split
      · exact .of_same rfl rfl
      · exact .refl made

theorem follows_of_stepTask (stepped : stage.stepTask? t = some next) : stage.Follows next := by
  simp only [stepTask?] at stepped
  split at stepped
  · cases stepped
  · exact follows_of_launchFor stepped
  · exact follows_of_findSome (fun _ _ => follows_of_advance) stepped
  · exact follows_of_advance stepped

theorem follows_of_stepWriter (stepped : stage.stepWriter? p = some next) : stage.Follows next := by
  simp only [stepWriter?] at stepped
  split at stepped
  · cases stepped
  · exact follows_of_advance stepped
  · exact follows_of_advance stepped

theorem follows_of_stepWatcher (stepped : stage.stepWatcher? p = some next) : stage.Follows next :=
  follows_of_findSome (fun _ _ => follows_of_advance) stepped

theorem follows_enact (stage : Stage) (acts : List Act) : stage.Follows (acts.foldl (enact p) stage) := by
  induction acts generalizing stage with
  | nil => exact .refl stage
  | cons act rest ih =>
    refine Follows.trans ?_ (ih (enact p stage act))
    cases act with
    | reads | writes => exact follows_after stage _
    | forks => exact .of_same rfl rfl

theorem follows_closeUnused (stage : Stage) (p : ServerId) : stage.Follows (stage.closeUnused p) := by
  have either (closes : Bool) (stage : Stage) (event : Event) :
      stage.Follows (if closes then stage.after event else stage) := by
    split
    · exact follows_after stage event
    · exact .refl stage
  exact (either _ stage _).trans (either _ _ _)

theorem follows_endChild (stage : Stage) (p : ServerId) (code : Option Int) :
    stage.Follows (stage.endChild p code) :=
  (follows_after stage _).trans (follows_closeUnused _ p)

theorem follows_of_stepProcess (stepped : stage.stepProcess? p = some next) : stage.Follows next := by
  simp only [stepProcess?] at stepped
  split at stepped
  · cases stepped
  · split at stepped
    · cases stepped; exact follows_endChild stage p none
    · split at stepped <;> cases stepped
      · refine Follows.trans ?_ ((follows_enact _ _).trans (follows_closeUnused _ p))
        exact .of_same rfl rfl
      · exact follows_endChild stage p _

theorem follows_of_stepJob {i : Nat} (stepped : stage.stepJob? i = some next) : stage.Follows next := by
  simp only [stepJob?] at stepped
  split at stepped
  · cases stepped
  · split at stepped <;> cases stepped
    · refine Follows.trans ?_ ((follows_enact _ _).trans (follows_closeUnused _ _))
      exact .of_same rfl rfl
    · refine Follows.trans ?_ (follows_closeUnused _ _)
      exact .of_same rfl rfl

theorem follows_of_stepWithin (stepped : stage.stepWithin? = some next) : stage.Follows next :=
  follows_of_orElse (fun _ => follows_of_findSome fun _ _ => follows_of_stepTask)
    (fun _ => follows_of_orElse (fun _ => follows_of_findSome fun _ _ => follows_of_stepWriter)
      fun _ => follows_of_findSome fun _ _ => follows_of_stepWatcher) stepped

theorem follows_of_step (stepped : stage.step? = some next) : stage.Follows next :=
  follows_of_orElse (fun _ => follows_of_stepWithin)
    (fun _ => follows_of_orElse (fun _ => follows_of_findSome fun _ _ => follows_of_stepProcess)
      fun _ => follows_of_orElse (fun _ => follows_of_findSome fun _ _ => follows_of_stepJob)
        fun _ => follows_of_advance) stepped

theorem follows_settleWithin (count : Nat) (stage : Stage) : stage.Follows (settleWithin count stage) := by
  induction count generalizing stage with
  | zero => exact .refl stage
  | succ count ih =>
    rw [settleWithin]
    split
    · rename_i made stepped
      exact (follows_of_stepWithin stepped).trans (ih made)
    · exact .refl stage

theorem follows_settle (stage : Stage) : stage.Follows stage.settle := follows_settleWithin _ stage

theorem follows_settleUntil (holds : Stage → Bool) (count : Nat) (stage : Stage) :
    stage.Follows (settleUntil holds count stage) := by
  induction count generalizing stage with
  | zero => exact .refl stage
  | succ count ih =>
    rw [settleUntil]
    split
    · exact .refl stage
    · split
      · rename_i made stepped
        exact (follows_of_step stepped).trans (ih made)
      · exact .refl stage

theorem follows_runTask (t : TaskId) (count : Nat) (stage : Stage) :
    stage.Follows (runTask t count stage) := by
  induction count generalizing stage with
  | zero => exact .refl stage
  | succ count ih =>
    rw [runTask]
    split
    · rename_i made stepped
      exact (follows_of_stepTask stepped).trans (ih made)
    · exact .refl stage

theorem follows_finishTurn (stage : Stage) : stage.Follows stage.finishTurn := by
  unfold finishTurn
  split
  · exact follows_runTask _ _ stage
  · exact .refl stage

theorem follows_waitUntil (holds : Stage → Bool) (moment count : Nat) (stage : Stage) :
    stage.Follows (waitUntil holds moment count stage).1 := by
  induction count generalizing stage with
  | zero => exact .refl stage
  | succ count ih =>
    have settles := follows_settleUntil holds stepLimit stage
    have passes (made : Stage) (moment : Nat) : made.Follows (made.passTo moment) := follows_after made _
    simp only [waitUntil]
    split
    · exact settles
    · split
      · split
        · exact settles.trans ((passes _ _).trans (ih _))
        · exact settles.trans (passes _ _)
      · exact settles.trans (passes _ _)

theorem follows_wait (stage : Stage) (holds : Stage → Bool) : stage.Follows (stage.wait holds).1 :=
  follows_waitUntil holds (stage.machine.clock + patience) stepLimit stage

theorem follows_await (stage : Stage) (holds : Stage → Bool) : stage.Follows (stage.await holds).1 := by
  have waits := follows_wait stage holds
  unfold await
  generalize stage.wait holds = waited at waits ⊢
  exact waits.trans (follows_finishTurn _)

theorem follows_sleep (stage : Stage) (milliseconds : Nat) : stage.Follows (stage.sleep milliseconds) := by
  have waits := follows_waitUntil (fun _ => false) (stage.machine.clock + milliseconds) stepLimit stage
  unfold sleep
  simp only
  generalize waitUntil (fun _ => false) (stage.machine.clock + milliseconds) stepLimit stage = waited
    at waits ⊢
  exact waits.trans (follows_settle _)

theorem follows_happens (stage : Stage) (event : Event) : stage.Follows (stage.happens event) :=
  (follows_after stage event).trans (follows_settle _)

theorem follows_request (stage : Stage) (operation : Operation) :
    stage.Follows (stage.request operation).1 := by
  have begins := (follows_after stage (.call operation)).trans
    (follows_runTask stage.machine.tasks.length stepLimit _)
  have waits := fun holds => begins.trans (follows_wait _ holds)
  unfold request
  simp only
  split
  · exact waits _
  · exact (waits _).trans (follows_settle _)

theorem follows_receive (stage : Stage) (c : ConnectionId) (dropped : Bool) :
    stage.Follows (stage.receive c dropped).1 := by
  have waits := follows_await stage fun stage =>
    !(stage.machine.connection c).queue.isEmpty || stage.hasEnded c dropped
  unfold receive
  generalize (stage.await fun stage =>
    !(stage.machine.connection c).queue.isEmpty || stage.hasEnded c dropped) = waited at waits ⊢
  obtain ⟨made, done⟩ := waited
  simp only
  split
  · exact waits.trans (follows_after made _)
  · exact waits

theorem follows_receiveMany (c : ConnectionId) (dropped : Bool) (count : Nat) (stage : Stage) :
    stage.Follows (receiveMany c dropped count stage).1 := by
  induction count generalizing stage with
  | zero => exact .refl stage
  | succ count ih =>
    have received := follows_receive stage c dropped
    simp only [receiveMany]
    split <;> rename_i arrived <;> rw [arrived] at received
    · exact received.trans (ih _)
    · exact received

theorem follows_receiveWhere (wanted : ClientEvent → Bool) (c : ConnectionId) (dropped : Bool)
    (count : Nat) (stage : Stage) : stage.Follows (receiveWhere wanted c dropped count stage).1 := by
  induction count generalizing stage with
  | zero => exact .refl stage
  | succ count ih =>
    have received := follows_receive stage c dropped
    simp only [receiveWhere]
    split <;> rename_i arrived <;> rw [arrived] at received
    · split
      · exact received
      · exact received.trans (ih _)
    · exact received

theorem follows_waitExit (stage : Stage) (p : ServerId) : stage.Follows (stage.waitExit p).1 := by
  have waits := follows_wait stage fun stage => (stage.machine.server p).exit.isSome
  unfold waitExit
  generalize (stage.wait fun stage => (stage.machine.server p).exit.isSome) = waited at waits ⊢
  exact waits

theorem follows_collect (stage : Stage) (k : SocketId) : stage.Follows (stage.collect k).1 := by
  have waits := follows_wait stage
  unfold collect
  simp only
  split
  · exact (waits _).trans (follows_happens _ _)
  · exact waits _

theorem follows_of_deliver {k : SocketId} {frame : SocketFrame}
    (delivered : stage.deliver? k frame = some next) : stage.Follows next := by
  simp only [deliver?] at delivered
  split at delivered <;> cases delivered
  exact follows_happens stage _

theorem follows_of_startAlone {spec : LaunchSpec} {limit : Nat} {server : Option ServerId}
    (started : stage.startAlone spec limit = .ok (next, server)) : stage.Follows next := by
  unfold startAlone at started
  cases launched : launch stage.host spec stage.identity with
  | error e => rw [launched] at started; cases started
  | ok prepared =>
    rw [launched] at started
    simp only [bind, Except.bind, pure, Except.pure] at started
    have starts := follows_after stage (.startAlone limit)
    split at started <;> cases started
    · exact starts.trans (Follows.trans (.of_same rfl rfl) (follows_settle _))
    · exact starts

end LanguageRelay.Rehearsal.Stage
