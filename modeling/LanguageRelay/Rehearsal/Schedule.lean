import LanguageRelay.Rehearsal.Stage
namespace LanguageRelay.Rehearsal
open Shell (Outcome)

def deadline? : Activity → Option Nat
  | .askToFinish _ _ deadline | .awaitEnd _ deadline | .awaitTimer _ _ deadline
  | .awaitFlush _ deadline => some deadline
  | _ => none

namespace Stage

def stepLimit : Nat := 400000

def patience : Nat := 5000

def settleWithin : Nat → Stage → Stage
  | 0, stage => stage
  | n + 1, stage =>
    match stage.stepWithin? with
    | some next => settleWithin n next
    | none => stage

def settle (stage : Stage) : Stage := settleWithin stepLimit stage

def settleUntil (holds : Stage → Bool) : Nat → Stage → Stage
  | 0, stage => stage
  | n + 1, stage =>
    if holds stage then stage
    else
      match stage.step? with
      | some next => settleUntil holds n next
      | none => stage

def runTask (t : TaskId) : Nat → Stage → Stage
  | 0, stage => stage
  | n + 1, stage =>
    match stage.stepTask? t with
    | some next => runTask t n next
    | none => stage

def deadlines (stage : Stage) : List Nat :=
  let m := stage.machine
  let tasks := m.tasks.filterMap fun task => task.frames.head?.bind deadline?
  let watchers := m.servers.filterMap fun server =>
    match server.watcher with
    | .patient deadline => some deadline
    | _ => none
  let processes := (List.range m.servers.length).filterMap fun p =>
    if !(m.server p).isAlive then none
    else
      match stage.outcome p with
      | .waits deadline => deadline
      | _ => none
  let jobs := stage.jobs.filterMap fun (p, job) =>
    match job.step (stage.view p false) with
    | .waits deadline => deadline
    | _ => none
  (tasks ++ watchers ++ processes ++ jobs).filter (m.clock < ·)

-- Lets the task that comes first go on until it has to wait. What it has begun does not start before
-- that.
def finishTurn (stage : Stage) : Stage :=
  match (List.range stage.machine.tasks.length).find? fun t => (stage.stepTask? t).isSome with
  | some t => runTask t stepLimit stage
  | none => stage

def passTo (stage : Stage) (moment : Nat) : Stage :=
  stage.after (.tick (moment - stage.machine.clock))

def waitUntil (holds : Stage → Bool) (moment : Nat) : Nat → Stage → Stage × Bool
  | 0, stage => (stage, holds stage)
  | n + 1, stage =>
    let settled := settleUntil holds stepLimit stage
    if holds settled then (settled, true)
    else
      match settled.deadlines.min? with
      | some next =>
        if next ≤ moment then waitUntil holds moment n (settled.passTo next)
        else (settled.passTo moment, false)
      | none => (settled.passTo moment, false)

def wait (stage : Stage) (holds : Stage → Bool) : Stage × Bool :=
  waitUntil holds (stage.machine.clock + patience) stepLimit stage

-- Waits as an editor does. Whoever has brought about what it waits for goes on until it has to wait in
-- its turn; the editor acts then, while the rest of the relay may still be busy.
def await (stage : Stage) (holds : Stage → Bool) : Stage × Bool :=
  let (stage, done) := stage.wait holds
  (stage.finishTurn, done)

def sleep (stage : Stage) (milliseconds : Nat) : Stage :=
  let moment := stage.machine.clock + milliseconds
  let (slept, _) := waitUntil (fun _ => false) moment stepLimit stage
  slept.settle

inductive Response where
  | reply (reply : Option Reply)
  | breakdown
  | late
deriving DecidableEq, Repr

-- Makes a request and waits until it is done or has broken down. The answer is what the request's task has
-- said.
def request (stage : Stage) (operation : Operation) : Stage × Response :=
  let t := stage.machine.tasks.length
  let task (stage : Stage) : Task := stage.machine.task t
  let begun := runTask t stepLimit (stage.after (.call operation))
  let (stage, answered) := begun.wait fun stage => (task stage).isDone || (task stage).isBroken
  if !answered then (stage, .late)
  else (stage.settle, if (task stage).isBroken then .breakdown else .reply (task stage).reply)

def happens (stage : Stage) (event : Event) : Stage := (stage.after event).settle

def startAlone (stage : Stage) (spec : LaunchSpec) (queueLimit : Nat) :
    Except StartError (Stage × Option ServerId) := do
  let (host, process) ← launch stage.host spec stage.identity
  let started := stage.after (.startAlone queueLimit)
  if stage.machine.servers.length < started.machine.servers.length then
    let cast := { started with host, processes := started.processes ++ [process] }
    return (cast.settle, some stage.machine.servers.length)
  else return (started, none)

end Stage
end LanguageRelay.Rehearsal
