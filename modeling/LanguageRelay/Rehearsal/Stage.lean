import LanguageRelay.Rehearsal.Launch
import LanguageRelay.Relay.Step
namespace LanguageRelay.Rehearsal
open Shell (Act Channel Outcome Process)

-- The relay with servers that follow scripts: one process for each server, and the jobs that these have
-- put into the background.
structure Stage where
  setup : Setup
  machine : Machine
  host : Host
  processes : List Process
  jobs : List (ServerId × Process)

namespace Stage

def initial (setup : Setup) (host : Host) : Stage := ⟨setup, .initial, host, [], []⟩

def advance? (stage : Stage) (event : Event) : Option Stage :=
  (stage.machine.advance stage.setup event).map fun machine => { stage with machine }

def after (stage : Stage) (event : Event) : Stage := (stage.advance? event).getD stage

def identity (stage : Stage) : Nat := 1000 + stage.processes.length

def launchFor? (stage : Stage) (t : TaskId) (s : SessionId) : Option Stage :=
  match stage.setup.specs.find? (stage.machine.session s).key with
  | none => none
  | some spec =>
    match launch stage.host spec stage.identity with
    | .error e => stage.advance? (.launch t (some e))
    | .ok (host, process) =>
      (stage.advance? (.launch t none)).map fun next =>
        if stage.machine.servers.length < next.machine.servers.length then
          { next with host, processes := stage.processes ++ [process] }
        else next

def attentions : List Attention := [.frame, .forwarderDone, .shutDown, .evicted]

def stepTask? (stage : Stage) (t : TaskId) : Option Stage :=
  match (stage.machine.task t).frames.head? with
  | none => none
  | some (.spawn s _) => stage.launchFor? t s
  | some (.listen _) => attentions.findSome? fun attention => stage.advance? (.attend t attention)
  | some _ => stage.advance? (.run t)

def stepWriter? (stage : Stage) (p : ServerId) : Option Stage :=
  let server := stage.machine.server p
  match server.writer with
  | .stopped => none
  | .idle => stage.advance? (.write p 0)
  | .writing rest => stage.advance? (.write p (min rest.length server.input.room))

def wakes : List Wake := [.childEnded, .killRequested, .timeUp, .pipeBroken]

def stepWatcher? (stage : Stage) (p : ServerId) : Option Stage :=
  wakes.findSome? fun wake => stage.advance? (.watch p wake)

def jobsOf (stage : Stage) (p : ServerId) : List Process :=
  stage.jobs.filterMap fun job => if job.1 = p then some job.2 else none

def view (stage : Stage) (p : ServerId) (busy : Bool) : Shell.View :=
  let server := stage.machine.server p
  ⟨stage.host, ⟨server.input.buffered, server.input.writing, server.output.reading⟩,
    stage.machine.clock, busy⟩

def outcome (stage : Stage) (p : ServerId) : Outcome :=
  match stage.processes[p]? with
  | some process => process.step (stage.view p (stage.jobsOf p != []))
  | none => .waits none

def enact (p : ServerId) (stage : Stage) : Act → Stage
  | .reads count => stage.after (.childReads p count)
  | .writes bytes => stage.after (.childWrites p bytes)
  | .forks job => { stage with jobs := stage.jobs ++ [(p, job)] }

-- Closes the pipes of a server that neither its process nor a job has any more.
def closeUnused (stage : Stage) (p : ServerId) : Stage :=
  let server := stage.machine.server p
  let own := if server.isAlive then stage.processes[p]?.toList else []
  let held (channel : Channel) : Bool := (own ++ stage.jobsOf p).any (·.holds channel)
  let stage := if server.input.reading && !held .input then stage.after (.inputCloses p) else stage
  if server.output.writing && !held .output then stage.after (.outputCloses p) else stage

def endChild (stage : Stage) (p : ServerId) (code : Option Int) : Stage :=
  (stage.after (.childEnds p code)).closeUnused p

def stepProcess? (stage : Stage) (p : ServerId) : Option Stage :=
  let server := stage.machine.server p
  if !server.isAlive then none
  else if server.killed then some (stage.endChild p none)
  else
    match stage.outcome p with
    | .goes process host acts =>
      let stage := { stage with host, processes := stage.processes.set p process }
      some ((acts.foldl (enact p) stage).closeUnused p)
    | .waits _ => none
    | .ends code => some (stage.endChild p code)

def stepJob? (stage : Stage) (i : Nat) : Option Stage :=
  match stage.jobs[i]? with
  | none => none
  | some (p, job) =>
    match job.step (stage.view p false) with
    | .goes job host acts =>
      let stage := { stage with host, jobs := stage.jobs.set i (p, job) }
      some ((acts.foldl (enact p) stage).closeUnused p)
    | .waits _ => none
    | .ends _ => some ({ stage with jobs := stage.jobs.eraseIdx i }.closeUnused p)

-- Lets whoever of the relay comes first do a step: tasks, then writers and watchers.
def stepWithin? (stage : Stage) : Option Stage :=
  let servers := List.range stage.machine.servers.length
  ((List.range stage.machine.tasks.length).findSome? stage.stepTask?)
    <|> servers.findSome? stage.stepWriter?
    <|> servers.findSome? stage.stepWatcher?

-- Lets whoever comes first do a step: the relay, then the processes, then the jobs. Strays go last.
def step? (stage : Stage) : Option Stage :=
  stage.stepWithin?
    <|> (List.range stage.machine.servers.length).findSome? stage.stepProcess?
    <|> (List.range stage.jobs.length).findSome? stage.stepJob?
    <|> stage.advance? (.strayEnds 0)

end Stage
end LanguageRelay.Rehearsal
