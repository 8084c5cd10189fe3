import LanguageRelay.Frame.Reader
import LanguageRelay.Frame.Writer
import LanguageRelay.Relay.Connection
namespace LanguageRelay

-- How a server ended: with a code unless a signal killed it, and whether the relay asked for it.
structure ServerExit where
  code : Option Int
  requested : Bool
deriving DecidableEq, Repr, Inhabited

def ServerExit.isClean (exit : ServerExit) : Bool := exit.requested || exit.code == some 0

-- A pipe between the relay and a child: what has been written and not yet read, and which ends are
-- open.
structure Pipe where
  buffered : Bytes
  writing : Bool
  reading : Bool
deriving DecidableEq, Repr, Inhabited

def Pipe.new : Pipe := ⟨[], true, true⟩

def Pipe.capacity : Nat := 65536

def Pipe.room (pipe : Pipe) : Nat := Pipe.capacity - pipe.buffered.length

-- Who hands a message to a server: a connection of a session, or somebody outside of any.
inductive Sender where
  | client (session connection : Nat)
  | outside
deriving DecidableEq, Repr, Inhabited

inductive Command where
  | message (sender : Sender) (message : Message)
  | finish
deriving DecidableEq, Repr, Inhabited

-- What the writer is doing: waiting for a command, writing what is left of a frame, or nothing any
-- more.
inductive Writer where
  | idle
  | writing (rest : Bytes)
  | stopped
deriving DecidableEq, Repr, Inhabited

-- What the watcher is doing: waiting for the child to end, giving it time after a pipe broke,
-- waiting for a killed child, or nothing any more.
inductive Watcher where
  | waiting
  | patient (deadline : Nat)
  | killing
  | finished
deriving DecidableEq, Repr, Inhabited

inductive ChildState where
  | alive
  | ended (code : Option Int)
deriving DecidableEq, Repr, Inhabited

-- The writer puts the frames of queued messages into the child's input. The watcher sees the child end
-- and records its exit, once.
structure Server where
  session : Option Nat
  queueLimit : Nat
  queue : List Command
  writer : Writer
  watcher : Watcher
  stopRequested : Bool
  killRequested : Bool
  broken : Bool
  killed : Bool
  exit : Option ServerExit
  child : ChildState
  input : Pipe
  output : Pipe
  outputEnded : Bool
deriving Inhabited

inductive Wake where
  | childEnded
  | killRequested
  | pipeBroken
  | timeUp
deriving DecidableEq, Repr

inductive Output where
  | message (message : Message)
  | ended
  | pending
deriving DecidableEq, Repr

namespace Server

-- A server whose child has just been started. The queue has room for one message at least.
def start (session : Option Nat) (queueLimit : Nat) : Server where
  session := session
  queueLimit := max queueLimit 1
  queue := []
  writer := .idle
  watcher := .waiting
  stopRequested := false
  killRequested := false
  broken := false
  killed := false
  exit := none
  child := .alive
  input := .new
  output := .new
  outputEnded := false

-- The queue is made when the child runs already. Where it cannot be, nobody is left to look after the child.
def start? (session : Option Nat) (queueLimit : Nat) : Option Server :=
  if queueLimit ≤ Connection.greatestCapacity then some (start session queueLimit) else none

def isAlive (server : Server) : Bool := server.child == .alive

def isRunning (server : Server) : Bool := server.exit.isNone

def patience : Nat := 500

-- Stops the writer, which closes the child's input. What is still in the queue is lost.
def stopWriter (server : Server) : Server :=
  { server with
    writer := .stopped
    queue := []
    input := { server.input with writing := false } }

-- Puts a command into the queue. Nothing comes of it while the queue is full; a stopped writer
-- takes none.
def enqueue? (server : Server) (command : Command) : Option (Bool × Server) :=
  if server.writer = .stopped then some (false, server)
  else if server.queue.length < server.queueLimit then
    some (true, { server with queue := server.queue ++ [command] })
  else none

-- The writer does its next step. It takes a command, or it writes up to `count` bytes of a frame,
-- as many as the child's input has room for. An input that nobody reads breaks it.
def write? (server : Server) (count : Nat) : Option Server :=
  match server.writer, server.queue with
  | .stopped, _ => none
  | .idle, [] => none
  | .idle, .finish :: _ => some server.stopWriter
  | .idle, .message _ message :: rest =>
    some { server with writer := .writing (Frame.encode message.body), queue := rest }
  | .writing rest, _ =>
    if !server.input.reading then some { server.stopWriter with broken := true }
    else if rest = [] then some { server with writer := .idle }
    else if count = 0 ∨ rest.length < count ∨ server.input.room < count then none
    else
      some { server with
        writer := .writing (rest.drop count)
        input := { server.input with buffered := server.input.buffered ++ rest.take count } }

def record (server : Server) (code : Option Int) : Server :=
  { server with watcher := .finished, exit := some ⟨code, server.stopRequested⟩ }

def kill (server : Server) : Server := { server with watcher := .killing, killed := true }

-- The watcher is woken. When several things have happened any of them may wake it, but a child that
-- has ended is seen before the time is up.
def watch? (server : Server) (clock : Nat) (wake : Wake) : Option Server :=
  match server.watcher, wake, server.child with
  | .waiting, .childEnded, .ended code => some (server.record code)
  | .waiting, .killRequested, _ =>
    if server.killRequested then some { server with stopRequested := true }.kill else none
  | .waiting, .pipeBroken, _ =>
    if server.broken then some { server with watcher := .patient (clock + patience) } else none
  | .patient _, .childEnded, .ended code => some (server.record code)
  | .patient deadline, .timeUp, .alive => if deadline ≤ clock then some server.kill else none
  | .killing, .childEnded, .ended code => some (server.record code)
  | _, _, _ => none

-- Ends the output: no more messages come from it, and a pipe counts as broken.
def endOutput (server : Server) : Server := { server with outputEnded := true, broken := true }

def leaveOutput (server : Server) (rest : Bytes) : Server :=
  { server with output := { server.output with buffered := rest } }

-- Reads the next message from what the child has written. The output ends when the child closes it
-- or writes a malformed frame. What is only part of a frame stays where it is.
def nextOutput (server : Server) : Output × Server :=
  if server.outputEnded then (.ended, server)
  else
    match Frame.State.start.feed server.output.buffered with
    | (.done (.frame body), rest) => (.message ⟨body⟩, server.leaveOutput rest)
    | (.done _, rest) => (.ended, (server.leaveOutput rest).endOutput)
    | (.more _, _) =>
      if server.output.writing then (.pending, server)
      else (.ended, (server.leaveOutput []).endOutput)

def childReads? (server : Server) (count : Nat) : Option Server :=
  if server.input.reading ∧ count ≤ server.input.buffered.length then
    some { server with
      input := { server.input with buffered := server.input.buffered.drop count } }
  else none

def childWrites? (server : Server) (bytes : Bytes) : Option Server :=
  if server.output.writing ∧ server.output.reading then
    some { server with
      output := { server.output with buffered := server.output.buffered ++ bytes } }
  else none

def inputClosed (server : Server) : Server :=
  { server with input := { server.input with reading := false, buffered := [] } }

def outputClosed (server : Server) : Server :=
  { server with output := { server.output with writing := false } }

def childEnds? (server : Server) (code : Option Int) : Option Server :=
  if server.isAlive then some { server with child := .ended code } else none

variable {server after : Server}

theorem changes_enqueue? {command : Command} {taken : Bool}
    (put : server.enqueue? command = some (taken, after)) : ∃ queue, after = { server with queue } := by
  unfold enqueue? at put
  split at put
  · cases put; exact ⟨_, rfl⟩
  · split at put <;> cases put; exact ⟨_, rfl⟩

theorem changes_write? {count : Nat} (wrote : server.write? count = some after) :
    ∃ writer queue input broken, after = { server with writer, queue, input, broken } := by
  unfold write? at wrote
  split at wrote
  · cases wrote
  · cases wrote
  · cases wrote; exact ⟨_, _, _, _, rfl⟩
  · cases wrote; exact ⟨_, _, _, _, rfl⟩
  · split at wrote
    · cases wrote; exact ⟨_, _, _, _, rfl⟩
    · split at wrote
      · cases wrote; exact ⟨_, _, _, _, rfl⟩
      · split at wrote <;> cases wrote; exact ⟨_, _, _, _, rfl⟩

theorem watch?_cases {clock : Nat} {wake : Wake} (woke : server.watch? clock wake = some after) :
    server.watcher ≠ .finished ∧
    ((∃ code, server.child = .ended code ∧ after = server.record code) ∨
      ∃ watcher stopRequested killed, after = { server with watcher, stopRequested, killed } ∧
        watcher ≠ .finished ∧
        (stopRequested = server.stopRequested ∨ stopRequested = true ∧ server.killRequested)) := by
  have goesOn : server.watcher ≠ .finished := by
    intro finished
    simp [watch?, finished] at woke
  refine ⟨goesOn, ?_⟩
  unfold watch? at woke
  split at woke
  · cases woke; exact .inl ⟨_, ‹_›, rfl⟩
  · split at woke <;> cases woke
    rename_i asked
    exact .inr ⟨_, _, _, rfl, nofun, .inr ⟨rfl, asked⟩⟩
  · split at woke <;> cases woke
    exact .inr ⟨_, _, _, rfl, nofun, .inl rfl⟩
  · cases woke; exact .inl ⟨_, ‹_›, rfl⟩
  · split at woke <;> cases woke
    exact .inr ⟨_, _, _, rfl, nofun, .inl rfl⟩
  · cases woke; exact .inl ⟨_, ‹_›, rfl⟩
  · cases woke

theorem changes_watch? {clock : Nat} {wake : Wake} (woke : server.watch? clock wake = some after) :
    ∃ watcher stopRequested killed exit,
      after = { server with watcher, stopRequested, killed, exit } := by
  obtain ⟨_, ⟨code, _, rfl⟩ | ⟨watcher, stopRequested, killed, rfl, _⟩⟩ := watch?_cases woke
  · exact ⟨_, _, _, _, rfl⟩
  · exact ⟨_, _, _, _, rfl⟩

theorem changes_nextOutput {read : Output} (gave : server.nextOutput = (read, after)) :
    ∃ output outputEnded broken, after = { server with output, outputEnded, broken } := by
  unfold nextOutput at gave
  split at gave
  · cases gave; exact ⟨_, _, _, rfl⟩
  · split at gave
    · cases gave; exact ⟨_, _, _, rfl⟩
    · cases gave; exact ⟨_, _, _, rfl⟩
    · split at gave <;> cases gave <;> exact ⟨_, _, _, rfl⟩

theorem changes_childReads? {count : Nat} (read : server.childReads? count = some after) :
    ∃ input, after = { server with input } := by
  unfold childReads? at read
  split at read <;> cases read
  exact ⟨_, rfl⟩

theorem childWrites?_eq {bytes : Bytes} (put : server.childWrites? bytes = some after) :
    after = { server with
      output := { server.output with buffered := server.output.buffered ++ bytes } } := by
  unfold childWrites? at put
  split at put <;> cases put
  rfl

theorem childEnds?_eq {code : Option Int} (ended : server.childEnds? code = some after) :
    server.isAlive ∧ after = { server with child := .ended code } := by
  unfold childEnds? at ended
  split at ended <;> cases ended
  exact ⟨‹_›, rfl⟩

end Server
end LanguageRelay
