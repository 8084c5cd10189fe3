import LanguageRelay.Host.Environment
import LanguageRelay.Shell.Syntax
namespace LanguageRelay.Shell

inductive Channel where
  -- The pipe from the relay.
  | input
  -- The pipe to the relay.
  | output
  -- A log that nobody reads.
  | errors
  | discard
  | file (path : String) (position : Nat)
  -- A text that becomes part of a word.
  | collected
deriving DecidableEq, Repr, Inhabited

-- What a shell has of its own. `traps` holds what is to be done about a signal, or when the shell
-- exits; nothing is done about a signal with an empty text.
structure Scope where
  name : String
  arguments : List String
  traps : Keyed String
  values : Keyed String
  exported : List String
  descriptors : List (Nat × Channel)
  collected : Bytes
deriving DecidableEq, Repr, Inhabited

inductive Extent where
  | bytes (count : Nat)
  | lines (count : Nat)
deriving DecidableEq, Repr, Inhabited

inductive Program where
  | cat (sources : List String) (status : Nat)
  | head (extent : Extent)
  | sleep (milliseconds : Nat)
  | pause (deadline : Nat)
  | tee (files : List Channel)
  -- Reads its input and does nothing with it.
  | drain (status : Nat)
  -- A shell that reads its script from its input; this much of it has come.
  | script (text : Bytes)
  -- Never ends by itself.
  | stay
deriving DecidableEq, Repr, Inhabited

inductive Frame where
  | run (command : Command)
  | whenStatus (good : Bool) (command : Command)
  | negate
  | choose (yes no : Command)
  | again (holds : Bool) (condition body : Command) (status : Nat)
  | turn (holds : Bool) (condition body : Command)
  | each (name : String) (values : List String) (body : Command)
  | restore (descriptors : List (Nat × Channel))
  | leave (scope : Scope)
  | fill (scope : Scope) (command : Simple)
  | reading (raw : Bool) (names : List String) (line : Bytes)
  | program (program : Program)
  -- Gives the status in the end, whatever has been done in between.
  | outcome (status : Nat)
deriving DecidableEq, Repr, Inhabited

structure Process where
  identity : Nat
  scope : Scope
  status : Nat
  frames : List Frame
deriving DecidableEq, Repr, Inhabited

inductive Act where
  | reads (count : Nat)
  | writes (bytes : Bytes)
  -- A job in the background goes on by itself, also when the process that has put it there has ended.
  | forks (job : Process)
deriving DecidableEq, Repr, Inhabited

def Frame.isBoundary : Frame → Bool
  | .leave _ | .fill _ _ => true
  | _ => false

def Frame.descriptors : Frame → List (Nat × Channel)
  | .restore descriptors => descriptors
  | .leave scope | .fill scope _ => scope.descriptors
  | .program (.tee files) => files.map fun file => (0, file)
  | _ => []

namespace Scope

def valueOf? (scope : Scope) (name : String) : Option String :=
  match name.toNat? with
  | some 0 => some scope.name
  | some n => scope.arguments[n - 1]?
  | none => scope.values.find? name

def assign (scope : Scope) (name value : String) : Scope :=
  { scope with values := Keyed.insert name value scope.values }

def mark (scope : Scope) (name : String) : Scope :=
  { scope with exported := if name ∈ scope.exported then scope.exported else name :: scope.exported }

def environment (scope : Scope) : Keyed String :=
  scope.values.filter fun e => scope.exported.contains e.1

-- The traps that programs and subshells keep: those that do nothing.
def silences (scope : Scope) : Keyed String := scope.traps.filter fun e => e.2 == ""

def connect (scope : Scope) (descriptor : Nat) (channel : Option Channel) : Scope :=
  let others := scope.descriptors.filter fun e => e.1 != descriptor
  { scope with
    descriptors := match channel with
      | some channel => (descriptor, channel) :: others
      | none => others }

end Scope

namespace Process

def holds (p : Process) (channel : Channel) : Bool :=
  (p.scope.descriptors ++ p.frames.flatMap Frame.descriptors).any fun e => e.2 == channel

def withScope (p : Process) (scope : Scope) : Process := { p with scope }

def ended (p : Process) (status : Nat) : Process := { p with status }

def push (p : Process) (frames : List Frame) : Process := { p with frames := frames ++ p.frames }

-- Leaves the running shell. Without one around it nothing is left to do.
def quit (p : Process) (status : Nat) : Process :=
  { p with status, frames := p.frames.dropWhile (!·.isBoundary) }

-- A command in the background as a process of its own. Nothing comes from its input.
def job (p : Process) (command : Command) : Process :=
  { p with
    scope := { p.scope with traps := p.scope.silences }.connect 0 (some .discard)
    status := 0
    frames := [.run command] }

def start (identity : Nat) (environment : Keyed String) : Process where
  identity
  scope :=
    { name := "sh"
      arguments := []
      traps := []
      values := environment
      exported := environment.keys
      descriptors := [(0, .input), (1, .output), (2, .errors)]
      collected := [] }
  status := 0
  frames := []

end Process
end LanguageRelay.Shell
