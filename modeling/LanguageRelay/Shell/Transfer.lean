import LanguageRelay.Shell.Process
namespace LanguageRelay.Shell

structure Pipes where
  buffered : Bytes
  more : Bool
  heard : Bool

inductive Intake where
  | bytes (bytes : Bytes) (process : Process) (acts : List Act)
  | ended
  | empty
  | failed

inductive Output where
  | written (process : Process) (host : Host) (acts : List Act)
  | failed
  | unheard

namespace Process

def channel? (p : Process) (descriptor : Nat) : Option Channel :=
  p.scope.descriptors.lookup descriptor

def take (p : Process) (host : Host) (pipes : Pipes) (descriptor : Nat) (measure : Bytes → Nat) :
    Intake :=
  match p.channel? descriptor with
  | some .input =>
    if pipes.buffered = [] then if pipes.more then .empty else .ended
    else
      let count := measure pipes.buffered
      .bytes (pipes.buffered.take count) p [.reads count]
  | some (.file path position) =>
    match host.files.read path with
    | .ok content =>
      let rest := content.drop position
      let count := measure rest
      if rest = [] then .ended
      else
        .bytes (rest.take count)
          (p.withScope (p.scope.connect descriptor (some (.file path (position + count))))) []
    | .error _ => .failed
  | some .discard => .ended
  | _ => .failed

def putTo (p : Process) (host : Host) (pipes : Pipes) (channel : Option Channel) (bytes : Bytes) :
    Output :=
  match channel with
  | some .output =>
    if bytes = [] then .written p host []
    else if pipes.heard then .written p host [.writes bytes]
    else .unheard
  | some .errors | some .discard => .written p host []
  | some (.file path _) =>
    let content := match host.files.read path with
      | .ok content => content
      | .error _ => []
    match host.files.write path (content ++ bytes) with
    | .ok files => .written p { host with files } []
    | .error _ => .failed
  | some .collected =>
    .written (p.withScope { p.scope with collected := p.scope.collected ++ bytes }) host []
  | some .input | none => .failed

def put (p : Process) (host : Host) (pipes : Pipes) (descriptor : Nat) (bytes : Bytes) : Output :=
  p.putTo host pipes (p.channel? descriptor) bytes

end Process
end LanguageRelay.Shell
