import LanguageRelay.Launch.Spec
import LanguageRelay.Relay.Refusal
import LanguageRelay.Shell.Step
namespace LanguageRelay.Rehearsal
open Shell

def nulMessage : String := "nul byte found in provided data"

def hasNul (text : String) : Bool := text.toList.contains '\x00'

def launch (host : Host) (spec : LaunchSpec) (identity : Nat) :
    Except StartError (Host × Process) :=
  let failed (reason : String) : Except StartError (Host × Process) :=
    .error (.spawnFailed spec.program reason)
  match host.which spec.program with
  | none => .error (.notFound spec.program)
  | some path =>
    if spec.args.any hasNul || spec.environment.any fun e => hasNul e.1 || hasNul e.2 then
      failed nulMessage
    else
      match programOf host.files interpreterDepth path spec.args with
      | .error .notFound => .error (.notFound spec.program)
      | .error e => failed e.message
      | .ok (name, arguments) =>
        let environment := Keyed.override host.environment spec.environment
        let process := Process.start identity environment
        let image := programImage host process.scope programDepth name arguments
        .ok (image.host,
          { process with scope := image.scope, status := image.status, frames := image.frames })

end LanguageRelay.Rehearsal
