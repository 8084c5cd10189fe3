import LanguageRelay.Listener.Onboarding
import LanguageRelay.Listener.Shadow
namespace LanguageRelay
open Json

structure ListenerCall where
  listener : String
  direction : Direction
  context : ListenerContext
  value : Value
deriving Repr, Inhabited

inductive ListenerEffect where
  | called (call : ListenerCall)
  | mirror (writer : Nat) (job : Mirror.Job)
deriving Repr

inductive Script where
  | record
  | echo
  | replace (value : Value)
  | tag
  | drop
  | fail
  | crash
deriving Repr, Inhabited

namespace Script

-- The value with a name added to its list of tags. Only an object has one.
def addTag (name : String) (value : Value) : Option Value :=
  match value with
  | .object _ =>
    let tags := ((value.get? "tags").bind Value.items?).getD []
    some (value.set "tags" (.list (tags ++ [.text name])))
  | _ => none

def verdict (name : String) (value : Value) : Script → Verdict
  | .record => .forward
  | .echo => .replace value
  | .replace other => .replace other
  | .tag =>
    match addTag name value with
    | some tagged => .replace tagged
    | none => .crashed
  | .drop => .drop
  | .fail => .failed
  | .crash => .crashed

def listener (script : Script) (name : String) : Listener ListenerEffect :=
  ⟨name, fun direction context value =>
    ⟨script.verdict name value, [.called ⟨name, direction, context, value⟩]⟩⟩

end Script
end LanguageRelay
