import LanguageRelay.Listener.Chain
namespace LanguageRelay.Onboarding
open Json

def defaultMethod : String := "bridge/onboarding"

-- The request with the root among its parameters. Parameters that are no object give way. Nothing comes
-- out when the request cannot hold members.
def addRoot? (root : String) (request : Value) : Option Value := do
  let ready ← if (request.get? "params").any Value.isObject then some request
    else Value.put? ["params"] (.object []) request
  Value.put? ["params", "serverRoot"] (.text root) ready

def verdict (method root : String) (value : Value) : Verdict :=
  if value.textAt? "method" = some method then
    match addRoot? root value with
    | some told => .replace told
    | none => .crashed
  else .forward

def listener {ε : Type} (method root : String) : Listener ε :=
  ⟨"onboarding", fun _ _ value => ⟨verdict method root value, []⟩⟩

def entry {ε : Type} (method root : String) : ChainEntry ε := ⟨listener method root, .client⟩

end LanguageRelay.Onboarding
