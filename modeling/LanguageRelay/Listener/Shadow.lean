import LanguageRelay.Listener.Chain
import LanguageRelay.Mirror.Plan
namespace LanguageRelay.Shadow
open Json Mirror

def defaultDirectory : String := ".virtual_documents"

def react (root : String) (value : Value) : Reaction Job :=
  match plan root value with
  | .ok (some job) => ⟨.forward, [job]⟩
  | .ok none => ⟨.forward, []⟩
  | .error _ => ⟨.failed, []⟩

-- The listener for a root. `wrap` makes an effect of a job.
def listener {ε : Type} (root : String) (wrap : Job → ε) : Listener ε :=
  ⟨"shadow", fun _ _ value =>
    let reaction := react root value
    ⟨reaction.verdict, reaction.effects.map wrap⟩⟩

def entry {ε : Type} (root : String) (wrap : Job → ε) : ChainEntry ε := ⟨listener root wrap, .client⟩

end LanguageRelay.Shadow
