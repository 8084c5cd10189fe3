import LanguageRelay.Message.Basic
import LanguageRelay.Pattern.Parser
import LanguageRelay.Status.State
namespace LanguageRelay
open Json

-- What is to become of a message. `failed` and `crashed` count as no answer.
inductive Verdict where
  | forward
  | replace (value : Value)
  | drop
  | failed
  | crashed
deriving Repr, Inhabited

structure ListenerContext where
  key : String
  languages : List String
deriving DecidableEq, Repr, Inhabited

-- Besides its verdict, what a listener does is listed, so that a chain is a function of its input.
structure Reaction (ε : Type) where
  verdict : Verdict
  effects : List ε

structure Listener (ε : Type) where
  name : String
  react : Direction → ListenerContext → Value → Reaction ε

-- Which messages a listener is asked about. What is not set admits all.
structure ListenerFilter where
  direction : Option Direction
  language : Option Pattern
  method : Option Pattern
deriving Inhabited

namespace ListenerFilter

def all : ListenerFilter := ⟨none, none, none⟩

def client : ListenerFilter := { all with direction := some .clientToServer }

def server : ListenerFilter := { all with direction := some .serverToClient }

def methodOf? (value : Value) : Option String := value.textAt? "method"

-- The filter admits a message. A language pattern asks for one language of the session that it
-- matches, a method pattern for a method that it matches.
def admits (filter : ListenerFilter) (direction : Direction) (context : ListenerContext)
    (value : Value) : Bool :=
  (filter.direction.all fun d => d == direction)
    && (filter.language.all fun p => context.languages.any p.matchesIn)
    && (filter.method.all fun p => (methodOf? value).any p.matchesIn)

end ListenerFilter

structure ChainEntry (ε : Type) where
  listener : Listener ε
  filter : ListenerFilter

abbrev ListenerChain (ε : Type) := List (ChainEntry ε)

namespace ListenerChain
variable {ε : Type}

structure Current where
  value : Value
  replaced : Bool

def ask (entry : ChainEntry ε) (direction : Direction) (context : ListenerContext)
    (current : Current) : Option Current × List ε :=
  if entry.filter.admits direction context current.value then
    let reaction := entry.listener.react direction context current.value
    match reaction.verdict with
    | .forward | .failed | .crashed => (some current, reaction.effects)
    | .replace value => (some ⟨value, true⟩, reaction.effects)
    | .drop => (none, reaction.effects)
  else (some current, [])

def run (direction : Direction) (context : ListenerContext) :
    ListenerChain ε → Current → Option Current × List ε
  | [], current => (some current, [])
  | entry :: rest, current =>
    match ask entry direction context current with
    | (none, effects) => (none, effects)
    | (some next, effects) =>
      let (result, more) := run direction context rest next
      (result, effects ++ more)

-- What a chain makes of a message: nothing when a listener drops it, the same message when none
-- replaced its value or when it is no JSON, else the text of the last value.
def apply (chain : ListenerChain ε) (direction : Direction) (context : ListenerContext)
    (message : Message) : Option Message × List ε :=
  if chain.isEmpty then (some message, [])
  else
    match message.value? with
    | none => (some message, [])
    | some value =>
      match chain.run direction context ⟨value, false⟩ with
      | (none, effects) => (none, effects)
      | (some current, effects) =>
        (some (if current.replaced then .ofValue current.value else message), effects)

def names (chain : ListenerChain ε) : List String := chain.map fun e => e.listener.name

end ListenerChain
end LanguageRelay
