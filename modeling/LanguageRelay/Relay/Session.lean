import LanguageRelay.Relay.Server
import LanguageRelay.Status.State
namespace LanguageRelay

-- Numbers that are given out in turn and the counters of a session grow without bound.
abbrev SessionId := Nat
abbrev ServerId := Nat
abbrev ConnectionId := Nat
abbrev SocketId := Nat
abbrev TaskId := Nat

structure Slot where
  generation : Nat
  server : ServerId
deriving DecidableEq, Repr, Inhabited

-- Whoever starts, stops or replaces the server holds the lock. The state, the subscribers, the epoch and
-- the mark of being closed are read and written without it.
structure Session where
  key : String
  lock : Option TaskId
  slot : Option Slot
  subscribers : List ConnectionId
  state : SessionState
  generation : Nat
  spawnCount : Nat
  -- The number of subscriptions so far. An idle teardown only happens in the epoch in which it was
  -- planned.
  epoch : Nat
  closed : Bool
deriving DecidableEq, Repr

namespace Session

def new (key : String) : Session := ⟨key, none, none, [], .stopped, 0, 0, 0, false⟩

instance : Inhabited Session := ⟨.new ""⟩

end Session
end LanguageRelay
