import LanguageRelay.Relay.Machine
namespace LanguageRelay.Machine

def stateEvent (m : Machine) (s : SessionId) (state : SessionState) : ClientEvent :=
  .status (.plain (m.session s).key state)

def broadcast (m : Machine) (s : SessionId) (event : ClientEvent) : Turn :=
  some (m, [.deliver s (m.session s).subscribers [] event])

-- An event goes to the subscribers of one moment, one after the other. A connection whose queue is full is
-- evicted, one that has gone away is passed over, and in the end both are removed.
def deliver (m : Machine) (s : SessionId) (pending gone : List ConnectionId)
    (event : ClientEvent) : Turn :=
  match pending with
  | [] => some (m, if gone = [] then [] else [.remove s gone])
  | c :: rest =>
    match (m.connection c).deliver event with
    | (.queued, connection) => some (m.setConnection c connection, [.deliver s rest gone event])
    | (.full, _) => some (m, [.evict c, .deliver s rest (gone ++ [c]) event])
    | (.closed, _) => some (m, [.deliver s rest (gone ++ [c]) event])

def evict (m : Machine) (c : ConnectionId) : Turn :=
  some (m.setConnection c (m.connection c).evict, [])

def remove (m : Machine) (s : SessionId) (gone : List ConnectionId) : Turn :=
  some (m.updateSession s fun session =>
    { session with subscribers := session.subscribers.filter fun c => !gone.contains c }, [])

def tellState (m : Machine) (s : SessionId) (c : ConnectionId) : Turn :=
  some (m, [.deliver s [c] [] (m.stateEvent s (m.session s).state)])

def notify (m : Machine) (s : SessionId) (c : ConnectionId) (text : String) : Turn :=
  some (m,
    if c ∈ (m.session s).subscribers then
      [.deliver s [c] [] (.error (m.session s).key ErrorCode.serverNotRunning.value text)]
    else [])

end LanguageRelay.Machine
