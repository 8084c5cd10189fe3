import LanguageRelay.Relay.Stopping
namespace LanguageRelay.Machine

def subscribe (m : Machine) (s : SessionId) (c : ConnectionId) : Turn :=
  some (m, if (m.connection c).evicted then [] else [.attach s c])

def attach (m : Machine) (s : SessionId) (c : ConnectionId) : Turn :=
  if c ∈ (m.session s).subscribers then some (m, [])
  else
    some (m.updateSession s fun session => { session with subscribers := session.subscribers ++ [c] },
      [.newEpoch s c])

def newEpoch (m : Machine) (s : SessionId) (c : ConnectionId) : Turn :=
  some (m.updateSession s fun session => { session with epoch := session.epoch + 1 },
    [.look s (.subscribed c)])

-- Removes a connection from the subscribers. When it was the last one a teardown is planned.
def detach (m : Machine) (t : TaskId) (s : SessionId) (c : ConnectionId) : Turn :=
  let left := (m.session s).subscribers.filter (· != c)
  if c ∈ (m.session s).subscribers then
    some ((m.updateSession s fun session => { session with subscribers := left }).answer t
      (.removed true), if left = [] then [.planTeardown s] else [])
  else some (m.answer t (.removed false), [])

def route (setup : Setup) (m : Machine) (s : SessionId) (c : ConnectionId) (message : Message) :
    Turn :=
  match m.askListeners setup .clientToServer s message with
  | (none, m) => some (m, [])
  | (some message, m) => some (m, [.look s (.routing c message)])

def undelivered (m : Machine) (t : TaskId) : Sender → Machine × List Activity
  | .client s c => (m, [.notify s c s!"message dropped: {exitedMessage}"])
  | .outside => (m.answer t (.accepted false), [])

def offer (m : Machine) (t : TaskId) (sender : Sender) (p : ServerId) (message : Message) : Turn :=
  if (m.server p).isRunning then some (m, [.enqueue sender p message])
  else some (m.undelivered t sender)

def enqueue (m : Machine) (t : TaskId) (sender : Sender) (p : ServerId) (message : Message) : Turn :=
  match (m.server p).enqueue? (.message sender message) with
  | none => none
  | some (true, server) => some ((m.setServer p server).answer t (.accepted true), [])
  | some (false, _) => some (m.undelivered t sender)

-- Reads the next message of a server and sends it to everyone. The output ends with the first
-- malformed frame; nothing is read after that.
def pump (m : Machine) (s : SessionId) (p : ServerId) : Turn :=
  match (m.server p).nextOutput with
  | (.pending, _) => none
  | (.message message, server) => some (m.setServer p server, [.fanOut s message, .pump s p])
  | (.ended, server) =>
    some (m.setServer p { server with output := { server.output with reading := false } }, [])

def fanOut (setup : Setup) (m : Machine) (s : SessionId) (message : Message) : Turn :=
  match m.askListeners setup .serverToClient s message with
  | (none, m) => some (m, [])
  | (some message, m) => some (m, [.broadcast s (.message message), .checkUsed s])

def checkUsed (m : Machine) (s : SessionId) : Turn :=
  some (if (m.session s).subscribers = [] then m.addTask [.planTeardown s] else m, [])

def next (m : Machine) (t : TaskId) (p : ServerId) : Turn :=
  match (m.server p).nextOutput with
  | (.pending, _) => none
  | (.message message, server) => some ((m.setServer p server).answer t (.output (some message)), [])
  | (.ended, server) => some ((m.setServer p server).answer t (.output none), [])

end LanguageRelay.Machine
