import LanguageRelay.Launch.Spec
import LanguageRelay.Listener.Scripted
import LanguageRelay.Relay.Task
import LanguageRelay.Settings.Basic
namespace LanguageRelay

structure Setup where
  specs : Keyed LaunchSpec
  settings : SessionSettings
  chain : ListenerChain ListenerEffect

structure Socket where
  key : String
  connection : ConnectionId
  reader : TaskId
  forwarder : TaskId
  incoming : List SocketFrame
  outgoing : List String
  otherGone : Bool
  closed : Bool
  held : Bool
deriving Repr, Inhabited

-- Sessions, servers, connections, sockets and tasks are numbered in the order in which they came about,
-- and none is ever taken away.
structure Machine where
  clock : Nat
  isShutDown : Bool
  mapLock : Option TaskId
  map : Keyed SessionId
  sessions : List Session
  servers : List Server
  connections : List Connection
  sockets : List Socket
  tasks : List Task
  -- Children that run though their start broke down. Each has been killed and belongs to the session that
  -- started it, if one did; nobody waits for its end.
  strays : List (Option SessionId)
  effects : List ListenerEffect
deriving Inhabited

-- What a step of a task leads to: the machine after it, and the frames in the place of its own.
abbrev Turn := Option (Machine × List Activity)

namespace Machine

def initial : Machine := ⟨0, false, none, [], [], [], [], [], [], [], []⟩

def session (m : Machine) (s : SessionId) : Session := m.sessions.getD s default
def server (m : Machine) (p : ServerId) : Server := m.servers.getD p default
def connection (m : Machine) (c : ConnectionId) : Connection := m.connections.getD c default
def socket (m : Machine) (k : SocketId) : Socket := m.sockets.getD k default
def task (m : Machine) (t : TaskId) : Task := m.tasks.getD t default

def updateSession (m : Machine) (s : SessionId) (f : Session → Session) : Machine :=
  { m with sessions := m.sessions.modify s f }

def setServer (m : Machine) (p : ServerId) (server : Server) : Machine :=
  { m with servers := m.servers.set p server }

def setConnection (m : Machine) (c : ConnectionId) (connection : Connection) : Machine :=
  { m with connections := m.connections.set c connection }

def updateSocket (m : Machine) (k : SocketId) (f : Socket → Socket) : Machine :=
  { m with sockets := m.sockets.modify k f }

def updateTask (m : Machine) (t : TaskId) (f : Task → Task) : Machine :=
  { m with tasks := m.tasks.modify t f }

def addTask (m : Machine) (frames : List Activity) : Machine :=
  { m with tasks := m.tasks ++ [⟨frames, none⟩] }

-- A task says something. What it has said first counts.
def answer (m : Machine) (t : TaskId) (reply : Reply) : Machine :=
  m.updateTask t fun task => { task with reply := task.reply.or (some reply) }

def askListeners (setup : Setup) (m : Machine) (direction : Direction) (s : SessionId)
    (message : Message) : Option Message × Machine :=
  let key := (m.session s).key
  let languages := ((setup.specs.find? key).map LaunchSpec.languages).getD []
  let (result, effects) := setup.chain.apply direction ⟨key, languages⟩ message
  (result, { m with effects := m.effects ++ effects })

-- Somebody still holds the sending side of a connection. A connection that no socket holds is held
-- by whoever made it, which is not said here.
def isHeld (m : Machine) (c : ConnectionId) : Bool :=
  m.sessions.any (fun s => s.subscribers.contains c)
    || m.sockets.any (fun k => k.held && k.connection == c && !(m.task k.reader).isBroken)
    || m.tasks.any fun t => !t.isBroken && t.frames.any (Activity.holds c)

end Machine
end LanguageRelay
