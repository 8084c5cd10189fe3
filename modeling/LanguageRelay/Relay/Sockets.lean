import LanguageRelay.Relay.Managing
namespace LanguageRelay

def Socket.flushTime : Nat := 1000

inductive Attention where
  | frame
  | forwarderDone
  | shutDown
  | evicted
deriving DecidableEq, Repr

namespace Machine

def openSocket (m : Machine) (key : String) (connection : Connection) : Machine :=
  let c := m.connections.length
  let k := m.sockets.length
  let reader := m.tasks.length
  let socket : Socket := ⟨key, c, reader, reader + 1, [], [], false, false, true⟩
  let opened := { m with
    connections := m.connections ++ [connection]
    sockets := m.sockets ++ [socket] }
  (opened.addTask [.enter key c none, .reportRefusal k, .listen k]).addTask [.forward k]

def reportRefusal (m : Machine) (t : TaskId) (k : SocketId) : Turn :=
  match (m.task t).reply with
  | some (.refused error) =>
    let socket := m.socket k
    let event := ClientEvent.error socket.key error.code.value error.message
    let told := ((m.connection socket.connection).deliver event).2
    some ((m.setConnection socket.connection told).updateTask t
      fun task => { task with reply := none }, [])
  | _ => some (m, [])

def leaving (m : Machine) (k : SocketId) : List Activity :=
  [.leaveAll (m.socket k).connection, .leave k]

def attend (m : Machine) (k : SocketId) (attention : Attention) : Turn :=
  let socket := m.socket k
  match attention, socket.incoming with
  | .frame, [] => none
  | .frame, frame :: rest =>
    let read := m.updateSocket k fun socket => { socket with incoming := rest }
    match frame with
    | .text body =>
      some (read, [.enter socket.key socket.connection (some ⟨body⟩), .reportRefusal k, .listen k])
    | .other => some (read, [.listen k])
    | .close => some (read, m.leaving k)
  | .forwarderDone, _ => if (m.task socket.forwarder).isDone then some (m, m.leaving k) else none
  | .shutDown, _ => if m.isShutDown then some (m, m.leaving k) else none
  | .evicted, _ =>
    if (m.connection socket.connection).evicted then some (m, m.leaving k) else none

def leave (m : Machine) (k : SocketId) : Turn :=
  some (m.updateSocket k fun socket => { socket with held := false },
    [.awaitFlush k (m.clock + Socket.flushTime)])

def awaitFlush (m : Machine) (k : SocketId) (deadline : Nat) : Turn :=
  let socket := m.socket k
  if (m.task socket.forwarder).isDone then some (m, [])
  else if deadline ≤ m.clock then
    let dropped := m.setConnection socket.connection (m.connection socket.connection).hangUp
    let closed := dropped.updateSocket k fun socket => { socket with closed := true }
    some (closed.updateTask socket.forwarder fun task => { task with frames := [] }, [])
  else none

def closeSocket (m : Machine) (k : SocketId) : Machine :=
  let c := (m.socket k).connection
  (m.setConnection c (m.connection c).hangUp).updateSocket k
    fun socket => { socket with closed := true }

def forward (m : Machine) (k : SocketId) : Turn :=
  let socket := m.socket k
  match (m.connection socket.connection).receive? with
  | some (event, connection) =>
    let taken := m.setConnection socket.connection connection
    if socket.otherGone then some (taken.closeSocket k, [])
    else
      some (taken.updateSocket k fun socket =>
        { socket with outgoing := socket.outgoing ++ [event.toMessage.body] }, [.forward k])
  | none => if m.isHeld socket.connection then none else some (m.closeSocket k, [])

end Machine
end LanguageRelay
