import LanguageRelay.Rehearsal.Schedule
namespace LanguageRelay.Rehearsal

inductive Arrival where
  | event (event : ClientEvent)
  | closed
  | late
deriving DecidableEq, Repr

namespace Stage

-- Nothing more comes to a connection. `dropped` says that whoever made it has let go of it.
def hasEnded (stage : Stage) (c : ConnectionId) (dropped : Bool) : Bool :=
  let connection := stage.machine.connection c
  connection.queue.isEmpty
    && (!connection.receiving || (dropped && !stage.machine.isHeld c))

def receive (stage : Stage) (c : ConnectionId) (dropped : Bool) : Stage × Arrival :=
  let (stage, done) := stage.await fun stage =>
    !(stage.machine.connection c).queue.isEmpty || stage.hasEnded c dropped
  match (stage.machine.connection c).receive? with
  | some (event, _) => (stage.after (.receive c), .event event)
  | none => (stage, if done then .closed else .late)

def receiveMany (c : ConnectionId) (dropped : Bool) : Nat → Stage → Stage × List Arrival
  | 0, stage => (stage, [])
  | n + 1, stage =>
    match stage.receive c dropped with
    | (stage, .event event) =>
      let (stage, others) := receiveMany c dropped n stage
      (stage, .event event :: others)
    | (stage, last) => (stage, [last])

def receiveWhere (wanted : ClientEvent → Bool) (c : ConnectionId) (dropped : Bool) :
    Nat → Stage → Stage × Arrival
  | 0, stage => (stage, .late)
  | n + 1, stage =>
    match stage.receive c dropped with
    | (stage, .event event) =>
      if wanted event then (stage, .event event) else receiveWhere wanted c dropped n stage
    | (stage, last) => (stage, last)

def waitExit (stage : Stage) (p : ServerId) : Stage × Option ServerExit :=
  let (stage, _) := stage.wait fun stage => (stage.machine.server p).exit.isSome
  (stage, (stage.machine.server p).exit)

-- Takes the next frame from a socket. It has come a long way, so the relay is quiet by then.
def collect (stage : Stage) (k : SocketId) : Stage × Option String × Bool :=
  let (stage, done) := stage.wait fun stage =>
    !(stage.machine.socket k).outgoing.isEmpty || (stage.machine.socket k).closed
  match (stage.machine.socket k).outgoing with
  | text :: _ => (stage.happens (.collect k), some text, done)
  | [] => (stage, none, done)

def deliver? (stage : Stage) (k : SocketId) (frame : SocketFrame) : Option Stage :=
  let socket := stage.machine.socket k
  if socket.closed || socket.otherGone then none else some (stage.happens (.incoming k frame))

end Stage
end LanguageRelay.Rehearsal
