import LanguageRelay.Relay.Sockets
namespace LanguageRelay

inductive Operation where
  | subscribe (key : String) (c : ConnectionId)
  | route (key : String) (c : ConnectionId) (message : Message)
  | subscribeDirect (s : SessionId) (c : ConnectionId)
  | routeDirect (s : SessionId) (c : ConnectionId) (message : Message)
  | unsubscribe (c : ConnectionId)
  | detach (s : SessionId) (c : ConnectionId)
  | ensureStarted (s : SessionId)
  | closeSession (s : SessionId)
  | report
  | shutDown
  | offer (p : ServerId) (message : Message)
  | nextOutput (p : ServerId)
  | stop (p : ServerId) (grace : Nat)
deriving Repr

def Operation.frames : Operation → List Activity
  | .subscribe key c => [.enter key c none]
  | .route key c message => [.enter key c (some message)]
  | .subscribeDirect s c => [.subscribe s c]
  | .routeDirect s c message => [.route s c message]
  | .unsubscribe c => [.leaveAll c]
  | .detach s c => [.detach s c]
  | .ensureStarted s => [.look s .ensured]
  | .closeSession s => [.close s]
  | .report => [.report]
  | .shutDown => [.shutDown]
  | .offer p message => [.offer .outside p message]
  | .nextOutput p => [.next p]
  | .stop p grace => [.stop p grace]

-- The sessions, connections and servers that are asked about are there. Nobody can ask about
-- others.
def Operation.isKnown (m : Machine) : Operation → Bool
  | .subscribe _ c | .route _ c _ | .unsubscribe c => c < m.connections.length
  | .subscribeDirect s c | .routeDirect s c _ | .detach s c =>
    s < m.sessions.length && c < m.connections.length
  | .ensureStarted s | .closeSession s => s < m.sessions.length
  | .offer p _ | .nextOutput p | .stop p _ => p < m.servers.length
  | .report | .shutDown => true

-- One step of the relay or of the world around it.
inductive Event where
  | call (operation : Operation)
  | run (t : TaskId)
  | launch (t : TaskId) (failure : Option StartError)
  | attend (t : TaskId) (attention : Attention)
  | connect (capacity : Nat)
  | receive (c : ConnectionId)
  | hangUp (c : ConnectionId)
  | openSocket (key : String)
  | incoming (k : SocketId) (frame : SocketFrame)
  | collect (k : SocketId)
  | startAlone (queueLimit : Nat)
  | release (p : ServerId)
  | write (p : ServerId) (count : Nat)
  | watch (p : ServerId) (wake : Wake)
  | childReads (p : ServerId) (count : Nat)
  | childWrites (p : ServerId) (bytes : Bytes)
  | inputCloses (p : ServerId)
  | outputCloses (p : ServerId)
  | childEnds (p : ServerId) (code : Option Int)
  | strayEnds (place : Nat)
  | tick (milliseconds : Nat)
deriving Repr

namespace Machine

-- One step of a task whose next activity is given. Starting a server and reading a socket need to
-- know what the world does; they are events of their own.
def perform (setup : Setup) (m : Machine) (t : TaskId) : Activity → Turn
  | .broadcast s event => m.broadcast s event
  | .deliver s pending gone event => m.deliver s pending gone event
  | .evict c => m.evict c
  | .remove s gone => m.remove s gone
  | .tellState s c => m.tellState s c
  | .notify s c text => m.notify s c text
  | .look s next => m.look t s next
  | .begin s next => m.begin s next
  | .spawn _ _ => none
  | .started s next p => m.started t s next p
  | .refused s next error => m.refused t s next error
  | .breakdown => none
  | .setState s state => m.setState s state
  | .unlock s => some (m.unlock s, [])
  | .awaitExit s generation p => m.awaitExit s generation p
  | .vacate s generation exit => m.vacate t s generation exit
  | .stop p grace => m.stop p grace
  | .askToFinish p grace deadline => m.askToFinish p grace deadline
  | .awaitEnd p deadline => m.awaitEnd p deadline
  | .awaitKilled p => m.awaitKilled p
  | .abandon p exit => m.abandon t p exit
  | .subscribe s c => m.subscribe s c
  | .attach s c => m.attach s c
  | .newEpoch s c => m.newEpoch s c
  | .detach s c => m.detach t s c
  | .planTeardown s => m.planTeardown setup s
  | .startTimer s epoch => m.startTimer setup s epoch
  | .awaitTimer s epoch deadline => m.awaitTimer s epoch deadline
  | .teardown s epoch => m.teardown t s epoch
  | .teardownUnlessUsed s => m.teardownUnlessUsed setup s
  | .route s c message => m.route setup s c message
  | .offer sender p message => m.offer t sender p message
  | .enqueue sender p message => m.enqueue t sender p message
  | .pump s p => m.pump s p
  | .fanOut s message => m.fanOut setup s message
  | .checkUsed s => m.checkUsed s
  | .next p => m.next t p
  | .close s => m.close s
  | .takeSlot s => m.takeSlot setup s
  | .clear s => m.clear s
  | .enter key c message => m.enter setup t key c message
  | .findSession key c message => m.findSession t key c message
  | .leaveAll c => m.leaveAll c
  | .report => m.report setup t
  | .reportState keys found => m.reportState setup t keys found
  | .reportCount key state s keys found => m.reportCount setup key state s keys found
  | .shutDown => m.shutDown
  | .drain => m.drain
  | .join tasks => m.join tasks
  | .reportRefusal k => m.reportRefusal t k
  | .listen _ => none
  | .leave k => m.leave k
  | .awaitFlush k deadline => m.awaitFlush k deadline
  | .forward k => m.forward k

def turn (m : Machine) (t : TaskId) (take : Activity → Turn) : Option Machine :=
  match (m.task t).frames with
  | [] => none
  | activity :: rest =>
    (take activity).map fun (next, frames) =>
      next.updateTask t fun task => { task with frames := frames ++ rest }

def changeServer (m : Machine) (p : ServerId) (change : Server → Option Server) : Option Machine :=
  if p < m.servers.length then (change (m.server p)).map (m.setServer p) else none

def advance (setup : Setup) (m : Machine) : Event → Option Machine
  | .call operation => if operation.isKnown m then some (m.addTask operation.frames) else none
  | .run t => m.turn t (m.perform setup t)
  | .launch t failure => m.turn t fun
    | .spawn s next =>
      match failure with
      | none => m.spawned setup s next
      | some error => m.notSpawned s next error
    | _ => none
  | .attend t attention => m.turn t fun
    | .listen k => m.attend k attention
    | _ => none
  | .connect capacity =>
    (Connection.new? capacity).map fun c => { m with connections := m.connections ++ [c] }
  | .receive c => (m.connection c).receive?.map fun r => m.setConnection c r.2
  | .hangUp c => some (m.setConnection c (m.connection c).hangUp)
  | .openSocket key => (Connection.new? setup.settings.clientQueue).map (m.openSocket key)
  | .incoming k frame =>
    if (m.socket k).otherGone then none
    else
      some (m.updateSocket k fun socket =>
        { socket with incoming := socket.incoming ++ [frame], otherGone := frame == .close })
  | .collect k =>
    if (m.socket k).outgoing = [] then none
    else some (m.updateSocket k fun socket => { socket with outgoing := socket.outgoing.tail })
  | .startAlone queueLimit =>
    match Server.start? none queueLimit with
    | some server => some { m with servers := m.servers ++ [server] }
    | none => some { m with strays := m.strays ++ [none] }
  | .release p => m.changeServer p fun server => some { server with killRequested := true }
  | .write p count => m.changeServer p (Server.write? · count)
  | .watch p wake => m.changeServer p (Server.watch? · m.clock wake)
  | .childReads p count => m.changeServer p (Server.childReads? · count)
  | .childWrites p bytes => m.changeServer p (Server.childWrites? · bytes)
  | .inputCloses p => m.changeServer p fun server => some server.inputClosed
  | .outputCloses p => m.changeServer p fun server => some server.outputClosed
  | .childEnds p code => m.changeServer p (Server.childEnds? · code)
  | .strayEnds place =>
    if place < m.strays.length then some { m with strays := m.strays.eraseIdx place } else none
  | .tick milliseconds => some { m with clock := m.clock + milliseconds }

-- Any sequence of events, so that tasks, servers, clients and time mix in every order.
def runs (setup : Setup) (m : Machine) : List Event → Option Machine
  | [] => some m
  | event :: rest => (m.advance setup event).bind fun next => next.runs setup rest

end Machine
end LanguageRelay
