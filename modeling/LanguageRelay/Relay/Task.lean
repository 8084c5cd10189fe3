import LanguageRelay.Relay.Connection
import LanguageRelay.Relay.Refusal
import LanguageRelay.Relay.Session
import LanguageRelay.Status.Report
namespace LanguageRelay

inductive AfterStart where
  | subscribed (connection : ConnectionId)
  | ensured
  | routing (connection : ConnectionId) (message : Message)
deriving DecidableEq, Repr, Inhabited

inductive SocketFrame where
  | text (body : String)
  | other
  | close
deriving DecidableEq, Repr, Inhabited

inductive Activity where
  -- Delivering events.
  | broadcast (s : SessionId) (event : ClientEvent)
  | deliver (s : SessionId) (pending gone : List ConnectionId) (event : ClientEvent)
  | evict (c : ConnectionId)
  | remove (s : SessionId) (gone : List ConnectionId)
  | tellState (s : SessionId) (c : ConnectionId)
  | notify (s : SessionId) (c : ConnectionId) (text : String)
  -- Starting a server.
  | look (s : SessionId) (next : AfterStart)
  | begin (s : SessionId) (next : AfterStart)
  | spawn (s : SessionId) (next : AfterStart)
  | started (s : SessionId) (next : AfterStart) (p : ServerId)
  | refused (s : SessionId) (next : AfterStart) (error : StartError)
  | breakdown
  | setState (s : SessionId) (state : SessionState)
  | unlock (s : SessionId)
  -- The end of a server.
  | awaitExit (s : SessionId) (generation : Nat) (p : ServerId)
  | vacate (s : SessionId) (generation : Nat) (exit : ServerExit)
  | stop (p : ServerId) (grace : Nat)
  | askToFinish (p : ServerId) (grace deadline : Nat)
  | awaitEnd (p : ServerId) (deadline : Nat)
  | awaitKilled (p : ServerId)
  | abandon (p : ServerId) (exit : ServerExit)
  -- Subscribers.
  | subscribe (s : SessionId) (c : ConnectionId)
  | attach (s : SessionId) (c : ConnectionId)
  | newEpoch (s : SessionId) (c : ConnectionId)
  | detach (s : SessionId) (c : ConnectionId)
  -- Idle sessions.
  | planTeardown (s : SessionId)
  | startTimer (s : SessionId) (epoch : Nat)
  | awaitTimer (s : SessionId) (epoch deadline : Nat)
  | teardown (s : SessionId) (epoch : Nat)
  | teardownUnlessUsed (s : SessionId)
  -- Messages.
  | route (s : SessionId) (c : ConnectionId) (message : Message)
  | offer (sender : Sender) (p : ServerId) (message : Message)
  | enqueue (sender : Sender) (p : ServerId) (message : Message)
  | pump (s : SessionId) (p : ServerId)
  | fanOut (s : SessionId) (message : Message)
  | checkUsed (s : SessionId)
  | next (p : ServerId)
  -- Closing a session.
  | close (s : SessionId)
  | takeSlot (s : SessionId)
  | clear (s : SessionId)
  -- The relay as a whole.
  | enter (key : String) (c : ConnectionId) (message : Option Message)
  | findSession (key : String) (c : ConnectionId) (message : Option Message)
  | leaveAll (c : ConnectionId)
  | report
  | reportState (keys : List String) (found : Keyed ServerStatus)
  | reportCount (key : String) (state : SessionState) (s : SessionId) (keys : List String)
      (found : Keyed ServerStatus)
  | shutDown
  | drain
  | join (tasks : List TaskId)
  -- Sockets.
  | reportRefusal (k : SocketId)
  | listen (k : SocketId)
  | leave (k : SocketId)
  | awaitFlush (k : SocketId) (deadline : Nat)
  | forward (k : SocketId)
deriving Repr, Inhabited

inductive Reply where
  | refused (error : RouteError)
  | started (error : Option StartError)
  | accepted (taken : Bool)
  | removed (present : Bool)
  | exited (exit : ServerExit)
  | output (message : Option Message)
  | report (report : StatusReport)
deriving DecidableEq, Repr

-- A task does what the frame on top says, in one step, and what follows takes the place of that frame.
-- Whatever others may see in between is a step of its own.
structure Task where
  frames : List Activity
  reply : Option Reply
deriving Repr, Inhabited

def Activity.holds (c : ConnectionId) : Activity → Bool
  | .deliver _ pending _ _ => pending.contains c
  | .tellState _ d | .subscribe _ d | .attach _ d | .newEpoch _ d => d == c
  | .look _ (.subscribed d) | .begin _ (.subscribed d) | .spawn _ (.subscribed d)
  | .started _ (.subscribed d) _ | .refused _ (.subscribed d) _ => d == c
  | .enter _ d _ | .findSession _ d _ => d == c
  | _ => false

def Task.isDone (task : Task) : Bool := task.frames.isEmpty

-- A step of the task broke down. It has let go of what it had and does nothing any more.
def Task.isBroken (task : Task) : Bool :=
  match task.frames with
  | .breakdown :: _ => true
  | _ => false

end LanguageRelay
