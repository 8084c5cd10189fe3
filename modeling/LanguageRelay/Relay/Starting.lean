import LanguageRelay.Relay.Delivery
namespace LanguageRelay

-- What follows for those who asked for a server when one runs: a new subscriber is told, unless the
-- start has told everyone, and a message is offered.
def AfterStart.whenRunning (s : SessionId) (p : ServerId) (isNew : Bool) : AfterStart → List Activity
  | .subscribed c => if isNew then [] else [.tellState s c]
  | .ensured => []
  | .routing c message => [.offer (.client s c) p message]

def AfterStart.whenRefused (s : SessionId) (error : StartError) : AfterStart → List Activity
  | .subscribed _ => []
  | .ensured => []
  | .routing c _ => [.notify s c s!"message dropped, server not running: {error.message}"]

namespace Machine

def publish (m : Machine) (s : SessionId) (exit : ServerExit) : List Activity :=
  let state := if exit.isClean then SessionState.stopped else SessionState.crashed
  [.setState s state, .broadcast s (.status ⟨(m.session s).key, state, exit.code, none⟩)]

def look (m : Machine) (t : TaskId) (s : SessionId) (next : AfterStart) : Turn :=
  if (m.session s).lock.isSome then none
  else
    let locked := m.updateSession s fun session => { session with lock := some t }
    match (m.session s).slot with
    | none => some (locked, [.begin s next])
    | some slot =>
      match (m.server slot.server).exit with
      | none =>
        some (m.answer t (.started none), next.whenRunning s slot.server false)
      | some exit =>
        some (locked.updateSession s fun session => { session with slot := none },
          m.publish s exit ++ [.begin s next])

def begin (m : Machine) (s : SessionId) (next : AfterStart) : Turn :=
  if (m.session s).closed then some (m, [.refused s next .closed])
  else
    some (m.updateSession s fun session => { session with generation := session.generation + 1 },
      [.setState s .starting, .broadcast s (m.stateEvent s .starting), .spawn s next])

def unlock (m : Machine) (s : SessionId) : Machine :=
  m.updateSession s fun session => { session with lock := none }

-- A server has been started and takes the slot. Two tasks look after it: one reads its output, the
-- other waits for its end.
def installed (m : Machine) (s : SessionId) (next : AfterStart) (server : Server) : Turn :=
  let p := m.servers.length
  let generation := (m.session s).generation
  let filled := { m with servers := m.servers ++ [server] }.updateSession s fun session =>
    { session with slot := some ⟨generation, p⟩, spawnCount := session.spawnCount + 1 }
  some ((filled.addTask [.pump s p]).addTask [.awaitExit s generation p],
    [.setState s .running, .broadcast s (m.stateEvent s .running), .started s next p])

-- A start breaks down when the child runs already. The child is killed, the lock is given back, and the
-- session stays as it is; nobody is told.
def brokenDown (m : Machine) (s : SessionId) : Turn :=
  some ({ m.unlock s with strays := m.strays ++ [some s] }, [.breakdown])

def spawned (setup : Setup) (m : Machine) (s : SessionId) (next : AfterStart) : Turn :=
  match Server.start? (some s) setup.settings.processQueue with
  | some server => m.installed s next server
  | none => m.brokenDown s

def notSpawned (m : Machine) (s : SessionId) (next : AfterStart) (error : StartError) : Turn :=
  let key := (m.session s).key
  some (m,
    [.setState s .crashed, .broadcast s (.status ⟨key, .crashed, none, some error.message⟩),
      .broadcast s (.error key ErrorCode.serverStartFailed.value error.message),
      .refused s next error])

def started (m : Machine) (t : TaskId) (s : SessionId) (next : AfterStart) (p : ServerId) : Turn :=
  some ((m.unlock s).answer t (.started none), next.whenRunning s p true)

def refused (m : Machine) (t : TaskId) (s : SessionId) (next : AfterStart)
    (error : StartError) : Turn :=
  some ((m.unlock s).answer t (.started (some error)), next.whenRefused s error)

def setState (m : Machine) (s : SessionId) (state : SessionState) : Turn :=
  some (m.updateSession s fun session => { session with state }, [])

def awaitExit (m : Machine) (s : SessionId) (generation : Nat) (p : ServerId) : Turn :=
  (m.server p).exit.map fun exit => (m, [.vacate s generation exit])

def vacate (m : Machine) (t : TaskId) (s : SessionId) (generation : Nat) (exit : ServerExit) :
    Turn :=
  if (m.session s).lock.isSome then none
  else if (m.session s).slot.any fun slot => slot.generation == generation then
    some (m.updateSession s fun session => { session with lock := some t, slot := none },
      m.publish s exit ++ [.unlock s])
  else some (m, [])

end Machine
end LanguageRelay
