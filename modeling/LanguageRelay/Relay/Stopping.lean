import LanguageRelay.Relay.Starting
namespace LanguageRelay.Machine

-- Asks a child to finish: its input is closed behind what still waits for it. When the grace is over it
-- is killed.
def stop (m : Machine) (p : ServerId) (grace : Nat) : Turn :=
  some (m.setServer p { m.server p with stopRequested := true },
    [.askToFinish p grace (m.clock + grace)])

-- Asks the writer to finish. That takes room in the queue, for which it waits no longer than the
-- grace.
def askToFinish (m : Machine) (p : ServerId) (grace deadline : Nat) : Turn :=
  let next := [Activity.awaitEnd p (m.clock + grace)]
  match (m.server p).enqueue? .finish with
  | some (_, server) => some (m.setServer p server, next)
  | none => if deadline ≤ m.clock then some (m, next) else none

def awaitEnd (m : Machine) (p : ServerId) (deadline : Nat) : Turn :=
  match (m.server p).exit with
  | some exit => some (m, [.abandon p exit])
  | none =>
    if deadline ≤ m.clock then
      some (m.setServer p { m.server p with killRequested := true }, [.awaitKilled p])
    else none

def awaitKilled (m : Machine) (p : ServerId) : Turn :=
  (m.server p).exit.map fun exit => (m, [.abandon p exit])

def abandon (m : Machine) (t : TaskId) (p : ServerId) (exit : ServerExit) : Turn :=
  some ((m.setServer p (m.server p).stopWriter).answer t (.exited exit), [])

-- Plans a teardown for the present epoch: at once, or when a timer of its own has run out.
def planTeardown (setup : Setup) (m : Machine) (s : SessionId) : Turn :=
  let epoch := (m.session s).epoch
  if setup.settings.idleTimeout = 0 then some (m, [.teardown s epoch])
  else some (m.addTask [.startTimer s epoch], [])

def startTimer (setup : Setup) (m : Machine) (s : SessionId) (epoch : Nat) : Turn :=
  some (m, [.awaitTimer s epoch (m.clock + setup.settings.idleTimeout)])

def awaitTimer (m : Machine) (s : SessionId) (epoch deadline : Nat) : Turn :=
  if deadline ≤ m.clock then some (m, [.teardown s epoch]) else none

-- Takes the lock for a teardown. In a later epoch it is given back at once.
def teardown (m : Machine) (t : TaskId) (s : SessionId) (epoch : Nat) : Turn :=
  if (m.session s).lock.isSome then none
  else if (m.session s).epoch = epoch then
    some (m.updateSession s fun session => { session with lock := some t },
      [.teardownUnlessUsed s])
  else some (m, [])

-- Stops the server if nobody is subscribed. Nobody is left to be told.
def teardownUnlessUsed (setup : Setup) (m : Machine) (s : SessionId) : Turn :=
  match (m.session s).subscribers, (m.session s).slot with
  | [], some slot =>
    some (m.updateSession s fun session => { session with slot := none },
      [.stop slot.server setup.settings.shutdownGrace, .setState s .stopped, .unlock s])
  | _, _ => some (m.unlock s, [])

def close (m : Machine) (s : SessionId) : Turn :=
  some (m.updateSession s fun session => { session with closed := true }, [.takeSlot s])

def takeSlot (setup : Setup) (m : Machine) (s : SessionId) : Turn :=
  if (m.session s).lock.isSome then none
  else
    let stops := match (m.session s).slot with
      | some slot => [Activity.stop slot.server setup.settings.shutdownGrace]
      | none => []
    some (m.updateSession s fun session => { session with slot := none },
      stops ++ [.setState s .stopped, .broadcast s (m.stateEvent s .stopped), .clear s])

def clear (m : Machine) (s : SessionId) : Turn :=
  some (m.updateSession s fun session => { session with subscribers := [] }, [])

end LanguageRelay.Machine
