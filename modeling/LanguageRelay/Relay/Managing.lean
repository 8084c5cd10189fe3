import LanguageRelay.Relay.Subscribing
namespace LanguageRelay.Machine

def refuse (m : Machine) (t : TaskId) (error : RouteError) : Turn :=
  some (m.answer t (.refused error), [])

-- Looks at a request for a key: the relay runs and knows the key. What the task has answered to an
-- earlier request does not count any more.
def enter (setup : Setup) (m : Machine) (t : TaskId) (key : String) (c : ConnectionId)
    (message : Option Message) : Turn :=
  let asked := m.updateTask t fun task => { task with reply := none }
  if m.isShutDown then asked.refuse t .shutDown
  else if (setup.specs.find? key).isNone then asked.refuse t (.unknownServerKey key)
  else some (asked, [.findSession key c message])

def visit (s : SessionId) (c : ConnectionId) (message : Option Message) : List Activity :=
  .subscribe s c :: match message with
    | some message => [.route s c message]
    | none => []

def findSession (m : Machine) (t : TaskId) (key : String) (c : ConnectionId)
    (message : Option Message) : Turn :=
  if m.mapLock.isSome then none
  else if m.isShutDown then m.refuse t .shutDown
  else
    match m.map.find? key with
    | some s => some (m, visit s c message)
    | none =>
      let s := m.sessions.length
      some ({ m with sessions := m.sessions ++ [.new key], map := m.map.insert key s },
        visit s c message)

def leaveAll (m : Machine) (c : ConnectionId) : Turn :=
  if m.mapLock.isSome then none
  else some (m, m.map.map fun e => .detach e.2 c)

def report (setup : Setup) (m : Machine) (t : TaskId) : Turn :=
  if m.mapLock.isSome then none
  else some ({ m with mapLock := some t }, [.reportState setup.specs.keys []])

def statusOf (setup : Setup) (key : String) (state : SessionState) (count : Nat) : ServerStatus :=
  match setup.specs.find? key with
  | some spec => { ServerStatus.idle spec with state := state, subscriberCount := count }
  | none => default

def reportState (setup : Setup) (m : Machine) (t : TaskId) (keys : List String)
    (found : Keyed ServerStatus) : Turn :=
  match keys with
  | [] => some ({ m with mapLock := none }.answer t (.report (StatusReport.ofSessions found)), [])
  | key :: rest =>
    match m.map.find? key with
    | none => some (m, [.reportState rest (found.insert key (statusOf setup key .stopped 0))])
    | some s => some (m, [.reportCount key (m.session s).state s rest found])

def reportCount (setup : Setup) (m : Machine) (key : String) (state : SessionState) (s : SessionId)
    (keys : List String) (found : Keyed ServerStatus) : Turn :=
  let count := (m.session s).subscribers.length
  some (m, [.reportState keys (found.insert key (statusOf setup key state count))])

-- Announces that the relay shuts down. Only the first announcement does more.
def shutDown (m : Machine) : Turn :=
  some ({ m with isShutDown := true }, if m.isShutDown then [] else [.drain])

-- The announcement comes first, so that no session is made that the drain would miss.
def drain (m : Machine) : Turn :=
  if m.mapLock.isSome then none
  else
    let closing := m.map.foldl (fun machine e => machine.addTask [.close e.2]) { m with map := [] }
    some (closing, [.join ((List.range m.map.length).map (m.tasks.length + ·))])

def join (m : Machine) (tasks : List TaskId) : Turn :=
  if tasks.all fun t => (m.task t).isDone then some (m, []) else none

end LanguageRelay.Machine
