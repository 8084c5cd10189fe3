import LanguageRelay.Datum.Json
import LanguageRelay.Json.Printer
namespace LanguageRelay

inductive SessionState where
  | stopped
  | starting
  | running
  | crashed
deriving DecidableEq, Repr, Inhabited

namespace SessionState

def name : SessionState → String
  | .stopped => "stopped"
  | .starting => "starting"
  | .running => "running"
  | .crashed => "crashed"

def names : List (String × SessionState) :=
  [.stopped, .starting, .running, .crashed].map fun s => (s.name, s)

def read? : Datum.Reader SessionState := Datum.choice? names

theorem lookup_name (s : SessionState) : names.lookup s.name = some s := by cases s <;> decide

end SessionState

inductive Direction where
  | clientToServer
  | serverToClient
deriving DecidableEq, Repr, Inhabited

namespace Direction

def name : Direction → String
  | .clientToServer => "client_to_server"
  | .serverToClient => "server_to_client"

def names : List (String × Direction) :=
  [.clientToServer, .serverToClient].map fun d => (d.name, d)

def read? : Datum.Reader Direction := Datum.choice? names

end Direction
end LanguageRelay
