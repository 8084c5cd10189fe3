import LanguageRelay.Message.Event
namespace LanguageRelay

inductive StartError where
  | notFound (command : String)
  | spawnFailed (command reason : String)
  | closed
deriving DecidableEq, Repr

def StartError.message : StartError → String
  | .notFound command => s!"{command} not found"
  | .spawnFailed command reason => s!"spawning {command}: {reason}"
  | .closed => "session is shut down"

def exitedMessage : String := "language server process has exited"

inductive RouteError where
  | unknownServerKey (key : String)
  | shutDown
deriving DecidableEq, Repr

namespace RouteError

def message : RouteError → String
  | .unknownServerKey key => s!"no language server spec for key '{key}'"
  | .shutDown => "session manager is shut down"

def code : RouteError → ErrorCode
  | .unknownServerKey _ => .unknownServerKey
  | .shutDown => .shutDown

end RouteError
end LanguageRelay
