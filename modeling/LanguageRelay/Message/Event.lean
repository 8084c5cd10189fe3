import LanguageRelay.Message.Basic
import LanguageRelay.Status.State
namespace LanguageRelay
open Json

structure StatusEvent where
  key : String
  state : SessionState
  exitCode : Option Int
  message : Option String
deriving DecidableEq, Repr, Inhabited

def StatusEvent.plain (key : String) (state : SessionState) : StatusEvent := ⟨key, state, none, none⟩

inductive ClientEvent where
  | message (m : Message)
  | status (event : StatusEvent)
  | error (key : String) (code : Int) (text : String)
deriving DecidableEq, Repr, Inhabited

inductive ErrorCode where
  | unknownServerKey
  | shutDown
  | serverNotRunning
  | serverStartFailed
deriving DecidableEq, Repr

def ErrorCode.value : ErrorCode → Int
  | .unknownServerKey => -32001
  | .shutDown => -32002
  | .serverNotRunning => -32003
  | .serverStartFailed => -32004

def notification (method : String) (params : List (String × Value)) : Value :=
  .object [("jsonrpc", .text "2.0"), ("method", .text method), ("params", .object params)]

def statusMethod : String := "$/lspBridge/status"
def errorMethod : String := "$/lspBridge/error"

def StatusEvent.params (e : StatusEvent) : List (String × Value) :=
  [("key", .text e.key), ("state", .text e.state.name)]
    ++ (match e.exitCode with
      | some code => [("exitCode", .number (.integer code))]
      | none => [])
    ++ match e.message with
      | some text => [("message", .text text)]
      | none => []

def ClientEvent.toMessage : ClientEvent → Message
  | .message m => m
  | .status e => .ofValue (notification statusMethod e.params)
  | .error key code text => .ofValue (notification errorMethod
      [("key", .text key), ("code", .number (.integer code)), ("message", .text text)])

end LanguageRelay
