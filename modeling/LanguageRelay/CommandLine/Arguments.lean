import LanguageRelay.Host.Environment
import LanguageRelay.Net.Address
namespace LanguageRelay.CommandLine

structure Arguments where
  config : Option String
  bind : Option Net.Address
  baseUrl : Option String
deriving DecidableEq, Repr, Inhabited

inductive Refusal where
  | help
  | version
  | usage
deriving DecidableEq, Repr

inductive OptionName where
  | config
  | bind
  | baseUrl
deriving DecidableEq, Repr

namespace OptionName

def ofText? : String → Option OptionName
  | "config" => some .config
  | "bind" => some .bind
  | "base-url" => some .baseUrl
  | _ => none

def environmentName : OptionName → String
  | .config => "LSP_BRIDGE_CONFIG"
  | .bind => "LSP_BRIDGE_BIND"
  | .baseUrl => "LSP_BRIDGE_BASE_URL"

end OptionName

namespace Arguments

def has (arguments : Arguments) : OptionName → Bool
  | .config => arguments.config.isSome
  | .bind => arguments.bind.isSome
  | .baseUrl => arguments.baseUrl.isSome

def withValue (arguments : Arguments) (value : String) : OptionName → Except Refusal Arguments
  | .config => if value = "" then .error .usage else .ok { arguments with config := some value }
  | .bind =>
    match Net.Address.read? value with
    | some address => .ok { arguments with bind := some address }
    | none => .error .usage
  | .baseUrl => .ok { arguments with baseUrl := some value }

def withOption (arguments : Arguments) (option : OptionName) (value : String) :
    Except Refusal Arguments :=
  if arguments.has option then .error .usage else arguments.withValue value option

def isValue (word : String) : Bool := word = "-" || word.toList.head? != some '-'

def splitLong (chars : List Char) : String × Option String :=
  match chars.dropWhile (· != '=') with
  | _ :: value => (String.ofList (chars.takeWhile (· != '=')), some (String.ofList value))
  | [] => (String.ofList chars, none)

-- Reads words from left to right. The first one that is wrong or ends the program decides.
def read (arguments : Arguments) : List String → Except Refusal Arguments
  | [] => .ok arguments
  | word :: rest =>
    match word.toList with
    | ['-', '-'] => if rest = [] then .ok arguments else .error .usage
    | '-' :: '-' :: chars =>
      match splitLong chars with
      | ("help", none) => .error .help
      | ("version", none) => .error .version
      | (name, value) =>
        match OptionName.ofText? name, value, rest with
        | some option, some value, rest =>
          match arguments.withOption option value with
          | .ok next => next.read rest
          | .error refusal => .error refusal
        | some option, none, value :: rest =>
          if !isValue value then .error .usage
          else
            match arguments.withOption option value with
            | .ok next => next.read rest
            | .error refusal => .error refusal
        | _, _, _ => .error .usage
    | '-' :: 'h' :: _ => .error .help
    | '-' :: 'V' :: _ => .error .version
    | _ => .error .usage

def fromEnvironment (host : Host) (arguments : Arguments) (option : OptionName) :
    Except Refusal Arguments :=
  match arguments.has option, host.valueOf? option.environmentName with
  | false, some value => arguments.withValue value option
  | _, _ => .ok arguments

def ofWords (host : Host) (words : List String) : Except Refusal Arguments := do
  let arguments ← read ⟨none, none, none⟩ words
  let arguments ← fromEnvironment host arguments .config
  let arguments ← fromEnvironment host arguments .bind
  fromEnvironment host arguments .baseUrl

end Arguments
end LanguageRelay.CommandLine
