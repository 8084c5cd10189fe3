import LanguageRelay.CommandLine.Arguments
import LanguageRelay.Http.Routes
import LanguageRelay.Settings.Load
namespace LanguageRelay.CommandLine
open Host

inductive StartupError where
  | settings (error : Settings.LoadError)
  | baseUrl (fault : Settings.BaseUrlFault)
  | bind (address : Net.Address) (error : IoError)
deriving DecidableEq, Repr

def StartupError.message : StartupError → String
  | .settings error => error.message
  | .baseUrl fault => fault.message
  | .bind address _ => s!"Failed to bind {address.text}"

def StartupError.cause? : StartupError → Option IoError
  | .settings (.read _ error) => some error
  | .settings _ => none
  | .baseUrl _ => none
  | .bind _ error => some error

-- The report of an error. Where the details of a parse error would follow, it ends.
def StartupError.report (error : StartupError) : String :=
  match error, error.cause? with
  | .settings (.parse _), _ => s!"Error: {error.message}"
  | _, none => s!"Error: {error.message}\n"
  | _, some cause => s!"Error: {error.message}\n\nCaused by:\n    {cause.message}\n"

structure Outcome where
  code : Nat
  output : String
  report : Option String
  files : FileSystem
deriving Repr

def version : String := "lsp-bridge 0.0.0\n"

def usage : String := "\n".intercalate [
  "WebSocket bridge between web editors and language server processes",
  "",
  "Usage: lsp-bridge [OPTIONS]",
  "",
  "Options:",
  "      --config <CONFIG>      Config file. Defaults to ~/.lsp-bridge/config.toml when present [env:",
  "                             LSP_BRIDGE_CONFIG=]",
  "      --bind <BIND>          Listen address, overriding `bind` from the config [env:",
  "                             LSP_BRIDGE_BIND=]",
  "      --base-url <BASE_URL>  Route prefix, overriding `base_url` from the config [env:",
  "                             LSP_BRIDGE_BASE_URL=]",
  "  -h, --help                 Print help",
  "  -V, --version              Print version",
  ""]

def settingsFor (host : Host) (arguments : Arguments) : Except StartupError Settings :=
  match Settings.load host arguments.config with
  | .error error => .error (.settings error)
  | .ok settings =>
    let settings := { settings with bind := arguments.bind.getD settings.bind }
    match arguments.baseUrl with
    | none => .ok settings
    | some raw =>
      match Settings.normalizeBaseUrl raw with
      | .ok baseUrl => .ok { settings with baseUrl }
      | .error fault => .error (.baseUrl fault)

-- Opens a log file for appending, making the directories above it. A run goes on without one.
def openLog (files : FileSystem) (path : String) : FileSystem :=
  let made : FileSystem.Attempt := match Path.parent? path with
    | none => (.ok (), files)
    | some above => files.createAll above
  match made with
  | (.ok _, files) =>
    match files.resolve true path with
    | .ok (.absent _) => (files.attempt (files.write path [])).2
    | _ => files
  | (.error _, files) => files

def crashCode : Nat := 101

-- A run on a host that lets an address be bound or not. Nothing is given when it would serve.
def run (host : Host) (bind : Net.Address → Except IoError Unit) (words : List String) :
    Option Outcome :=
  match Arguments.ofWords host words with
  | .error .help => some ⟨0, usage, none, host.files⟩
  | .error .version => some ⟨0, version, none, host.files⟩
  | .error .usage => some ⟨2, "", none, host.files⟩
  | .ok arguments =>
    match settingsFor host arguments with
    | .error error => some ⟨1, "", some error.report, host.files⟩
    | .ok settings =>
      let files := match settings.logFile with
        | some path => openLog host.files path
        | none => host.files
      match Http.Routes.mount? settings.baseUrl with
      | none => some ⟨crashCode, "", none, files⟩
      | some _ =>
        match bind settings.bind with
        | .error error => some ⟨1, "", some (StartupError.report (.bind settings.bind error)), files⟩
        | .ok _ => none

end LanguageRelay.CommandLine
