import LanguageRelay.Settings.BaseUrl
import LanguageRelay.Settings.Basic
import LanguageRelay.Settings.Expansion
import LanguageRelay.Settings.ShadowDirectory
import LanguageRelay.Toml.Reader
namespace LanguageRelay.Settings

inductive Fault where
  | baseUrl (fault : BaseUrlFault)
  | entry (key : String) (fault : EntryFault)
  | onboardingMethodEmpty
  | shadowDirectory (directory : String)
deriving DecidableEq, Repr

def Fault.reason : Fault → String
  | .baseUrl fault => fault.message
  | .entry key fault => entryRefusal key fault.reason
  | .onboardingMethodEmpty => "lsp.onboarding.method is empty"
  | .shadowDirectory directory => shadowRefusal directory

inductive LoadError where
  | read (path : String) (error : Host.IoError)
  | parse (path : String)
  | invalid (path : String) (fault : Fault)
deriving DecidableEq, Repr

-- What is said about an error. The text of a parse error ends where its details would follow.
def LoadError.message : LoadError → String
  | .read path error => s!"failed to read config at {path}: " ++ error.message
  | .parse path => s!"failed to parse config at {path}"
  | .invalid path fault => s!"invalid config at {path}: " ++ fault.reason

def entryFault? (servers : Keyed ServerEntry) : Option Fault :=
  servers.findSome? fun e =>
    match e.2.plan with
    | .ok _ => none
    | .error fault => some (.entry e.1 fault)

def listenerFault? (server : ServerSettings) : Option Fault :=
  if server.onboarding.enabled ∧ server.onboarding.method = "" then some .onboardingMethodEmpty
  else if server.shadow.enabled ∧ !isPlainBelow server.shadow.directory then
    some (.shadowDirectory server.shadow.directory)
  else none

def validate (settings : Settings) : Except Fault Settings :=
  match normalizeBaseUrl settings.baseUrl with
  | .error fault => .error (.baseUrl fault)
  | .ok baseUrl =>
    match entryFault? settings.server.servers, listenerFault? settings.server with
    | some fault, _ | none, some fault => .error fault
    | none, none => .ok { settings with baseUrl }

def ofText (host : Host) (text path : String) : Except LoadError Settings :=
  match ((Toml.read? text).map (mapTexts (expand host))).bind read? with
  | none => .error (.parse path)
  | some settings =>
    match settings.validate with
    | .error fault => .error (.invalid path fault)
    | .ok settings => .ok settings

def defaultPath (host : Host) : String := Path.joinAll host.home [".lsp-bridge", "config.toml"]

def ofFile (host : Host) (path : String) : Except LoadError Settings :=
  match host.files.readText path with
  | .error error => .error (.read path error)
  | .ok text => ofText host text path

-- The settings of a named file or, when none is named, of the default one; if that is missing, the
-- standard settings.
def load (host : Host) : Option String → Except LoadError Settings
  | some path => ofFile host path
  | none =>
    if host.files.exists? (defaultPath host) then ofFile host (defaultPath host) else .ok standard

def effectiveRoot (settings : Settings) (host : Host) : String :=
  settings.rootDirectory.getD host.workingDirectory

end LanguageRelay.Settings
