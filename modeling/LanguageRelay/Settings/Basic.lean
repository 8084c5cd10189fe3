import LanguageRelay.Launch.Entry
import LanguageRelay.Listener.Onboarding
import LanguageRelay.Listener.Shadow
import LanguageRelay.Net.Address
namespace LanguageRelay

structure SessionSettings where
  idleTimeout : Nat
  shutdownGrace : Nat
  clientQueue : Nat
  processQueue : Nat
deriving DecidableEq, Repr

def SessionSettings.standard : SessionSettings := ⟨0, 2000, 1024, 64⟩

instance : Inhabited SessionSettings := ⟨.standard⟩

structure NodeSettings where
  program : Option String
  roots : List String
deriving DecidableEq, Repr, Inhabited

structure OnboardingSettings where
  enabled : Bool
  method : String
deriving DecidableEq, Repr

def OnboardingSettings.standard : OnboardingSettings := ⟨true, Onboarding.defaultMethod⟩

instance : Inhabited OnboardingSettings := ⟨.standard⟩

structure ShadowSettings where
  enabled : Bool
  directory : String
deriving DecidableEq, Repr

def ShadowSettings.standard : ShadowSettings := ⟨true, Shadow.defaultDirectory⟩

instance : Inhabited ShadowSettings := ⟨.standard⟩

structure InstalledSettings where
  path : Option String
  command : Option String
deriving DecidableEq, Repr, Inhabited

structure ServerSettings where
  session : SessionSettings
  node : NodeSettings
  onboarding : OnboardingSettings
  shadow : ShadowSettings
  servers : Keyed ServerEntry
deriving Repr, Inhabited

structure Settings where
  bind : Net.Address
  baseUrl : String
  rootDirectory : Option String
  logFile : Option String
  server : ServerSettings
  installed : InstalledSettings
deriving Repr, Inhabited

namespace Settings
open Datum

def defaultPort : Nat := 8765

def standard : Settings :=
  ⟨⟨.dotted [127, 0, 0, 1], defaultPort⟩, "/", none, none, default, default⟩

def readSession? : Reader SessionSettings := fun d => do
  let fields ← record?
    ["idle_timeout_ms", "shutdown_grace_ms", "client_queue", "process_queue"] false d
  let number := fun name standard => fields.orElse name standard (natural? Text.greatest64)
  let idleTimeout ← number "idle_timeout_ms" SessionSettings.standard.idleTimeout
  let shutdownGrace ← number "shutdown_grace_ms" SessionSettings.standard.shutdownGrace
  let clientQueue ← number "client_queue" SessionSettings.standard.clientQueue
  let processQueue ← number "process_queue" SessionSettings.standard.processQueue
  return ⟨idleTimeout, shutdownGrace, clientQueue, processQueue⟩

def readNode? : Reader NodeSettings := fun d => do
  let fields ← record? ["nodejs", "roots"] false d
  let program ← fields.orElse "nodejs" none (optional? text?)
  let roots ← fields.orElse "roots" [] (list? text?)
  return ⟨program, roots⟩

def readOnboarding? : Reader OnboardingSettings := fun d => do
  let fields ← record? ["enabled", "method"] false d
  let enabled ← fields.orElse "enabled" OnboardingSettings.standard.enabled bool?
  let method ← fields.orElse "method" OnboardingSettings.standard.method text?
  return ⟨enabled, method⟩

def readShadow? : Reader ShadowSettings := fun d => do
  let fields ← record? ["enabled", "dir"] false d
  let enabled ← fields.orElse "enabled" ShadowSettings.standard.enabled bool?
  let directory ← fields.orElse "dir" ShadowSettings.standard.directory text?
  return ⟨enabled, directory⟩

def readInstalled? : Reader InstalledSettings := fun d => do
  let fields ← record? ["path", "command"] true d
  let path ← fields.orElse "path" none (optional? text?)
  let command ← fields.orElse "command" none (optional? text?)
  return ⟨path, command⟩

def readServer? : Reader ServerSettings := fun d => do
  let fields ← record? ["session", "node", "onboarding", "shadow", "servers"] false d
  let session ← fields.orElse "session" default readSession?
  let node ← fields.orElse "node" default readNode?
  let onboarding ← fields.orElse "onboarding" default readOnboarding?
  let shadow ← fields.orElse "shadow" default readShadow?
  let servers ← fields.orElse "servers" [] (table? ServerEntry.read?)
  return ⟨session, node, onboarding, shadow, Keyed.ofList servers⟩

def read? : Reader Settings := fun d => do
  let fields ← record? ["bind", "base_url", "root_dir", "log_file", "lsp", "installed_check"] true d
  let bind ← fields.orElse "bind" standard.bind fun d => (text? d).bind Net.Address.read?
  let baseUrl ← fields.orElse "base_url" standard.baseUrl text?
  let rootDirectory ← fields.orElse "root_dir" none (optional? text?)
  let logFile ← fields.orElse "log_file" none (optional? text?)
  let server ← fields.orElse "lsp" default readServer?
  let installed ← fields.orElse "installed_check" default readInstalled?
  return ⟨bind, baseUrl, rootDirectory, logFile, server, installed⟩

end Settings
end LanguageRelay
