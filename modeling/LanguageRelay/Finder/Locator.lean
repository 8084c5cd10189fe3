import LanguageRelay.Settings.Basic
import LanguageRelay.Host.Environment
import LanguageRelay.Status.Report
namespace LanguageRelay

inductive ToolLocator where
  | file (path : String)
  | command (name : String)
  | unconfigured
deriving DecidableEq, Repr, Inhabited

namespace ToolLocator

-- A path with the home directory for a leading `~`. A name right behind it makes it an ordinary
-- path.
def expandHome (host : Host) (raw : String) : String :=
  match raw.toList with
  | '~' :: rest =>
    if rest = [] ∨ rest.head? = some '/' then
      match rest.dropWhile (· == '/') with
      | [] => host.home
      | below => Path.join host.home (String.ofList below)
    else raw
  | _ => raw

-- The locator that settings give. A file goes before a command.
def ofSettings (host : Host) (settings : InstalledSettings) : ToolLocator :=
  match settings.path, settings.command with
  | some path, _ => .file (expandHome host path)
  | none, some name => .command name
  | none, none => .unconfigured

def check (host : Host) : ToolLocator → InstalledCheck
  | .file path => ⟨host.files.exists? path, path⟩
  | .command name =>
    match host.which name with
    | some found => ⟨true, found⟩
    | none => ⟨false, name⟩
  | .unconfigured => ⟨false, ""⟩

end ToolLocator
end LanguageRelay
