import LanguageRelay.Host.FileSystem
import LanguageRelay.Keyed
namespace LanguageRelay

structure Host where
  files : Host.FileSystem
  -- The variables whose value is text. Any other one reads as if it were not set.
  environment : Keyed String
deriving Repr, Inhabited

namespace Host

-- The value of an environment variable. A name that is empty or holds `=` or the null character
-- names none.
def valueOf? (host : Host) (name : String) : Option String :=
  if name = "" ∨ '=' ∈ name.toList ∨ '\x00' ∈ name.toList then none
  else host.environment.find? name

def home (host : Host) : String := (host.valueOf? "HOME").getD "/"

def workingDirectory (host : Host) : String := Place.path host.files.workingDirectory

def expanded (host : Host) (directory : String) : String :=
  match Path.components directory with
  | .normal "~" :: below =>
    if host.home = "" then directory else Path.joinAll host.home (below.map Path.Component.text)
  | _ => directory

def searchPath (host : Host) : List String :=
  match host.valueOf? "PATH" with
  | some path => (Text.split ':' path).map host.expanded
  | none => []

-- A relative path as an absolute one; a leading `.` is left out.
def absolute (host : Host) (path : String) : String :=
  if Path.isAbsolute path then path
  else
    Path.joinAll host.workingDirectory
      (((Path.components path).dropWhile (· == .current)).map Path.Component.text)

-- The executable that a command names: the first one on the search path or, when the command has
-- more than one component, the file itself as an absolute path.
def which (host : Host) (command : String) : Option String :=
  if 1 < (Path.components command).length then
    if host.files.isExecutable (host.absolute command) then some (host.absolute command) else none
  else (host.searchPath.map fun dir => Path.join dir command).find? host.files.isExecutable

end Host
end LanguageRelay
