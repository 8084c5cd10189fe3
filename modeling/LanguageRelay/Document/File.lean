import LanguageRelay.Document.Change
import LanguageRelay.Host.FileSystem
namespace LanguageRelay

structure TextFile where
  path : String
  text : String
deriving DecidableEq, Repr, Inhabited

namespace TextFile
open Host Document

def read (files : FileSystem) (path : String) : Except IoError TextFile :=
  match files.readText path with
  | .ok text => .ok ⟨path, text⟩
  | .error .notFound => .ok ⟨path, ""⟩
  | .error e => .error e

def change (file : TextFile) (changes : List Change) : TextFile :=
  { file with text := String.ofList (applyChanges file.text.toList changes) }

def write (file : TextFile) (files : FileSystem) : FileSystem.Attempt :=
  let content := Text.utf8 file.text
  match Path.parent? file.path with
  | none => files.attempt (files.write file.path content)
  | some above =>
    match files.createAll above with
    | (.ok _, made) => made.attempt (made.write file.path content)
    | failed => failed

end TextFile
end LanguageRelay
