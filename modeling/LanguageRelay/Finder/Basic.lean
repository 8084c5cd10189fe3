import LanguageRelay.Finder.Context
import LanguageRelay.Json.Reader
import LanguageRelay.Launch.Spec
namespace LanguageRelay
open Json

inductive FindFailure where
  | spec (error : SpecError)
  | manifestUnreadable (path : String)
  | manifestMalformed (path : String)
  | other (text : String)
  | crashed
deriving DecidableEq, Repr

def FindFailure.message : FindFailure → String
  | .spec error => error.message
  | .manifestUnreadable path => s!"reading {path}"
  | .manifestMalformed path => s!"parsing {path}"
  | .other text => text
  | .crashed => "panicked"

abbrev Finding := Except FindFailure (Keyed LaunchSpec)

structure Finder where
  name : String
  find : Host → FinderContext → Finding

structure SpecTemplate where
  languages : List String
  version : Option Nat
  displayName : Option String
  mimeTypes : List String
  environment : Keyed String
deriving DecidableEq, Repr, Inhabited

namespace SpecTemplate

def ofEntry (entry : ServerEntry) : SpecTemplate :=
  ⟨entry.languages, entry.version, entry.displayName, entry.mimeTypes, entry.environment⟩

def spec (template : SpecTemplate) (key : String) (argv : List String) :
    Except SpecError LaunchSpec := do
  let bare ← LaunchSpec.new? key argv
  return { bare with
    languages := LaunchSpec.withoutRepeats [] template.languages
    version := template.version.getD LaunchSpec.defaultVersion
    displayName := template.displayName
    mimeTypes := template.mimeTypes
    environment := template.environment }

def finding (template : SpecTemplate) (key : String) (argv : List String) : Finding :=
  match template.spec key argv with
  | .ok spec => .ok [(key, spec)]
  | .error e => .error (.spec e)

end SpecTemplate

namespace Finder

def fixedCommand (key : String) (argv : List String) (template : SpecTemplate) : Finder :=
  ⟨key, fun _ _ => template.finding key argv⟩

def suffixes : List String := ["", ".cmd", ".bat", ".exe"]

def program? (host : Host) (command : String) : Option String :=
  suffixes.findSome? fun suffix => host.which (command ++ suffix)

def onPath (key command : String) (args : List String) (template : SpecTemplate) : Finder :=
  ⟨key, fun host _ =>
    match program? host command with
    | none => .ok []
    | some program => template.finding key (program :: args)⟩

def shortName (name : String) : String := (Text.split '/' name).getLast?.getD name

-- The script that a manifest names: its `bin` member, or of several the one named after the module
-- or else the first.
def script? (manifest : Value) (name : String) : Option String :=
  match manifest.get? "bin" with
  | some (.text script) => some script
  | some (.object scripts) =>
    ((Keyed.find? (shortName name) scripts).or (scripts.head?.map Prod.snd)).bind Value.text?
  | _ => none

def packageScript (host : Host) (directory name : String) : Except FindFailure (Option String) :=
  let path := Path.join directory "package.json"
  match host.files.readText path with
  | .error _ => .error (.manifestUnreadable path)
  | .ok text =>
    match Value.read? text with
    | none => .error (.manifestMalformed path)
    | some manifest => .ok ((script? manifest name).map (Path.join directory))

-- The file to run for a module: the given script in it, or what its package names.
def moduleScript (host : Host) (context : FinderContext) (name : String) :
    Option String → Except FindFailure (Option String)
  | some script =>
    .ok (context.findModule? host (Text.split '/' name ++ Text.split '/' script))
  | none =>
    match context.findModule? host (Text.split '/' name) with
    | none => .ok none
    | some directory => packageScript host directory name

def nodeModule (key name : String) (script : Option String) (args : List String)
    (template : SpecTemplate) : Finder :=
  ⟨key, fun host context =>
    match context.nodeProgram with
    | none => .ok []
    | some node =>
      match moduleScript host context name script with
      | .error e => .error e
      | .ok none => .ok []
      | .ok (some script) => template.finding key (node :: script :: args)⟩

def ofEntry (key : String) (entry : ServerEntry) : Except EntryFault Finder :=
  match entry.plan with
  | .error fault => .error fault
  | .ok (.argv argv) => .ok (fixedCommand key argv (.ofEntry entry))
  | .ok (.command command) => .ok (onPath key command entry.args (.ofEntry entry))
  | .ok (.nodeModule name script) =>
    .ok (nodeModule key name script entry.args (.ofEntry entry))

def ofEntries : Keyed ServerEntry → Except (String × EntryFault) (List Finder)
  | [] => .ok []
  | (key, entry) :: rest =>
    match ofEntry key entry with
    | .error fault => .error (key, fault)
    | .ok finder => (ofEntries rest).map (finder :: ·)

end Finder
end LanguageRelay
