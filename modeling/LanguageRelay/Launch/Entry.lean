import LanguageRelay.Datum.Basic
import LanguageRelay.Keyed
namespace LanguageRelay

structure ServerEntry where
  argv : Option (List String)
  command : Option String
  nodeModule : Option String
  script : Option String
  args : List String
  languages : List String
  version : Option Nat
  displayName : Option String
  mimeTypes : List String
  environment : Keyed String
deriving DecidableEq, Repr, Inhabited

inductive LaunchPlan where
  | argv (argv : List String)
  | command (command : String)
  | nodeModule (name : String) (script : Option String)
deriving DecidableEq, Repr, Inhabited

inductive EntryFault where
  | programMissing
  | argsWithArgv
  | commandEmpty
  | moduleEmpty
  | noLaunch
  | manyLaunches
  | scriptWithoutModule
deriving DecidableEq, Repr

def EntryFault.reason : EntryFault → String
  | .programMissing => "argv must start with a program"
  | .argsWithArgv => "args can't be combined with argv"
  | .commandEmpty => "command is empty"
  | .moduleEmpty => "node_module is empty"
  | .noLaunch => "one of argv, command or node_module is required"
  | .manyLaunches => "argv, command and node_module are mutually exclusive"
  | .scriptWithoutModule => "script only applies to node_module"

def entryRefusal (key reason : String) : String := s!"server '{key}': {reason}"

namespace ServerEntry

-- The names of the fields. No other key is accepted.
def fieldNames : List String :=
  ["argv", "command", "node_module", "script", "args", "languages", "version", "display_name",
    "mime_types", "env"]

-- Reads an entry. Every field has a default.
def read? : Datum.Reader ServerEntry := fun d => do
  let fields ← Datum.record? fieldNames true d
  let text := fun name => fields.orElse name none (Datum.optional? Datum.text?)
  let texts := fun name => fields.orElse name [] (Datum.list? Datum.text?)
  let argv ← fields.orElse "argv" none (Datum.optional? (Datum.list? Datum.text?))
  let command ← text "command"
  let nodeModule ← text "node_module"
  let script ← text "script"
  let args ← texts "args"
  let languages ← texts "languages"
  let version ← fields.orElse "version" none (Datum.optional? (Datum.natural? Text.greatest32))
  let displayName ← text "display_name"
  let mimeTypes ← texts "mime_types"
  let environment ← fields.orElse "env" [] (Datum.table? Datum.text?)
  return ⟨argv, command, nodeModule, script, args, languages, version, displayName, mimeTypes,
    Keyed.ofList environment⟩

def chosen (entry : ServerEntry) : Except EntryFault LaunchPlan :=
  match entry.argv, entry.command, entry.nodeModule with
  | some argv, none, none =>
    if argv.head?.getD "" = "" then .error .programMissing
    else if entry.args ≠ [] then .error .argsWithArgv
    else .ok (.argv argv)
  | none, some command, none =>
    if command = "" then .error .commandEmpty else .ok (.command command)
  | none, none, some name =>
    if name = "" then .error .moduleEmpty else .ok (.nodeModule name entry.script)
  | none, none, none => .error .noLaunch
  | _, _, _ => .error .manyLaunches

-- How the entry launches its server. A script belongs to a module only.
def plan (entry : ServerEntry) : Except EntryFault LaunchPlan :=
  match entry.chosen with
  | .ok (.nodeModule name script) => .ok (.nodeModule name script)
  | .ok plan => if entry.script.isSome then .error .scriptWithoutModule else .ok plan
  | .error fault => .error fault

end ServerEntry
end LanguageRelay
