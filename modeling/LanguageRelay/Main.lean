import LanguageRelay.CommandLine.Run
namespace LanguageRelay.Program

def ownVariables : List String :=
  ["HOME", "PATH", "LSP_BRIDGE_CONFIG", "LSP_BRIDGE_BIND", "LSP_BRIDGE_BASE_URL"]

def referenced (text : String) : List String :=
  ((text.splitOn "$\x7b").drop 1).map fun rest => ((rest.splitOn "\x7d").head?).getD ""

def variablesOf (names : List String) : IO (Keyed String) := do
  let mut found : Keyed String := []
  for name in names do
    if let some value ← IO.getEnv name then
      found := Keyed.insert name value found
  return found

def placeOf (path : String) : Host.Place := (Path.segments path).filter (· ≠ "")

def withDirectories (place : Host.Place) (entry : Host.Entry) : List (Host.Place × Host.Entry) :=
  (place, entry) :: (List.range place.length).map fun n => (place.take n, .directory)

def entryAt (path : String) : IO (List (Host.Place × Host.Entry)) := do
  try
    let content ← IO.FS.readBinFile path
    return withDirectories (placeOf path) (.file content.toList false)
  catch
    | .inappropriateType .. => return withDirectories (placeOf path) .directory
    | _ => return []

def gather (words : List String) : IO Host := do
  let here := (← IO.currentDir).toString
  let bare : Host := ⟨⟨withDirectories (placeOf here) .directory, placeOf here⟩, ← variablesOf ownVariables⟩
  let named := match CommandLine.Arguments.ofWords bare words with
    | .ok arguments => arguments.config
    | .error _ => none
  let path := bare.absolute (named.getD (Settings.defaultPath bare))
  let entries ← entryAt path
  let host : Host := { bare with files := { bare.files with entries := entries ++ bare.files.entries } }
  let text := match host.files.readText path with
    | .ok text => text
    | .error _ => ""
  return { host with environment := ← variablesOf (ownVariables ++ referenced text) }

def make (before after : Host.FileSystem) : IO Unit := do
  for (place, entry) in after.entries.reverse do
    if (before.at? place).isNone then
      match entry with
      | .directory => IO.FS.createDirAll (Host.Place.path place)
      | .file _ _ => discard <| IO.FS.Handle.mk (Host.Place.path place) .append
      | _ => pure ()

end LanguageRelay.Program

open LanguageRelay LanguageRelay.Program in
def main (words : List String) : IO UInt32 := do
  let host ← gather words
  match CommandLine.run host (fun _ => .ok ()) words with
  | none =>
    IO.eprintln "ready to serve"
    return 0
  | some outcome =>
    make host.files outcome.files
    IO.print outcome.output
    if let some report := outcome.report then
      IO.eprint report
    return outcome.code.toUInt32
