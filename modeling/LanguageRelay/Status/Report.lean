import LanguageRelay.Launch.Spec
import LanguageRelay.Status.State
namespace LanguageRelay
open Json Text

def Json.Value.natural (n : Nat) : Value := .number (.integer n)

def Json.Value.texts (items : List String) : Value := .list (items.map .text)

structure ServerStatus where
  state : SessionState
  languages : List String
  subscriberCount : Nat
  version : Nat
  displayName : Option String
  mimeTypes : List String
deriving DecidableEq, Repr, Inhabited

namespace ServerStatus

def idle (spec : LaunchSpec) : ServerStatus :=
  ⟨.stopped, spec.languages, 0, spec.version, spec.displayName, spec.mimeTypes⟩

def toValue (s : ServerStatus) : Value :=
  .object <|
    [("state", .text s.state.name), ("languages", .texts s.languages),
      ("subscriber_count", .natural s.subscriberCount), ("version", .natural s.version)]
    ++ (match s.displayName with
      | some name => [("display_name", .text name)]
      | none => [])
    ++ if s.mimeTypes = [] then [] else [("mime_types", .texts s.mimeTypes)]

def fieldNames : List String :=
  ["state", "languages", "subscriber_count", "version", "display_name", "mime_types"]

def read? : Datum.Reader ServerStatus := fun d => do
  let fields ← Datum.record? fieldNames false d
  let state ← fields.need "state" SessionState.read?
  let languages ← fields.need "languages" (Datum.list? Datum.text?)
  let subscriberCount ← fields.need "subscriber_count" (Datum.natural? greatest64)
  let version ← fields.need "version" (Datum.natural? greatest32)
  let displayName ← fields.orElse "display_name" none (Datum.optional? Datum.text?)
  let mimeTypes ← fields.orElse "mime_types" [] (Datum.list? Datum.text?)
  return ⟨state, languages, subscriberCount, version, displayName, mimeTypes⟩

end ServerStatus

structure StatusReport where
  version : Nat
  sessions : Keyed ServerStatus
deriving DecidableEq, Repr, Inhabited

namespace StatusReport

def formVersion : Nat := 2

def ofSessions (sessions : Keyed ServerStatus) : StatusReport := ⟨formVersion, sessions⟩

def toValue (r : StatusReport) : Value :=
  .object [("version", .natural r.version),
    ("sessions", .object (r.sessions.mapValues ServerStatus.toValue))]

def read? : Datum.Reader StatusReport := fun d => do
  let fields ← Datum.record? ["version", "sessions"] false d
  let version ← fields.need "version" (Datum.natural? greatest32)
  let sessions ← fields.need "sessions" (Datum.table? ServerStatus.read?)
  return ⟨version, Keyed.ofList sessions⟩

def render (r : StatusReport) : String := r.toValue.render

end StatusReport

structure InstalledCheck where
  installed : Bool
  path : String
deriving DecidableEq, Repr, Inhabited

namespace InstalledCheck

def toValue (c : InstalledCheck) : Value :=
  .object [("installed", .bool c.installed), ("path", .text c.path)]

def read? : Datum.Reader InstalledCheck := fun d => do
  let fields ← Datum.record? ["installed", "path"] false d
  let installed ← fields.need "installed" Datum.bool?
  let path ← fields.need "path" Datum.text?
  return ⟨installed, path⟩

end InstalledCheck
end LanguageRelay
