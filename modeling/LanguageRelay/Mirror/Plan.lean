import LanguageRelay.Datum.Json
import LanguageRelay.Document.Change
import LanguageRelay.Json.Value
import LanguageRelay.Path.Basic
import LanguageRelay.Uri.FilePath
namespace LanguageRelay.Mirror
open Json Document

structure Job where
  path : String
  changes : List Change
deriving DecidableEq, Repr, Inhabited

inductive PlanError where
  | missingTextDocument (method : String)
  | missingUri (method : String)
  | missingContentChanges (method uri : String)
  | invalidContentChanges (method uri reason : String)
deriving DecidableEq, Repr

def PlanError.message : PlanError → String
  | .missingTextDocument method => s!"{method} has no textDocument"
  | .missingUri method => s!"{method} has no textDocument.uri"
  | .missingContentChanges method uri => s!"{method} for {uri} is missing contentChanges"
  | .invalidContentChanges method uri reason =>
    s!"{method} for {uri} has malformed contentChanges: {reason}"

def didOpen : String := "textDocument/didOpen"
def didChange : String := "textDocument/didChange"
def didSave : String := "textDocument/didSave"

def mirroredPath? (root uri : String) : Option String :=
  (Uri.filePath? uri).filter fun path => Path.isWithin root path && !Path.same path root

-- The changes that a message makes to its document. The text of the document comes first; a save
-- without it changes nothing.
def changesOf (method uri : String) (message document : Value) :
    Except PlanError (Option (List Change)) :=
  match document.textAt? "text" with
  | some text => .ok (some [⟨text, none⟩])
  | none =>
    match message.path? ["params", "contentChanges"] with
    | some changes =>
      match Datum.list? Change.read? (Datum.ofValue changes) with
      | some read => .ok (some read)
      | none => .error (.invalidContentChanges method uri "expected a list of changes")
    | none =>
      if method = didSave then .ok none else .error (.missingContentChanges method uri)

def plan (root : String) (message : Value) : Except PlanError (Option Job) :=
  match message.textAt? "method" with
  | none => .ok none
  | some method =>
    if method ∉ [didOpen, didChange, didSave] then .ok none
    else
      match message.path? ["params", "textDocument"] with
      | none => .error (.missingTextDocument method)
      | some document =>
        match (document.textAt? "uri").filter (· ≠ "") with
        | none => .error (.missingUri method)
        | some uri =>
          match mirroredPath? root uri with
          | none => .ok none
          | some path =>
            match changesOf method uri message document with
            | .ok changes => .ok (changes.map fun c => ⟨path, c⟩)
            | .error e => .error e

end LanguageRelay.Mirror
