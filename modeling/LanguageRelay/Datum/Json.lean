import LanguageRelay.Datum.Basic
import LanguageRelay.Json.Reader
namespace LanguageRelay.Datum
open Json

def ofNumber : Option Number → Datum
  | some (.integer n) => .integer n
  | some (.double x) => .double (.finite x)
  | none => .other

mutual
def ofSyntax : Syntax → Datum
  | .null => .null
  | .bool b => .bool b
  | .number l => ofNumber (Number.ofLiteral? l)
  | .text codes =>
    match textOfCodes? codes with
    | some s => .text s
    | none => .other
  | .list items => .list (ofSyntaxItems items)
  | .object members =>
    match ofSyntaxMembers members with
    | some pairs => .table pairs
    | none => .other
def ofSyntaxItems : List Syntax → List Datum
  | [] => []
  | item :: rest => ofSyntax item :: ofSyntaxItems rest
def ofSyntaxMembers : List (Codes × Syntax) → Option (List (String × Datum))
  | [] => some []
  | (key, item) :: rest =>
    match textOfCodes? key with
    | some k => (ofSyntaxMembers rest).map ((k, ofSyntax item) :: ·)
    | none => none
end

mutual
def ofValue : Value → Datum
  | .null => .null
  | .bool b => .bool b
  | .number n => ofNumber (some n)
  | .text s => .text s
  | .list items => .list (ofValues items)
  | .object members => .table (ofMembers members)
def ofValues : List Value → List Datum
  | [] => []
  | v :: rest => ofValue v :: ofValues rest
def ofMembers : List (String × Value) → List (String × Datum)
  | [] => []
  | (k, v) :: rest => (k, ofValue v) :: ofMembers rest
end

def readJson? {α : Type} (read : Reader α) (text : String) : Option α :=
  ((Syntax.read? text).map ofSyntax).bind read

end LanguageRelay.Datum
