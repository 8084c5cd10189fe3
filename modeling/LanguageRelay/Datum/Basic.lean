import LanguageRelay.Decimal.Binary64
import LanguageRelay.Text.Natural
namespace LanguageRelay

-- A number that is no integer. What is not finite only stands in a configuration file.
inductive Double where
  | finite (x : Decimal.Binary64)
  | infinite (negative : Bool)
  | undefined (negative : Bool)
deriving DecidableEq, Repr, Inhabited

-- What a typed reader sees of a JSON text, a JSON value or a configuration file. A table keeps every
-- pair in the order given, so that a repeated key can be refused.
inductive Datum where
  | null
  | bool (b : Bool)
  | integer (n : Int)
  | double (x : Double)
  | text (s : String)
  -- A date or a time, as it is shown. A reader of a text takes it for one.
  | moment (shown : String)
  | list (items : List Datum)
  | table (pairs : List (String × Datum))
  | other
deriving Repr, Inhabited

namespace Datum

abbrev Reader (α : Type) := Datum → Option α

def bool? : Reader Bool
  | .bool b => some b
  | _ => none

def text? : Reader String
  | .text s | .moment s => some s
  | _ => none

-- A natural number up to a bound. It has to be given as an integer.
def natural? (bound : Nat) : Reader Nat
  | .integer n => if 0 ≤ n ∧ n ≤ bound then some n.toNat else none
  | _ => none

def optional? {α : Type} (read : Reader α) : Reader (Option α)
  | .null => some none
  | d => (read d).map some

def list? {α : Type} (read : Reader α) : Reader (List α)
  | .list items => items.mapM read
  | _ => none

-- A table with one kind of values. Of a repeated key the last value counts.
def table? {α : Type} (read : Reader α) : Reader (List (String × α))
  | .table pairs => pairs.mapM fun p => (read p.2).map fun v => (p.1, v)
  | _ => none

def choice? {α : Type} (names : List (String × α)) : Reader α
  | .text s => names.lookup s
  | .table [(s, .null)] => names.lookup s
  | _ => none

-- What a record says of a field: the field's datum, if it is there.
abbrev Fields := List (String × Datum)

-- The pairs of a table whose keys are fields. A field given twice is refused, and so is a key that
-- is no field when the record is closed.
def fieldsOfPairs? (names : List String) (closed : Bool) : Fields → List (String × Datum) → Option Fields
  | found, [] => some found
  | found, (key, d) :: rest =>
    if key ∈ names then
      if (found.lookup key).isSome then none else fieldsOfPairs? names closed ((key, d) :: found) rest
    else if closed then none
    else fieldsOfPairs? names closed found rest

def record? (names : List String) (closed : Bool) : Reader Fields
  | .table pairs => fieldsOfPairs? names closed [] pairs
  | .list items => if items.length ≤ names.length then some (names.zip items) else none
  | _ => none

def Fields.need {α : Type} (fields : Fields) (name : String) (read : Reader α) : Option α :=
  (fields.lookup name).bind read

def Fields.orElse {α : Type} (fields : Fields) (name : String) (default : α) (read : Reader α) :
    Option α :=
  match fields.lookup name with
  | none => some default
  | some d => read d

end Datum
end LanguageRelay
