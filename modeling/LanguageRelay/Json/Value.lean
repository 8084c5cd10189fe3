import LanguageRelay.Decimal.Binary64
import LanguageRelay.Keyed
namespace LanguageRelay.Json
open LanguageRelay.Decimal

inductive Number where
  | integer (n : Int)
  | double (x : Binary64)
deriving DecidableEq, Repr, Inhabited

inductive Value where
  | null
  | bool (b : Bool)
  | number (n : Number)
  | text (s : String)
  | list (items : List Value)
  | object (members : List (String × Value))
deriving Repr, Inhabited, BEq

namespace Value

def ofMembers (members : List (String × Value)) : Value := .object (Keyed.ofList members)

def get? (key : String) : Value → Option Value
  | .object members => Keyed.find? key members
  | _ => none

def path? : List String → Value → Option Value
  | [], v => some v
  | key :: rest, v => (v.get? key).bind (path? rest)

-- The object with one member set. Anything else is left as it is.
def set (v : Value) (key : String) (member : Value) : Value :=
  match v with
  | .object members => .object (Keyed.insert key member members)
  | other => other

-- Puts a value at a path of keys. On the way there, what is missing or null becomes an object; any
-- other value that is no object cannot hold the rest of the path.
def put? : List String → Value → Value → Option Value
  | [], value, _ => some value
  | key :: rest, value, .null => (put? rest value .null).map fun inner => .object [(key, inner)]
  | key :: rest, value, .object members =>
    (put? rest value ((Keyed.find? key members).getD .null)).map fun inner =>
      .object (Keyed.insert key inner members)
  | _ :: _, _, _ => none

def text? : Value → Option String
  | .text s => some s
  | _ => none

def items? : Value → Option (List Value)
  | .list items => some items
  | _ => none

def isObject : Value → Bool
  | .object _ => true
  | _ => false

def textAt? (key : String) (v : Value) : Option String := (v.get? key).bind text?

end Value
end LanguageRelay.Json
