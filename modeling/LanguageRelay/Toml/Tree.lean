import LanguageRelay.Datum.Basic
import LanguageRelay.Keyed
namespace LanguageRelay.Toml

-- How a table came about: as one above a table that was opened, by a key with dots, or by its own
-- header.
inductive TableForm where
  | implied
  | dotted
  | opened
deriving DecidableEq, Repr

-- What stands under a key. A value is complete: nothing is added to it later.
inductive Node where
  | value (d : Datum)
  | table (form : TableForm) (members : List (String × Node))
  | tables (items : List (List (String × Node)))
deriving Inhabited

abbrev Members := Keyed Node

namespace Node

mutual
def toDatum : Node → Datum
  | .value d => d
  | .table _ members => .table (membersToDatum members)
  | .tables items => .list (itemsToDatum items)

def membersToDatum : List (String × Node) → List (String × Datum)
  | [] => []
  | (key, node) :: rest => (key, node.toDatum) :: membersToDatum rest

def itemsToDatum : List (List (String × Node)) → List Datum
  | [] => []
  | members :: rest => .table (membersToDatum members) :: itemsToDatum rest
end

end Node

namespace Members

def changeLast? (f : Members → Option Members) : List Members → Option (List Members)
  | [] => none
  | [members] => (f members).map fun changed => [changed]
  | members :: rest => (changeLast? f rest).map fun changed => members :: changed

def setKey? (key : String) (d : Datum) : List String → Members → Option Members
  | [], members =>
    if (Keyed.find? key members).isSome then none else some (Keyed.insert key (.value d) members)
  | first :: path, members =>
    match Keyed.find? first members with
    | none => (setKey? key d path []).map fun inner => Keyed.insert first (.table .dotted inner) members
    | some (.table form inner) =>
      if form = .opened ∨ (path = [] ∧ form ≠ .dotted) then none
      else (setKey? key d path inner).map fun inner => Keyed.insert first (.table form inner) members
    | some (.tables items) =>
      if path = [] then none
      else (changeLast? (setKey? key d path) items).map fun items =>
        Keyed.insert first (.tables items) members
    | some (.value _) => none

-- Follows a path of keys and changes what stands under the last one. Tables that are missing on the
-- way are implied; of a list of tables the last one counts.
def change? (f : Option Node → Option Node) : List String → Members → Option Members
  | [], _ => none
  | [key], members => (f (Keyed.find? key members)).map fun node => Keyed.insert key node members
  | first :: path, members =>
    match Keyed.find? first members with
    | none => (change? f path []).map fun inner => Keyed.insert first (.table .implied inner) members
    | some (.table form inner) =>
      (change? f path inner).map fun inner => Keyed.insert first (.table form inner) members
    | some (.tables items) =>
      (changeLast? (change? f path) items).map fun items => Keyed.insert first (.tables items) members
    | some (.value _) => none

-- Opens a table. One that is only implied may still be opened.
def openTable? : List String → Members → Option Members :=
  change? fun
    | none => some (.table .opened [])
    | some (.table .implied inner) => some (.table .opened inner)
    | some _ => none

def addTable? : List String → Members → Option Members :=
  change? fun
    | none => some (.tables [[]])
    | some (.tables items) => some (.tables (items ++ [[]]))
    | some _ => none

def within? (f : Members → Option Members) (header : List String) (members : Members) :
    Option Members :=
  if header = [] then f members
  else
    change? (fun
      | some (.table form inner) => (f inner).map (.table form)
      | some (.tables items) => (changeLast? f items).map .tables
      | _ => none) header members

end Members
end LanguageRelay.Toml
