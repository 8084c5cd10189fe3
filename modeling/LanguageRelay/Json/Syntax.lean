import LanguageRelay.Json.Token
namespace LanguageRelay.Json

-- The tree of a text before any of it is given a value: strings are codes, numbers are literals and an
-- object keeps every member.
inductive Syntax where
  | null
  | bool (b : Bool)
  | number (literal : Literal)
  | text (codes : Codes)
  | list (items : List Syntax)
  | object (members : List (Codes × Syntax))
deriving Repr, Inhabited

namespace Syntax

-- A container whose end has not been read, its parts in reverse. An object waits for the value of
-- `key`.
inductive Frame where
  | list (items : List Syntax)
  | object (members : List (Codes × Syntax)) (key : Codes)
deriving Repr

inductive Expect where
  | value
  | itemOrClose
  | keyOrClose
  | key (members : List (Codes × Syntax))
  | colon (members : List (Codes × Syntax)) (key : Codes)
  | separator
  | finished (result : Syntax)
deriving Repr

structure Reader where
  stack : List Frame
  expect : Expect
deriving Repr

def Reader.start : Reader := ⟨[], .value⟩

def Reader.deliver (stack : List Frame) (value : Syntax) : Reader :=
  match stack with
  | [] => ⟨[], .finished value⟩
  | .list items :: rest => ⟨.list (value :: items) :: rest, .separator⟩
  | .object members key :: rest => ⟨.object ((key, value) :: members) [] :: rest, .separator⟩

def Reader.value? (stack : List Frame) : Token → Option Reader
  | .null => some (deliver stack .null)
  | .bool b => some (deliver stack (.bool b))
  | .number l => some (deliver stack (.number l))
  | .text codes => some (deliver stack (.text codes))
  | .openList => some ⟨.list [] :: stack, .itemOrClose⟩
  | .openObject => some ⟨stack, .keyOrClose⟩
  | _ => none

def Reader.push (r : Reader) (token : Token) : Option Reader :=
  match r.expect with
  | .value => value? r.stack token
  | .itemOrClose =>
    match token, r.stack with
    | .closeList, .list [] :: rest => some (deliver rest (.list []))
    | _, _ => value? r.stack token
  | .keyOrClose =>
    match token with
    | .closeObject => some (deliver r.stack (.object []))
    | .text key => some ⟨r.stack, .colon [] key⟩
    | _ => none
  | .key members =>
    match token with
    | .text key => some ⟨r.stack, .colon members key⟩
    | _ => none
  | .colon members key =>
    match token with
    | .colon => some ⟨.object members key :: r.stack, .value⟩
    | _ => none
  | .separator =>
    match token, r.stack with
    | .comma, .list items :: rest => some ⟨.list items :: rest, .value⟩
    | .comma, .object members _ :: rest => some ⟨rest, .key members⟩
    | .closeList, .list items :: rest => some (deliver rest (.list items.reverse))
    | .closeObject, .object members _ :: rest => some (deliver rest (.object members.reverse))
    | _, _ => none
  | .finished _ => none

def Reader.run : Reader → List Token → Option Reader
  | r, [] => some r
  | r, t :: rest =>
    match r.push t with
    | some next => run next rest
    | none => none

def Reader.result? (r : Reader) : Option Syntax :=
  match r.expect with
  | .finished result => some result
  | _ => none

def ofTokens? (tokens : List Token) : Option Syntax := (Reader.start.run tokens).bind Reader.result?

def read? (text : String) : Option Syntax := (tokens? text.toList).bind ofTokens?

end Syntax

def isWellFormed (text : String) : Bool := (Syntax.read? text).isSome

end LanguageRelay.Json
