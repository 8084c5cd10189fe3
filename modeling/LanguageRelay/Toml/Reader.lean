import LanguageRelay.Toml.Scalar
import LanguageRelay.Toml.Text
import LanguageRelay.Toml.Tree
namespace LanguageRelay.Toml

abbrev Reader (α : Type) := List Char → Option (α × List Char)

def isBlank (c : Char) : Bool := c == ' ' || c == '\t'

def skipBlanks (chars : List Char) : List Char := chars.dropWhile isBlank

def isCommentChar (c : Char) : Bool := isPlain c

def skipComment : List Char → List Char
  | '#' :: rest => rest.dropWhile isCommentChar
  | chars => chars

def lineEnd? (chars : List Char) : Option (List Char) :=
  match skipComment (skipBlanks chars) with
  | [] => some []
  | '\n' :: rest | '\r' :: '\n' :: rest => some rest
  | _ => none

def skipLines : Nat → List Char → List Char
  | 0, chars => chars
  | fuel + 1, chars =>
    match skipBlanks chars with
    | '#' :: rest =>
      match rest.dropWhile isCommentChar with
      | '\n' :: rest | '\r' :: '\n' :: rest => skipLines fuel rest
      | rest => rest
    | '\n' :: rest | '\r' :: '\n' :: rest => skipLines fuel rest
    | rest => rest

def key? : Nat → Reader (List String)
  | 0, _ => none
  | fuel + 1, chars => do
    let (part, rest) ← keyPart? (skipBlanks chars)
    match skipBlanks rest with
    | '.' :: rest =>
      let (parts, rest) ← key? fuel rest
      return (part :: parts, rest)
    | rest => return ([part], rest)

def greatestDepth : Nat := 80

def setPath? (key : List String) (d : Datum) (members : Members) : Option Members :=
  match key.getLast? with
  | none => none
  | some last => members.setKey? last d key.dropLast

mutual
def value? : Nat → Nat → Reader Datum
  | 0, _, _ => none
  | fuel + 1, depth, chars =>
    match chars with
    | '[' :: rest => if depth = 0 then none else items? fuel (depth - 1) [] rest
    | '\x7b' :: rest => if depth = 0 then none else pairs? fuel (depth - 1) [] rest
    | '"' :: _ | '\'' :: _ => (quotedText? chars).map fun r => (.text r.1, r.2)
    | _ =>
      match splitWord chars with
      | (word, rest) => (scalar? word).map fun d => (d, rest)

def items? : Nat → Nat → List Datum → Reader Datum
  | 0, _, _, _ => none
  | fuel + 1, depth, found, chars =>
    match skipLines chars.length chars with
    | ']' :: rest => some (.list found, rest)
    | start =>
      match value? fuel depth start with
      | none => none
      | some (d, rest) =>
        match skipLines rest.length rest with
        | ',' :: rest => items? fuel depth (found ++ [d]) rest
        | ']' :: rest => some (.list (found ++ [d]), rest)
        | _ => none

def pairs? : Nat → Nat → Members → Reader Datum
  | 0, _, _, _ => none
  | fuel + 1, depth, found, chars =>
    match skipLines chars.length chars with
    | '\x7d' :: rest => some (.table (Node.membersToDatum found), rest)
    | start =>
      match key? start.length start with
      | some (key, '=' :: rest) =>
        match value? fuel depth (skipBlanks rest) with
        | none => none
        | some (d, rest) =>
          match setPath? key d found with
          | none => none
          | some found =>
            match skipLines rest.length rest with
            | ',' :: rest => pairs? fuel depth found rest
            | '\x7d' :: rest => some (.table (Node.membersToDatum found), rest)
            | _ => none
      | _ => none
end

-- A file as far as it has been read: its tables and the header of the current one.
structure Document where
  members : Members
  header : List String

def header? (document : Document) (chars : List Char) : Option (Document × List Char) :=
  match chars with
  | '[' :: rest =>
    match key? rest.length rest with
    | some (key, ']' :: ']' :: rest) =>
      (document.members.addTable? key).map fun members => (⟨members, key⟩, rest)
    | _ => none
  | _ =>
    match key? chars.length chars with
    | some (key, ']' :: rest) =>
      (document.members.openTable? key).map fun members => (⟨members, key⟩, rest)
    | _ => none

def pair? (document : Document) (chars : List Char) : Option (Document × List Char) := do
  let (key, rest) ← key? chars.length chars
  match rest with
  | '=' :: rest =>
    let start := skipBlanks rest
    let (d, rest) ← value? (2 * start.length + 1) greatestDepth start
    let members ← Members.within? (setPath? key d) document.header document.members
    return ({ document with members }, rest)
  | _ => none

def lines? : Nat → Document → List Char → Option Document
  | 0, _, _ => none
  | fuel + 1, document, chars =>
    match skipLines chars.length chars with
    | [] => some document
    | start =>
      let line := match start with
        | '[' :: rest => header? document rest
        | _ => pair? document start
      match line with
      | none => none
      | some (document, rest) =>
        match lineEnd? rest with
        | none => none
        | some rest => lines? fuel document rest

def withoutMark : List Char → List Char
  | '\ufeff' :: rest => rest
  | chars => chars

def read? (text : String) : Option Datum :=
  let chars := withoutMark text.toList
  (lines? (chars.length + 1) ⟨[], []⟩ chars).map fun document =>
    .table (Node.membersToDatum document.members)

end LanguageRelay.Toml
