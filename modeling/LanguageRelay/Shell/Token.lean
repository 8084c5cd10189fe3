import LanguageRelay.Shell.Syntax
namespace LanguageRelay.Shell

inductive Token where
  -- A word, and its text if nothing in it is quoted or stands for something else.
  | word (word : Word) (plain : Option String)
  | operator (text : String)
  | redirect (descriptor : Nat) (operator : String)
deriving DecidableEq, Repr, Inhabited

namespace Token

def isNameStart (c : Char) : Bool := c.isAlpha || c == '_'

def isNameChar (c : Char) : Bool := c.isAlphanum || c == '_'

def endsWord (c : Char) : Bool := c ∈ [' ', '\t', '\n', ';', '&', '|', '<', '>', '(', ')']

def isSpecial (c : Char) : Bool := c ∈ ['#', '?', '$', '@', '*', '!', '-']

def addChar (quoted : Bool) (c : Char) : Word → Word
  | ⟨q, .text text⟩ :: rest =>
    if q = quoted then ⟨q, .text (text.push c)⟩ :: rest
    else ⟨quoted, .text (String.singleton c)⟩ :: ⟨q, .text text⟩ :: rest
  | parts => ⟨quoted, .text (String.singleton c)⟩ :: parts

def bracketed : Nat → List Char → Option (List Char × List Char)
  | _, [] => none
  | 0, ')' :: rest => some ([], rest)
  | depth, c :: rest =>
    let inner := if c = '(' then depth + 1 else if c = ')' then depth - 1 else depth
    (bracketed inner rest).map fun (text, after) => (c :: text, after)

def upTo (stop : Char) : List Char → Option (List Char × List Char)
  | [] => none
  | c :: rest =>
    if c = stop then some ([], rest) else (upTo stop rest).map fun (text, after) => (c :: text, after)

def parameterName? : List Char → Option (String × List Char)
  | [] => none
  | c :: rest =>
    if isSpecial c ∨ c.isDigit then some (String.singleton c, rest)
    else if isNameStart c then
      some (String.ofList (c :: rest.takeWhile isNameChar), rest.dropWhile isNameChar)
    else none

def braced? (cs : List Char) : Option (Content × List Char) := do
  match cs with
  | '#' :: '}' :: rest => return (.parameter "#", rest)
  | '#' :: rest =>
    match ← parameterName? rest with
    | (name, '}' :: rest) => return (.size name, rest)
    | _ => none
  | _ =>
    match ← parameterName? cs with
    | (name, '}' :: rest) => return (.parameter name, rest)
    | (name, ':' :: '-' :: rest) =>
      let (text, rest) ← upTo '}' rest
      return (.fallback name true (String.ofList text), rest)
    | (name, '-' :: rest) =>
      let (text, rest) ← upTo '}' rest
      return (.fallback name false (String.ofList text), rest)
    | _ => none

def dollar? : List Char → Option (Content × List Char)
  | '{' :: rest => braced? rest
  | '(' :: '(' :: rest => do
    match ← bracketed 0 rest with
    | (text, ')' :: rest) => return (.arithmetic (String.ofList text), rest)
    | _ => none
  | '(' :: rest => do
    let (text, rest) ← bracketed 0 rest
    return (.output (String.ofList text), rest)
  | cs => do
    let (name, rest) ← parameterName? cs
    return (.parameter name, rest)

def addDollar (quoted : Bool) (parts : Word) (rest : List Char) : Word × List Char :=
  match dollar? rest with
  | some (content, rest) => (⟨quoted, content⟩ :: parts, rest)
  | none => (addChar quoted '$' parts, rest)

def doubleQuoted : Nat → Word → List Char → Option (Word × List Char)
  | 0, _, _ | _, _, [] => none
  | n + 1, parts, c :: rest =>
    match c, rest with
    | '"', _ => some (parts, rest)
    | '\\', '\n' :: after => doubleQuoted n parts after
    | '\\', d :: after =>
      if d ∈ ['$', '\x60', '"', '\\'] then doubleQuoted n (addChar true d parts) after
      else doubleQuoted n (addChar true '\\' parts) rest
    | '$', _ =>
      let (parts, rest) := addDollar true parts rest
      doubleQuoted n parts rest
    | '\x60', _ => do
      let (text, rest) ← upTo '\x60' rest
      doubleQuoted n (⟨true, .output (String.ofList text)⟩ :: parts) rest
    | _, _ => doubleQuoted n (addChar true c parts) rest

def wordParts : Nat → Word → List Char → Option (Word × List Char)
  | 0, _, _ => none
  | _, parts, [] => some (parts.reverse, [])
  | n + 1, parts, c :: rest =>
    if endsWord c then some (parts.reverse, c :: rest)
    else
      match c, rest with
      | '\'', _ => do
        let (text, rest) ← upTo '\'' rest
        wordParts n (⟨true, .text (String.ofList text)⟩ :: parts) rest
      | '"', _ => do
        let (read, rest) ← doubleQuoted n parts rest
        wordParts n (if read = parts then ⟨true, .text ""⟩ :: parts else read) rest
      | '\\', '\n' :: rest => wordParts n parts rest
      | '\\', d :: rest => wordParts n (addChar true d parts) rest
      | '$', _ =>
        let (parts, rest) := addDollar false parts rest
        wordParts n parts rest
      | '\x60', _ => do
        let (text, rest) ← upTo '\x60' rest
        wordParts n (⟨false, .output (String.ofList text)⟩ :: parts) rest
      | _, _ => wordParts n (addChar false c parts) rest

def plainText : Word → Option String
  | [⟨false, .text text⟩] => some text
  | _ => none

def operators : List String := ["&&", "||", ";;", ";", "&", "|", "(", ")", "\n"]

def arrows : List String := ["<&", ">&", ">>", ">|", "<", ">"]

def leading? (texts : List String) (cs : List Char) : Option (String × List Char) :=
  (texts.find? fun text => text.toList.isPrefixOf cs).map fun text =>
    (text, cs.drop text.length)

def numbered? (cs : List Char) : Option (Token × List Char) := do
  let (arrow, rest) ← leading? arrows (cs.dropWhile Char.isDigit)
  let written := String.ofList (cs.takeWhile Char.isDigit)
  let descriptor := written.toNat?.getD (if arrow.startsWith "<" then 0 else 1)
  return (.redirect descriptor arrow, rest)

def readAll : Nat → List Char → Option (List Token)
  | 0, _ => none
  | _, [] => some []
  | n + 1, c :: rest =>
    if c = ' ' ∨ c = '\t' then readAll n rest
    else if c = '#' then readAll n (rest.dropWhile (· ≠ '\n'))
    else if c = '\\' ∧ rest.head? = some '\n' then readAll n rest.tail
    else
      match numbered? (c :: rest), leading? operators (c :: rest) with
      | some (token, rest), _ => (readAll n rest).map (token :: ·)
      | none, some (text, rest) => (readAll n rest).map (.operator text :: ·)
      | none, none => do
        let (parts, rest) ← wordParts (rest.length + 2) [] (c :: rest)
        return .word parts (plainText parts) :: (← readAll n rest)

def ofScript? (script : String) : Option (List Token) :=
  readAll (script.length + 1) script.toList

end Token
end LanguageRelay.Shell
