namespace LanguageRelay.Toml

structure Quoting where
  mark : Char
  escapes : Bool
  lines : Bool
deriving DecidableEq, Repr

def isPlain (c : Char) : Bool := c == '\t' || (' ' ≤ c && c != '\x7f')

def hexDigit? (c : Char) : Option Nat :=
  if c.isDigit then some (c.toNat - '0'.toNat)
  else if 'a' ≤ c ∧ c ≤ 'f' then some (c.toNat - 'a'.toNat + 10)
  else if 'A' ≤ c ∧ c ≤ 'F' then some (c.toNat - 'A'.toNat + 10)
  else none

-- What the reader of a text is in the middle of: nothing, an escape, an escape by number with so
-- many digits to come, a line end that an escape joins to the next line, a line end, or quotes.
inductive TextMode where
  | plain
  | escape
  | code (missing value : Nat)
  | joining (ended : Bool)
  | lineEnd
  | joiningLineEnd
  | quotes (count : Nat)
deriving DecidableEq, Repr

def escaped? : Char → Option Char
  | 'b' => some '\x08'
  | 't' => some '\t'
  | 'n' => some '\n'
  | 'f' => some '\x0c'
  | 'r' => some '\r'
  | 'e' => some '\x1b'
  | '"' => some '"'
  | '\\' => some '\\'
  | _ => none

def codeLength? : Char → Option Nat
  | 'x' => some 2
  | 'u' => some 4
  | 'U' => some 8
  | _ => none

def charOfCode? (code : Nat) : Option Char :=
  if code.isValidChar then some (Char.ofNat code) else none

-- What reading one character leads to: the characters found so far, the last one first, and the
-- mode.
abbrev TextStep := Option (List Char × TextMode)

-- Reads a character outside of any escape. The closing mark is left to the caller where it stands
-- alone.
def readPlain (q : Quoting) (found : List Char) (c : Char) : TextStep :=
  if c = q.mark then some (found, .quotes 1)
  else if c = '\\' ∧ q.escapes then some (found, .escape)
  else if isPlain c then some (c :: found, .plain)
  else if q.lines ∧ c = '\n' then some (c :: found, .plain)
  else if q.lines ∧ c = '\r' then some (c :: found, .lineEnd)
  else none

def readEscape (q : Quoting) (found : List Char) (c : Char) : TextStep :=
  match escaped? c, codeLength? c with
  | some e, _ => some (e :: found, .plain)
  | none, some length => some (found, .code length 0)
  | none, none =>
    if !q.lines then none
    else if c = ' ' ∨ c = '\t' then some (found, .joining false)
    else if c = '\n' then some (found, .joining true)
    else if c = '\r' then some (found, .joiningLineEnd)
    else none

def readJoining (q : Quoting) (found : List Char) (ended : Bool) (c : Char) : TextStep :=
  if c = ' ' ∨ c = '\t' then some (found, .joining ended)
  else if c = '\n' then some (found, .joining true)
  else if c = '\r' then some (found, .joiningLineEnd)
  else if ended then readPlain q found c
  else none

def readTextChar (q : Quoting) (found : List Char) (c : Char) : TextMode → TextStep
  | .plain | .quotes _ => readPlain q found c
  | .escape => readEscape q found c
  | .code missing value =>
    match hexDigit? c with
    | none => none
    | some d =>
      if missing ≤ 1 then (charOfCode? (value * 16 + d)).map fun e => (e :: found, .plain)
      else some (found, .code (missing - 1) (value * 16 + d))
  | .joining ended => readJoining q found ended c
  | .lineEnd => if c = '\n' then some (c :: found, .plain) else none
  | .joiningLineEnd => if c = '\n' then some (found, .joining true) else none

def lineText? (q : Quoting) (found : List Char) (mode : TextMode) :
    List Char → Option (String × List Char)
  | [] => none
  | c :: rest =>
    match readTextChar q found c mode with
    | none => none
    | some (found, .quotes _) => some (String.ofList found.reverse, rest)
    | some (found, mode) => lineText? q found mode rest

-- A text of many lines, from behind its opening marks, and what follows it. Three marks close it;
-- up to two more in front of them belong to the text.
def linesText? (q : Quoting) (found : List Char) (mode : TextMode) :
    List Char → Option (String × List Char)
  | [] =>
    match mode with
    | .quotes count =>
      if 3 ≤ count then some (String.ofList (found.reverse ++ List.replicate (count - 3) q.mark), [])
      else none
    | _ => none
  | c :: rest =>
    match mode with
    | .quotes count =>
      if c = q.mark ∧ count < 5 then linesText? q found (.quotes (count + 1)) rest
      else if 3 ≤ count then
        some (String.ofList (found.reverse ++ List.replicate (count - 3) q.mark), c :: rest)
      else
        match readPlain q (List.replicate count q.mark ++ found) c with
        | none => none
        | some (found, mode) => linesText? q found mode rest
    | mode =>
      match readTextChar q found c mode with
      | none => none
      | some (found, mode) => linesText? q found mode rest

def afterFirstLineEnd : List Char → List Char
  | '\n' :: rest => rest
  | '\r' :: '\n' :: rest => rest
  | chars => chars

def quotedText? : List Char → Option (String × List Char)
  | '"' :: '"' :: '"' :: rest => linesText? ⟨'"', true, true⟩ [] .plain (afterFirstLineEnd rest)
  | '\'' :: '\'' :: '\'' :: rest => linesText? ⟨'\'', false, true⟩ [] .plain (afterFirstLineEnd rest)
  | '"' :: rest => lineText? ⟨'"', true, false⟩ [] .plain rest
  | '\'' :: rest => lineText? ⟨'\'', false, false⟩ [] .plain rest
  | _ => none

def isBareKey (c : Char) : Bool := c.isAlphanum || c == '_' || c == '-'

def keyPart? : List Char → Option (String × List Char)
  | '"' :: rest => lineText? ⟨'"', true, false⟩ [] .plain rest
  | '\'' :: rest => lineText? ⟨'\'', false, false⟩ [] .plain rest
  | chars =>
    match chars.takeWhile isBareKey with
    | [] => none
    | key => some (String.ofList key, chars.dropWhile isBareKey)

end LanguageRelay.Toml
