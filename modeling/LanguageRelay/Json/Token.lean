namespace LanguageRelay.Json

structure Literal where
  negative : Bool
  whole : List Nat
  fraction : List Nat
  exponent : Option (Bool × List Nat)
deriving DecidableEq, Repr, Inhabited

-- The characters of a string as code points. An escaped half of a surrogate pair stands as its own
-- code.
abbrev Codes := List Nat

inductive Literal.Part where
  | sign
  | zero
  | whole
  | point
  | fraction
  | exponentMark
  | exponentSign
  | exponent
deriving DecidableEq, Repr

def Literal.Part.complete : Literal.Part → Bool
  | .zero | .whole | .fraction | .exponent => true
  | _ => false

def Literal.addDigit (d : Nat) (part : Literal.Part) (l : Literal) : Literal :=
  match part with
  | .fraction => { l with fraction := d :: l.fraction }
  | .exponent => { l with exponent := l.exponent.map fun e => (e.1, d :: e.2) }
  | _ => { l with whole := d :: l.whole }

def Literal.Part.next? (part : Literal.Part) (c : Char) : Option Literal.Part :=
  match part with
  | .sign => if c = '0' then some .zero else if c.isDigit then some .whole else none
  | .zero => if c = '.' then some .point else if c = 'e' ∨ c = 'E' then some .exponentMark else none
  | .whole =>
    if c.isDigit then some .whole else if c = '.' then some .point
    else if c = 'e' ∨ c = 'E' then some .exponentMark else none
  | .point => if c.isDigit then some .fraction else none
  | .fraction =>
    if c.isDigit then some .fraction else if c = 'e' ∨ c = 'E' then some .exponentMark else none
  | .exponentMark =>
    if c.isDigit then some .exponent else if c = '+' ∨ c = '-' then some .exponentSign else none
  | .exponentSign | .exponent => if c.isDigit then some .exponent else none

def Literal.push (c : Char) (next : Literal.Part) (l : Literal) : Literal :=
  match next with
  | .exponentMark => { l with exponent := some (false, []) }
  | .exponentSign => { l with exponent := some (c == '-', []) }
  | .zero | .whole | .fraction | .exponent => addDigit (c.toNat - '0'.toNat) next l
  | _ => l

def Literal.inOrder (l : Literal) : Literal :=
  ⟨l.negative, l.whole.reverse, l.fraction.reverse, l.exponent.map fun e => (e.1, e.2.reverse)⟩

inductive Token where
  | openObject
  | closeObject
  | openList
  | closeList
  | comma
  | colon
  | null
  | bool (b : Bool)
  | number (literal : Literal)
  | text (codes : Codes)
deriving DecidableEq, Repr, Inhabited

namespace Token

-- What the pass is inside of. Gathered codes and digits are held in reverse.
inductive Mode where
  | between
  | word (letters : List Char)
  | string (codes : Codes)
  | escape (codes : Codes)
  | unicode (codes : Codes) (digits value : Nat)
  | number (part : Literal.Part) (literal : Literal)
deriving Repr

structure Scan where
  mode : Mode
  found : List Token
deriving Repr

def Scan.start : Scan := ⟨.between, []⟩

def isBlank (c : Char) : Bool := c == ' ' || c == '\t' || c == '\n' || c == '\r'

def digit? (c : Char) : Option Nat := if c.isDigit then some (c.toNat - '0'.toNat) else none

def hexDigit? (c : Char) : Option Nat :=
  if c.isDigit then some (c.toNat - '0'.toNat)
  else if 'a' ≤ c ∧ c ≤ 'f' then some (c.toNat - 'a'.toNat + 10)
  else if 'A' ≤ c ∧ c ≤ 'F' then some (c.toNat - 'A'.toNat + 10)
  else none

def ofWord (letters : List Char) : Option Token :=
  if letters = ['l', 'l', 'u', 'n'] then some .null
  else if letters = ['e', 'u', 'r', 't'] then some (.bool true)
  else if letters = ['e', 's', 'l', 'a', 'f'] then some (.bool false)
  else none

def Scan.between (found : List Token) (c : Char) : Option Scan :=
  if isBlank c then some ⟨.between, found⟩
  else if c = '\x7b' then some ⟨.between, .openObject :: found⟩
  else if c = '\x7d' then some ⟨.between, .closeObject :: found⟩
  else if c = '[' then some ⟨.between, .openList :: found⟩
  else if c = ']' then some ⟨.between, .closeList :: found⟩
  else if c = ',' then some ⟨.between, .comma :: found⟩
  else if c = ':' then some ⟨.between, .colon :: found⟩
  else if c = '"' then some ⟨.string [], found⟩
  else if c = '-' then some ⟨.number .sign ⟨true, [], [], none⟩, found⟩
  else if c.isLower then some ⟨.word [c], found⟩
  else (digit? c).map fun d => ⟨.number (if d = 0 then .zero else .whole) ⟨false, [d], [], none⟩, found⟩

-- One character. A word or a number ends at the first character that does not belong to it, which
-- is then read as a character between tokens.
def Scan.push (s : Scan) (c : Char) : Option Scan :=
  match s.mode with
  | .between => Scan.between s.found c
  | .word letters =>
    if c.isLower then some ⟨.word (c :: letters), s.found⟩
    else (ofWord letters).bind fun t => Scan.between (t :: s.found) c
  | .string codes =>
    if c = '"' then some ⟨.between, .text codes.reverse :: s.found⟩
    else if c = '\\' then some ⟨.escape codes, s.found⟩
    else if c.toNat < 0x20 then none
    else some ⟨.string (c.toNat :: codes), s.found⟩
  | .escape codes =>
    let plain (n : Nat) : Option Scan := some ⟨.string (n :: codes), s.found⟩
    match c with
    | '"' => plain 0x22
    | '\\' => plain 0x5C
    | '/' => plain 0x2F
    | 'b' => plain 8
    | 'f' => plain 12
    | 'n' => plain 10
    | 'r' => plain 13
    | 't' => plain 9
    | 'u' => some ⟨.unicode codes 0 0, s.found⟩
    | _ => none
  | .unicode codes digits value =>
    (hexDigit? c).map fun d =>
      if digits = 3 then ⟨.string ((value * 16 + d) :: codes), s.found⟩
      else ⟨.unicode codes (digits + 1) (value * 16 + d), s.found⟩
  | .number part literal =>
    match part.next? c with
    | some next => some ⟨.number next (Literal.push c next literal), s.found⟩
    | none =>
      if part.complete then
        if part = .zero ∧ c.isDigit then none
        else Scan.between (.number (Literal.inOrder literal) :: s.found) c
      else none

def Scan.finish (s : Scan) : Option (List Token) :=
  match s.mode with
  | .between => some s.found.reverse
  | .word letters => (ofWord letters).map fun t => (t :: s.found).reverse
  | .number part literal =>
    if part.complete then some (.number (Literal.inOrder literal) :: s.found).reverse else none
  | _ => none

def Scan.run : Scan → List Char → Option Scan
  | s, [] => some s
  | s, c :: rest =>
    match s.push c with
    | some next => run next rest
    | none => none

end Token

def tokens? (chars : List Char) : Option (List Token) :=
  (Token.Scan.start.run chars).bind Token.Scan.finish

end LanguageRelay.Json
