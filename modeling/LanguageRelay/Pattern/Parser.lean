import LanguageRelay.Pattern.Basic
import LanguageRelay.Text.Script
namespace LanguageRelay.Pattern

structure Flags where
  caseless : Bool
  multiline : Bool
  dotAll : Bool
  verbose : Bool
  carriage : Bool
  unicode : Bool
deriving DecidableEq, Repr

def Flags.plain : Flags := ⟨false, false, false, false, false, true⟩

def Flags.switch (on : Bool) (flags : Flags) : Char → Option Flags
  | 'i' => some { flags with caseless := on }
  | 'm' => some { flags with multiline := on }
  | 's' => some { flags with dotAll := on }
  | 'x' => some { flags with verbose := on }
  | 'R' => some { flags with carriage := on }
  | 'u' => some { flags with unicode := on }
  | 'U' => some flags
  | _ => none

-- The flags written up to a colon or a closing parenthesis, which is given with them. No flag may
-- be given twice, and a minus sign has to stand before a flag.
def readFlags? (flags : Flags) (seen : List Char) (minus dangling : Bool) :
    List Char → Option (Flags × List Char × Char × List Char)
  | [] => none
  | c :: rest =>
    if c = ':' ∨ c = ')' then if dangling then none else some (flags, seen, c, rest)
    else if c = '-' then if minus then none else readFlags? flags seen true true rest
    else if c ∈ seen then none
    else
      match flags.switch (!minus) c with
      | some changed => readFlags? changed (c :: seen) minus false rest
      | none => none

def skipVerbose (flags : Flags) (chars : List Char) : List Char :=
  if flags.verbose then go false chars else chars
where
  go (comment : Bool) : List Char → List Char
    | [] => []
    | c :: rest =>
      if comment then go (c != '\n') rest
      else if c = '#' then go true rest
      else if Text.isBlank c then go false rest
      else c :: rest

def readName? (found : List Char) : List Char → Option (String × List Char)
  | [] => none
  | '>' :: rest => if found = [] then none else some (String.ofList found.reverse, rest)
  | c :: rest =>
    let (group, kind) := Text.category c
    let letter := group == 'L' || (group == 'N' && kind == 'l')
    let later := found != [] && (c == '.' || c == '[' || c == ']' || group == 'N')
    if c = '_' ∨ letter ∨ later then readName? (c :: found) rest else none

def readCount? (chars : List Char) : Option Nat × List Char :=
  let chars := Text.dropBlanks chars
  let digits := chars.takeWhile Char.isDigit
  let value := digits.foldl (fun n c => n * 10 + (c.toNat - '0'.toNat)) 0
  (if digits = [] ∨ 0x100000000 ≤ value then none else some value,
    Text.dropBlanks (chars.dropWhile Char.isDigit))

def readCounts? (chars : List Char) : Option (Nat × Option Nat × List Char) :=
  match readCount? chars with
  | (some least, '\x7d' :: rest) => some (least, some least, rest)
  | (some least, ',' :: rest) =>
    match Text.dropBlanks rest with
    | '\x7d' :: rest => some (least, none, rest)
    | rest =>
      match readCount? rest with
      | (some most, '\x7d' :: rest) => if least ≤ most then some (least, some most, rest) else none
      | _ => none
  | _ => none

def hexDigit? (c : Char) : Option Nat :=
  if c.isDigit then some (c.toNat - '0'.toNat)
  else if 'a' ≤ c ∧ c ≤ 'f' then some (c.toNat - 'a'.toNat + 10)
  else if 'A' ≤ c ∧ c ≤ 'F' then some (c.toNat - 'A'.toNat + 10)
  else none

def hexValue? (digits : List Char) : Option Nat :=
  if digits = [] then none
  else digits.foldlM (fun n c => (hexDigit? c).map (n * 16 + ·)) 0

def charOf? (code : Nat) : Option Char := if code.isValidChar then some (Char.ofNat code) else none

-- A character given by its code: `width` digits, or any number of them in braces.
def readHex? (width : Nat) : List Char → Option (Char × List Char)
  | '\x7b' :: rest =>
    match rest.dropWhile (· != '\x7d') with
    | _ :: after => ((hexValue? (rest.takeWhile (· != '\x7d'))).bind charOf?).map (·, after)
    | [] => none
  | chars =>
    if chars.length < width then none
    else ((hexValue? (chars.take width)).bind charOf?).map (·, chars.drop width)

def isMeta (c : Char) : Bool := c ∈ "\\.+*?()|[]\x7b\x7d^$#&-~".toList

def categoryNames : List (String × Char × Option Char) := [
  ("letter", 'L', none), ("uppercaseletter", 'L', some 'u'), ("lowercaseletter", 'L', some 'l'),
  ("titlecaseletter", 'L', some 't'), ("modifierletter", 'L', some 'm'), ("otherletter", 'L', some 'o'),
  ("mark", 'M', none), ("combiningmark", 'M', none), ("nonspacingmark", 'M', some 'n'),
  ("spacingmark", 'M', some 'c'), ("enclosingmark", 'M', some 'e'),
  ("number", 'N', none), ("decimalnumber", 'N', some 'd'), ("digit", 'N', some 'd'),
  ("letternumber", 'N', some 'l'), ("othernumber", 'N', some 'o'),
  ("punctuation", 'P', none), ("punct", 'P', none), ("connectorpunctuation", 'P', some 'c'),
  ("dashpunctuation", 'P', some 'd'), ("openpunctuation", 'P', some 's'),
  ("closepunctuation", 'P', some 'e'), ("initialpunctuation", 'P', some 'i'),
  ("finalpunctuation", 'P', some 'f'), ("otherpunctuation", 'P', some 'o'),
  ("symbol", 'S', none), ("mathsymbol", 'S', some 'm'), ("currencysymbol", 'S', some 'c'),
  ("modifiersymbol", 'S', some 'k'), ("othersymbol", 'S', some 'o'),
  ("separator", 'Z', none), ("spaceseparator", 'Z', some 's'), ("lineseparator", 'Z', some 'l'),
  ("paragraphseparator", 'Z', some 'p'),
  ("other", 'C', none), ("control", 'C', some 'c'), ("cntrl", 'C', some 'c'), ("format", 'C', some 'f'),
  ("privateuse", 'C', some 'o'), ("unassigned", 'C', some 'n')]

def categoryKinds : List (Char × List Char) := [
  ('L', ['u', 'l', 't', 'm', 'o']), ('M', ['n', 'c', 'e']), ('N', ['d', 'l', 'o']),
  ('P', ['c', 'd', 's', 'e', 'i', 'f', 'o']), ('S', ['m', 'c', 'k', 'o']), ('Z', ['s', 'l', 'p']),
  ('C', ['c', 'f', 'o', 'n'])]

-- The name of a property in its plain form: without blanks, in small letters, and without an `is`
-- in front.
def plainName (name : List Char) : String :=
  let plain := (name.filter fun c => !(c == ' ' || c == '_' || c == '-')).map Char.toLower
  match plain with
  | 'i' :: 's' :: rest => if rest = ['c'] then "isc" else String.ofList rest
  | _ => String.ofList plain

def propertyNames : List (String × CharSet) := [
  ("alphabetic", .property .alphabetic), ("alpha", .property .alphabetic),
  ("lowercase", .property .lowercase), ("lower", .property .lowercase),
  ("uppercase", .property .uppercase), ("upper", .property .uppercase),
  ("math", .property .math), ("emoji", .property .emoji),
  ("whitespace", .blank), ("wspace", .blank), ("space", .blank)]

def casedLetters : CharSet :=
  .union (.category 'L' (some 'u')) (.union (.category 'L' (some 'l')) (.category 'L' (some 't')))

def categorySet? (name : String) : Option CharSet :=
  if name = "any" then some (.range 0 0x10FFFF)
  else if name = "ascii" then some (.range 0 0x7F)
  else if name = "assigned" then some (.not (.category 'C' (some 'n')))
  else if name = "lc" ∨ name = "casedletter" then some casedLetters
  else
    match name.toList with
    | [g] => (categoryKinds.lookup g.toUpper).map fun _ => .category g.toUpper none
    | [g, k] =>
      match categoryKinds.lookup g.toUpper with
      | some kinds => if k ∈ kinds then some (.category g.toUpper (some k)) else none
      | none => none
    | _ => (categoryNames.lookup name).map fun n => .category n.1 n.2

def scriptSet? (name : String) : Option CharSet := (Text.scriptRuns? name).map .listed

-- The set of characters that a name stands for: a property, a category or a script.
def namedSet? (name : List Char) : Option CharSet :=
  let name := plainName name
  (propertyNames.lookup name).or ((categorySet? name).or (scriptSet? name))

def valueSet? (property value : List Char) : Option CharSet :=
  let property := plainName property
  if property = "gc" ∨ property = "generalcategory" then categorySet? (plainName value)
  else if property ∈ ["sc", "script", "scx", "scriptextensions"] then scriptSet? (plainName value)
  else none

-- What stands between the braces of a property: a name, or a property and its value.
def propertySet? (text : List Char) : Option CharSet :=
  match text.dropWhile fun c => c != '=' && c != ':' with
  | [] => namedSet? text
  | _ :: value =>
    match (text.takeWhile fun c => c != '=' && c != ':').reverse with
    | '!' :: property => (valueSet? property.reverse value).map .not
    | property => valueSet? property.reverse value

def readProperty? (flags : Flags) (chars : List Char) : Option (CharSet × List Char) :=
  let fold (s : CharSet) : CharSet := if flags.caseless then .caseless s else s
  if !flags.unicode then none
  else
    match chars with
    | '\x7b' :: rest =>
      match rest.dropWhile (· != '\x7d') with
      | _ :: after => (propertySet? (rest.takeWhile (· != '\x7d'))).map fun s => (fold s, after)
      | [] => none
    | '\\' :: _ => none
    | c :: rest => (namedSet? [c]).map fun s => (fold s, rest)
    | [] => none

def shorthand? (flags : Flags) (c : Char) : Option CharSet :=
  let digits := if flags.unicode then CharSet.digit else .range 0x30 0x39
  let blanks := if flags.unicode then CharSet.blank else .union (.range 9 13) (.range 0x20 0x20)
  let words := if flags.unicode then CharSet.word
    else .union (.range 0x30 0x39) (.union (.range 0x41 0x5A) (.union (.range 0x5F 0x5F) (.range 0x61 0x7A)))
  let not (s : CharSet) : Option CharSet := if flags.unicode then some (.not s) else none
  match c with
  | 'd' => some digits
  | 's' => some blanks
  | 'w' => some words
  | 'D' => not digits
  | 'S' => not blanks
  | 'W' => not words
  | _ => none

def rangeSet (flags : Flags) (low high : Char) : CharSet :=
  if flags.caseless then .folded low.toNat high.toNat else .range low.toNat high.toNat

inductive Escape where
  | char (c : Char)
  | set (s : CharSet)
  | anchor (a : Anchor)

def boundaryNames : List (String × Anchor) := [
  ("start", .wordStart), ("end", .wordEnd), ("start-half", .wordStartHalf), ("end-half", .wordEndHalf)]

def readEscape? (flags : Flags) : List Char → Option (Escape × List Char)
  | [] => none
  | c :: rest =>
    if c.isDigit then none
    else if c = 'x' then
      match readHex? 2 rest with
      | some (c, after) =>
        if flags.unicode ∨ c.toNat < 0x80 ∨ rest.head? = some '\x7b' then some (.char c, after)
        else none
      | none => none
    else if c = 'u' then (readHex? 4 rest).map fun r => (.char r.1, r.2)
    else if c = 'U' then (readHex? 8 rest).map fun r => (.char r.1, r.2)
    else if c = 'p' then (readProperty? flags rest).map fun r => (.set r.1, r.2)
    else if c = 'P' then (readProperty? flags rest).map fun r => (.set (.not r.1), r.2)
    else if c ∈ ['d', 's', 'w', 'D', 'S', 'W'] then
      (shorthand? flags c).map fun s => (.set s, rest)
    else if isMeta c then some (.char c, rest)
    else
      match c with
      | 'a' => some (.char '\x07', rest)
      | 'f' => some (.char '\x0c', rest)
      | 't' => some (.char '\t', rest)
      | 'n' => some (.char '\n', rest)
      | 'r' => some (.char '\r', rest)
      | 'v' => some (.char '\x0b', rest)
      | 'A' => some (.anchor .textStart, rest)
      | 'z' => some (.anchor .textEnd, rest)
      | 'B' => some (.anchor .notWordBoundary, rest)
      | '<' => some (.anchor .wordStart, rest)
      | '>' => some (.anchor .wordEnd, rest)
      | 'b' =>
        match rest with
        | '\x7b' :: inner =>
          let name := inner.takeWhile fun c => c.isAlpha || c == '-'
          match inner.dropWhile fun c => c.isAlpha || c == '-' with
          | '\x7d' :: after =>
            (boundaryNames.lookup (String.ofList name)).map fun a => (.anchor a, after)
          | _ => if name = [] then some (.anchor .wordBoundary, rest) else none
        | _ => some (.anchor .wordBoundary, rest)
      | _ => if c.toNat < 0x80 ∧ !c.isAlphanum then some (.char c, rest) else none

def namedSets : List (String × List (Char × Char)) := [
  ("alnum", [('0', '9'), ('A', 'Z'), ('a', 'z')]), ("alpha", [('A', 'Z'), ('a', 'z')]),
  ("ascii", [('\x00', '\x7f')]), ("blank", [('\t', '\t'), (' ', ' ')]),
  ("cntrl", [('\x00', '\x1f'), ('\x7f', '\x7f')]), ("digit", [('0', '9')]), ("graph", [('!', '~')]),
  ("lower", [('a', 'z')]), ("print", [(' ', '~')]),
  ("punct", [('!', '/'), (':', '@'), ('[', '\x60'), ('\x7b', '~')]),
  ("space", [('\t', '\r'), (' ', ' ')]), ("upper", [('A', 'Z')]),
  ("word", [('0', '9'), ('A', 'Z'), ('_', '_'), ('a', 'z')]),
  ("xdigit", [('0', '9'), ('A', 'F'), ('a', 'f')])]

def readNamed? (flags : Flags) : List Char → Option (CharSet × List Char)
  | ':' :: rest =>
    let (negated, rest) := match rest with
      | '^' :: r => (true, r)
      | r => (false, r)
    match rest.dropWhile Char.isAlpha with
    | ':' :: ']' :: after =>
      match namedSets.lookup (String.ofList (rest.takeWhile Char.isAlpha)) with
      | some ranges =>
        let s := ranges.foldl (fun s r => CharSet.union s (rangeSet flags r.1 r.2)) .none
        if !negated then some (s, after)
        else if flags.unicode then some (.not s, after)
        else none
      | none => none
    | _ => none
  | _ => none

inductive SetOperator where
  | inter
  | difference
  | symmetric

def SetOperator.apply : SetOperator → CharSet → CharSet → CharSet
  | .inter, a, b => .inter a b
  | .difference, a, b => .inter a (.not b)
  | .symmetric, a, b => .union (.inter a (.not b)) (.inter b (.not a))

-- What has been read of a set: the sets joined so far, if any, and the union that is being read.
structure SetState where
  joined : Option (CharSet × SetOperator)
  current : CharSet
  empty : Bool

def SetState.start : SetState := ⟨none, .none, true⟩

def SetState.add (s : SetState) (item : CharSet) : SetState :=
  { s with current := .union s.current item, empty := false }

def SetState.whole (s : SetState) : CharSet :=
  match s.joined with
  | none => s.current
  | some (left, op) => op.apply left s.current

def SetState.join (s : SetState) (op : SetOperator) : SetState :=
  ⟨some (s.whole, op), .none, true⟩

def readMember? (flags : Flags) : List Char → Option (Escape × List Char)
  | [] => none
  | '\\' :: rest =>
    match readEscape? flags rest with
    | some (.anchor _, _) => none
    | other => other
  | c :: rest => some (.char c, rest)

def readSet? (flags : Flags) : Nat → List Char → Option (CharSet × List Char)
  | 0, _ => none
  | fuel + 1, chars =>
    let chars := skipVerbose flags chars
    let (negated, chars) := match chars with
      | '^' :: rest => (true, skipVerbose flags rest)
      | _ => (false, chars)
    let dashes := chars.takeWhile (· == '-')
    let chars := chars.dropWhile (· == '-')
    let start := if dashes = [] then SetState.start else SetState.start.add (rangeSet flags '-' '-')
    let (start, chars) := match start.empty, chars with
      | true, ']' :: rest => (start.add (rangeSet flags ']' ']'), rest)
      | _, _ => (start, chars)
    match members fuel start chars with
    | some (s, rest) =>
      if negated then if flags.unicode then some (.not s, rest) else none else some (s, rest)
    | none => none
where
  members : Nat → SetState → List Char → Option (CharSet × List Char)
    | 0, _, _ => none
    | fuel + 1, state, chars =>
      match skipVerbose flags chars with
      | [] => none
      | ']' :: rest => some (state.whole, rest)
      | '&' :: '&' :: rest => members fuel (state.join .inter) rest
      | '-' :: '-' :: rest => members fuel (state.join .difference) rest
      | '~' :: '~' :: rest => members fuel (state.join .symmetric) rest
      | '[' :: rest =>
        match readNamed? flags rest with
        | some (s, rest) => members fuel (state.add s) rest
        | none =>
          match readSet? flags fuel rest with
          | some (s, rest) => members fuel (state.add s) rest
          | none => none
      | chars =>
        match readMember? flags chars with
        | none => none
        | some (first, rest) =>
          let single : SetState := match first with
            | .set s => state.add s
            | .char c => state.add (rangeSet flags c c)
            | .anchor _ => state
          match skipVerbose flags rest with
          | '-' :: after =>
            match skipVerbose flags after with
            | [] => none
            | ']' :: _ | '-' :: _ => members fuel single rest
            | after =>
              match first, readMember? flags after with
              | .char low, some (.char high, rest) =>
                if low ≤ high then members fuel (state.add (rangeSet flags low high)) rest else none
              | _, _ => none
          | rest => members fuel single rest

-- The parts of a sequence. Flags that stand by themselves cannot be repeated.
inductive Part where
  | pattern (p : Pattern)
  | flags

def Part.sequence (parts : List Part) : Pattern :=
  parts.foldl (fun after part =>
    match part with
    | .pattern p => match after with
      | .empty => p
      | _ => .seq p after
    | .flags => after) .empty

-- What has been read of a group: earlier alternatives, the parts of this one in reverse, the flags
-- in force and the names given to groups.
structure GroupState where
  earlier : Option Pattern
  parts : List Part
  flags : Flags
  names : List String

def GroupState.whole (s : GroupState) : Pattern :=
  match s.earlier with
  | none => Part.sequence s.parts
  | some p => .alt p (Part.sequence s.parts)

def GroupState.add (s : GroupState) (p : Pattern) : GroupState :=
  { s with parts := .pattern p :: s.parts }

def GroupState.repeatLast? (s : GroupState) (least : Nat) (most : Option Nat) : Option GroupState :=
  match s.parts with
  | .pattern p :: rest => some { s with parts := .pattern (.many p least most) :: rest }
  | _ => none

def dropLazy : List Char → List Char
  | '?' :: rest => rest
  | chars => chars

def anyChar? (flags : Flags) : Option CharSet :=
  if !flags.unicode then none
  else if flags.dotAll then some (.range 0 0x10FFFF)
  else if flags.carriage then some (.not (.union (.range 10 10) (.range 13 13)))
  else some (.not (.range 10 10))

def readGroup? : Nat → GroupState → List Char → Option (Pattern × List String × List Char)
  | 0, _, _ => none
  | fuel + 1, state, chars =>
    let flags := state.flags
    let inner (flags : Flags) (names : List String) (chars : List Char) :
        Option (GroupState × List Char) :=
      match readGroup? fuel ⟨none, [], flags, names⟩ chars with
      | some (p, names, ')' :: rest) => some ({ state.add p with names }, rest)
      | _ => none
    let next : Option (GroupState × List Char) → Option (Pattern × List String × List Char)
      | some (state, rest) => readGroup? fuel state rest
      | none => none
    match skipVerbose flags chars with
    | [] => some (state.whole, state.names, [])
    | ')' :: rest => some (state.whole, state.names, ')' :: rest)
    | '|' :: rest => readGroup? fuel { state with earlier := some state.whole, parts := [] } rest
    | '(' :: rest =>
      match skipVerbose flags rest with
      | '?' :: '=' :: _ | '?' :: '!' :: _ | '?' :: '<' :: '=' :: _ | '?' :: '<' :: '!' :: _ => none
      | '?' :: 'P' :: '<' :: rest | '?' :: '<' :: rest =>
        match readName? [] rest with
        | some (name, rest) =>
          if name ∈ state.names then none else next (inner flags (name :: state.names) rest)
        | none => none
      | '?' :: rest =>
        match readFlags? flags [] false false rest with
        | some (changed, seen, ')', rest) =>
          if seen = [] then none
          else readGroup? fuel { state with flags := changed, parts := .flags :: state.parts } rest
        | some (changed, _, _, rest) => next (inner changed state.names rest)
        | none => none
      | rest => next (inner flags state.names rest)
    | '[' :: rest =>
      match readSet? flags fuel rest with
      | some (s, rest) => readGroup? fuel (state.add (.set s)) rest
      | none => none
    | '?' :: rest => next ((state.repeatLast? 0 (some 1)).map (·, dropLazy rest))
    | '*' :: rest => next ((state.repeatLast? 0 none).map (·, dropLazy rest))
    | '+' :: rest => next ((state.repeatLast? 1 none).map (·, dropLazy rest))
    | '\x7b' :: rest =>
      match readCounts? rest with
      | some (least, most, rest) => next ((state.repeatLast? least most).map (·, dropLazy rest))
      | none => none
    | '\\' :: rest =>
      match readEscape? flags rest with
      | some (.char c, rest) => readGroup? fuel (state.add (.set (rangeSet flags c c))) rest
      | some (.set s, rest) => readGroup? fuel (state.add (.set s)) rest
      | some (.anchor a, rest) => readGroup? fuel (state.add (.anchor a)) rest
      | none => none
    | '.' :: rest => next ((anyChar? flags).map fun s => (state.add (.set s), rest))
    | '^' :: rest =>
      let a := if flags.multiline then Anchor.lineStart flags.carriage else .textStart
      readGroup? fuel (state.add (.anchor a)) rest
    | '$' :: rest =>
      let a := if flags.multiline then Anchor.lineEnd flags.carriage else .textEnd
      readGroup? fuel (state.add (.anchor a)) rest
    | c :: rest => readGroup? fuel (state.add (.set (rangeSet flags c c))) rest

def read? (text : String) : Option Pattern :=
  let chars := text.toList
  match readGroup? (2 * chars.length + 2) ⟨none, [], .plain, []⟩ chars with
  | some (p, _, []) => if p.fits then some p else none
  | _ => none

def readWhole? (text : String) : Option Pattern := read? ("^(?:" ++ text ++ ")$")

end LanguageRelay.Pattern
