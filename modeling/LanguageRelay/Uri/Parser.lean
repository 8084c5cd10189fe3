import LanguageRelay.Text.Natural
import LanguageRelay.Text.Split
namespace LanguageRelay.Uri

inductive SchemeKind where
  | file
  | special
  | other
deriving DecidableEq, Repr

inductive HostPart where
  | none
  | name (text : String)
deriving DecidableEq, Repr

-- Where a URL leads: its host and the segments of its path, still percent-encoded.
structure Location where
  host : HostPart
  segments : List (List Char)
deriving DecidableEq, Repr

def specialSchemes : List String := ["http", "https", "ws", "wss", "ftp"]

def SchemeKind.of (scheme : String) : SchemeKind :=
  if scheme = "file" then .file else if scheme ∈ specialSchemes then .special else .other

def clean (chars : List Char) : List Char :=
  let outer (c : Char) : Bool := c.toNat ≤ 0x20
  let trimmed := ((chars.dropWhile outer).reverse.dropWhile outer).reverse
  trimmed.filter fun c => !(c == '\t' || c == '\n' || c == '\r')

def splitScheme? (chars : List Char) : Option (String × List Char) :=
  let inScheme (c : Char) : Bool := c.isAlphanum || c == '+' || c == '-' || c == '.'
  match chars.takeWhile inScheme, chars.dropWhile inScheme with
  | c :: name, ':' :: rest =>
    if c.isAlpha then some (String.ofList ((c :: name).map Char.toLower), rest) else none
  | _, _ => none

def SchemeKind.isSlash (kind : SchemeKind) (c : Char) : Bool :=
  c == '/' || (c == '\\' && kind != .other)

def SchemeKind.endsHost (kind : SchemeKind) (c : Char) : Bool :=
  kind.isSlash c || c == '?' || c == '#'

def beforeQuery (chars : List Char) : List Char := chars.takeWhile fun c => !(c == '?' || c == '#')

def plainDots : List Char → List Char
  | '%' :: '2' :: 'e' :: rest | '%' :: '2' :: 'E' :: rest => '.' :: plainDots rest
  | c :: rest => c :: plainDots rest
  | [] => []

def isDriveLetter : List Char → Bool
  | [c, mark] => c.isAlpha && (mark == ':' || mark == '|')
  | _ => false

def stepUp : List (List Char) → List (List Char)
  | [] => []
  | last :: before => if isDriveLetter last then last :: before else before

def asDrive (kind : SchemeKind) (first : Bool) (segment : List Char) : List Char :=
  match kind, first, segment with
  | .file, true, [c, '|'] => if c.isAlpha then [c, ':'] else segment
  | _, _, _ => segment

-- The segments without dot segments; those before are given in reverse. A dot segment at the end
-- leaves an empty segment.
def normalize (kind : SchemeKind) (before : List (List Char)) : List (List Char) → List (List Char)
  | [] => before.reverse
  | segment :: rest =>
    let after (before : List (List Char)) : List (List Char) :=
      if rest = [] then ([] :: before).reverse else normalize kind before rest
    if plainDots segment = ['.', '.'] then after (stepUp before)
    else if plainDots segment = ['.'] then after before
    else normalize kind (asDrive kind (before = []) segment :: before) rest

def pathSegments (kind : SchemeKind) (chars : List Char) : List (List Char) :=
  let path := (beforeQuery chars).map fun c => if kind.isSlash c then '/' else c
  let path := match path with
    | '/' :: rest => rest
    | _ => path
  let segments := normalize kind [] (Text.splitOn '/' path)
  match kind with
  | .file =>
    match segments.dropWhile (· == []) with
    | [] => [[]]
    | kept => kept
  | _ => segments

def hexDigit? (c : Char) : Option Nat :=
  if c.isDigit then some (c.toNat - '0'.toNat)
  else if 'a' ≤ c ∧ c ≤ 'f' then some (c.toNat - 'a'.toNat + 10)
  else if 'A' ≤ c ∧ c ≤ 'F' then some (c.toNat - 'A'.toNat + 10)
  else none

def plainHost : List Char → List Char
  | '%' :: a :: b :: rest =>
    match hexDigit? a, hexDigit? b with
    | some x, some y =>
      if x < 8 then (Char.ofNat (x * 16 + y)).toLower :: plainHost rest
      else '%' :: plainHost (a :: b :: rest)
    | _, _ => '%' :: plainHost (a :: b :: rest)
  | c :: rest => c.toLower :: plainHost rest
  | [] => []

def hostOf? (kind : SchemeKind) (authority : List Char) : Option HostPart :=
  let hasUser := authority.contains '@'
  let afterUser := (authority.reverse.takeWhile (· != '@')).reverse
  let name := afterUser.takeWhile (· != ':')
  let service := afterUser.dropWhile (· != ':')
  let serviceOk := match service with
    | _ :: digits => digits = [] ∨ ((Text.digitsValue? digits).any fun n => n < 0x10000)
    | [] => true
  if !serviceOk then none
  else if name = [] then if kind = .other ∧ !hasUser ∧ service = [] then some .none else none
  else if kind = .other then some (.name (String.ofList name))
  else some (.name (String.ofList (plainHost name)))

def afterAuthority? (kind : SchemeKind) (chars : List Char) : Option Location :=
  let authority := chars.takeWhile fun c => !kind.endsHost c
  let rest := chars.dropWhile fun c => !kind.endsHost c
  match kind with
  | .file =>
    if isDriveLetter authority then some ⟨.none, pathSegments kind chars⟩
    else
      let name := String.ofList (plainHost authority)
      some ⟨if name = "" ∨ name = "localhost" then .none else .name name, pathSegments kind rest⟩
  | .special => (hostOf? kind authority).map fun host => ⟨host, pathSegments kind rest⟩
  | .other =>
    match hostOf? kind authority, rest with
    | some host, '/' :: _ => some ⟨host, pathSegments kind rest⟩
    | _, _ => none

def Location.read? (text : String) : Option Location :=
  match splitScheme? (clean text.toList) with
  | none => none
  | some (scheme, rest) =>
    let kind := SchemeKind.of scheme
    match kind, rest with
    | .special, _ => afterAuthority? kind (rest.dropWhile kind.isSlash)
    | .file, a :: b :: after =>
      if kind.isSlash a ∧ kind.isSlash b then afterAuthority? kind after
      else some ⟨.none, pathSegments kind rest⟩
    | .file, _ => some ⟨.none, pathSegments kind rest⟩
    | .other, '/' :: '/' :: after => afterAuthority? kind after
    | .other, '/' :: _ => some ⟨.none, pathSegments kind rest⟩
    | .other, _ => none

end LanguageRelay.Uri
