import LanguageRelay.Text.Split
import LanguageRelay.Uri.FilePath
namespace LanguageRelay.Http

inductive Endpoint where
  | socket (encodedKey : String)
  | status
  | installed
deriving DecidableEq, Repr

structure Routes where
  base : List Char
deriving DecidableEq, Repr, Inhabited

namespace Routes

-- A segment that can be mounted as it is: it does not begin with a mark of older route patterns and
-- holds no brace.
def isLiteral (segment : List Char) : Bool :=
  segment.head? != some ':' && segment.head? != some '*'
    && !segment.contains '\x7b' && !segment.contains '\x7d'

-- Mounts the endpoints at a base path. A path that is not empty has to begin with a slash and to
-- have literal segments only.
def mount? (base : String) : Option Routes :=
  match (base.toList.reverse.dropWhile (· == '/')).reverse with
  | [] => some ⟨[]⟩
  | c :: rest =>
    if c = '/' ∧ (Text.splitOn '/' (c :: rest)).all isLiteral then some ⟨c :: rest⟩ else none

def socketPath : List Char := "/lsp/ws/".toList

-- The endpoint of a path below the base. A key is one segment that is not empty.
def endpointBelow? (path : List Char) : Option Endpoint :=
  if path = "/lsp/status".toList then some .status
  else if path = "/lsp/installed".toList then some .installed
  else if socketPath.isPrefixOf path then
    let key := path.drop socketPath.length
    if key = [] ∨ '/' ∈ key then none else some (.socket (String.ofList key))
  else none

def pathOf (target : String) : List Char := target.toList.takeWhile fun c => c != '?' && c != '#'

def endpoint? (routes : Routes) (target : String) : Option Endpoint :=
  let path := pathOf target
  if routes.base.isPrefixOf path then endpointBelow? (path.drop routes.base.length) else none

end Routes

def decodeKey? (encodedKey : String) : Option String :=
  Text.utf8Decode? (Uri.percentDecode (Text.utf8 encodedKey))

inductive Response where
  | report (json : String)
  | refused (code : Nat) (allow : Option String)
deriving DecidableEq, Repr

def notFound : Response := .refused 404 none
def badRequest : Response := .refused 400 none

def wrongMethod : Response := .refused 405 (some "GET,HEAD")

-- The answer to a plain request, given the two reports. A socket is only opened by an upgrade.
def respond (routes : Routes) (method target statusReport installedReport : String) : Response :=
  match routes.endpoint? target with
  | none => notFound
  | some endpoint =>
    if method ≠ "GET" ∧ method ≠ "HEAD" then wrongMethod
    else
      let body := fun json => Response.report (if method = "HEAD" then "" else json)
      match endpoint with
      | .status => body statusReport
      | .installed => body installedReport
      | .socket _ => if method = "HEAD" then .refused 405 none else badRequest

-- What a request to open a socket leads to: the key of its server or a status code.
def upgrade (routes : Routes) (target : String) : Except Nat String :=
  match routes.endpoint? target with
  | none => .error 404
  | some (.socket encodedKey) =>
    match decodeKey? encodedKey with
    | some key => .ok key
    | none => .error 400
  | some _ => .error 200

end LanguageRelay.Http
