import LanguageRelay.Text.Split
namespace LanguageRelay

-- Components leave out repeated and trailing separators and every `.` but a first one. No path is looked
-- up here.
inductive Path.Component where
  | root
  | current
  | parent
  | normal (name : String)
deriving DecidableEq, Repr, Inhabited

namespace Path

def segments (path : String) : List String := Text.split '/' path

def component? (segment : String) : Option Component :=
  if segment = "" ∨ segment = "." then none
  else if segment = ".." then some .parent
  else some (.normal segment)

def isAbsolute (path : String) : Bool := path.toList.head? == some '/'

def components (path : String) : List Component :=
  let rest := (segments path).filterMap component?
  if isAbsolute path then .root :: rest
  else if (segments path).head? = some "." then .current :: rest
  else rest

-- A path continued by another. An absolute one takes its place; an empty one adds a separator.
def join (base path : String) : String :=
  if isAbsolute path ∨ base = "" then path
  else if base.toList.getLast? = some '/' then base ++ path
  else base ++ "/" ++ path

def joinAll (base : String) (paths : List String) : String := paths.foldl join base

def Component.text : Component → String
  | .root => "/"
  | .current => "."
  | .parent => ".."
  | .normal name => name

def ofComponents (components : List Component) : String :=
  components.foldl (fun path c => join path c.text) ""

-- The path of the directory that holds the last component. The root and the empty path have none.
def parent? (path : String) : Option String :=
  match (components path).getLast? with
  | some .root | none => none
  | some _ => some (ofComponents (components path).dropLast)

def isWithin (base path : String) : Bool := (components base).isPrefixOf (components path)

def same (a b : String) : Bool := components a == components b

def Component.isNormal : Component → Bool
  | .normal _ => true
  | _ => false

end Path
end LanguageRelay
