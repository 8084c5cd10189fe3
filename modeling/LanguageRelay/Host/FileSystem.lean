import LanguageRelay.Host.IoError
import LanguageRelay.Path.Basic
import LanguageRelay.Path.Bytes
namespace LanguageRelay.Host
open LanguageRelay.Path

abbrev Place := List String

def Place.path (place : Place) : String := "/" ++ "/".intercalate place

inductive Entry where
  | file (content : Bytes) (executable : Bool)
  | directory
  | link (target : String)
  | device
deriving DecidableEq, Repr, Inhabited

-- Every file, directory and link is an entry under the names that lead to it.
structure FileSystem where
  entries : List (Place × Entry)
  workingDirectory : Place
deriving Repr, Inhabited

namespace FileSystem

-- The entry at a place, a link as itself. The root is always there.
def at? (fs : FileSystem) (place : Place) : Option Entry :=
  if place = [] then some .directory else fs.entries.lookup place

def put (fs : FileSystem) (place : Place) (entry : Entry) : FileSystem :=
  { fs with entries := (place, entry) :: fs.entries.filter fun e => e.1 != place }

def removeTree (fs : FileSystem) (place : Place) : FileSystem :=
  { fs with entries := fs.entries.filter fun e => !place.isPrefixOf e.1 }

def removeEntry (fs : FileSystem) (place : Place) : FileSystem :=
  { fs with entries := fs.entries.filter fun e => e.1 != place }

-- Where a path leads: to an entry, or to a free name in a directory.
inductive Target where
  | present (place : Place) (entry : Entry)
  | absent (place : Place)
deriving DecidableEq, Repr

def linkLimit : Nat := 40

def nameLimit : Nat := 255

def origin (path : String) (here : Place) : Place := if isAbsolute path then [] else here

-- Follows the parts of a path from a directory. A last link is followed when `follow` is set. Empty
-- parts and `.` stay where they are.
def walk (fs : FileSystem) (follow : Bool) (links : Nat) (here : Place) :
    List String → Except IoError Target
  | [] =>
    match fs.at? here with
    | some entry => .ok (.present here entry)
    | none => .error .notFound
  | segment :: rest =>
    if fs.at? here ≠ some .directory then .error .notDirectory
    else if segment = "" ∨ segment = "." then fs.walk follow links here rest
    else if segment = ".." then fs.walk follow links here.dropLast rest
    else if nameLimit < Path.byteLength segment then .error .nameTooLong
    else
      let place := here ++ [segment]
      match fs.at? place with
      | none => if rest = [] then .ok (.absent place) else .error .notFound
      | some (.link target) =>
        if rest = [] ∧ !follow then .ok (.present place (.link target))
        else
          match links with
          | 0 => .error .tooManyLinks
          | left + 1 =>
            if target = "" then .error .notFound
            else fs.walk follow left (origin target here) (segments target ++ rest)
      | some entry =>
        if rest = [] then .ok (.present place entry) else fs.walk follow links place rest
termination_by segments => (links, segments.length)

def resolve (fs : FileSystem) (follow : Bool) (path : String) : Except IoError Target :=
  if path.toList.contains '\x00' then .error .nulInPath
  else if path = "" then .error .notFound
  else fs.walk follow linkLimit (origin path fs.workingDirectory) (segments path)

def entry? (fs : FileSystem) (path : String) : Except IoError (Place × Entry) :=
  match fs.resolve true path with
  | .ok (.present place entry) => .ok (place, entry)
  | .ok (.absent _) => .error .notFound
  | .error e => .error e

def exists? (fs : FileSystem) (path : String) : Bool :=
  match fs.entry? path with
  | .ok _ => true
  | .error _ => false

def isDirectory (fs : FileSystem) (path : String) : Bool :=
  match fs.entry? path with
  | .ok (_, .directory) => true
  | _ => false

def isExecutable (fs : FileSystem) (path : String) : Bool :=
  match fs.entry? path with
  | .ok (_, .file _ true) => true
  | _ => false

def read (fs : FileSystem) (path : String) : Except IoError Bytes :=
  match fs.entry? path with
  | .ok (_, .file content _) => .ok content
  | .ok (_, .device) => .ok []
  | .ok (_, _) => .error .isDirectory
  | .error e => .error e

def readText (fs : FileSystem) (path : String) : Except IoError String :=
  match fs.read path with
  | .ok content =>
    match Text.utf8Decode? content with
    | some text => .ok text
    | none => .error .notText
  | .error e => .error e

def withoutEnd (path : String) : String :=
  match path.toList.reverse.dropWhile (· == '/') with
  | [] => String.ofList (path.toList.take 1)
  | kept => String.ofList kept.reverse

-- Puts content into the file that a path leads to, which is made if the name is free. Whether it
-- may be executed does not change. A path with a separator at its end can only be a directory.
def write (fs : FileSystem) (path : String) (content : Bytes) : Except IoError FileSystem :=
  if path.toList.getLast? = some '/' then
    match fs.resolve false (withoutEnd path) with
    | .ok _ => .error .isDirectory
    | .error e => .error e
  else
    match fs.resolve true path with
    | .ok (.present place (.file _ executable)) => .ok (fs.put place (.file content executable))
    | .ok (.present _ .device) => .ok fs
    | .ok (.present _ _) => .error .isDirectory
    | .ok (.absent place) => .ok (fs.put place (.file content false))
    | .error e => .error e

-- Makes one directory. Its name has to be free, and may have separators after it.
def createDirectory (fs : FileSystem) (path : String) : Except IoError FileSystem :=
  match fs.resolve false (withoutEnd path) with
  | .ok (.present _ _) => .error .alreadyExists
  | .ok (.absent place) => .ok (fs.put place .directory)
  | .error e => .error e

abbrev Attempt := Except IoError Unit × FileSystem

def attempt (fs : FileSystem) : Except IoError FileSystem → Attempt
  | .ok changed => (.ok (), changed)
  | .error e => (.error e, fs)

def ensureDirectory (fs : FileSystem) (path : String) : Attempt :=
  match fs.createDirectory path with
  | .ok made => (.ok (), made)
  | .error e => (if fs.isDirectory path then .ok () else .error e, fs)

def wanted? (fs : FileSystem) (path : String) : Option String :=
  match fs.createDirectory path with
  | .error .notFound => parent? path
  | _ => none

-- Makes a directory and every directory above it that is missing, so many levels up at most. What
-- is made stays when a later step fails.
def createUpTo : Nat → FileSystem → String → Attempt
  | 0, fs, path => if path = "" then (.ok (), fs) else fs.ensureDirectory path
  | height + 1, fs, path =>
    if path = "" then (.ok (), fs)
    else
      match fs.wanted? path with
      | none => fs.ensureDirectory path
      | some above =>
        match createUpTo height fs above with
        | (.ok _, made) => made.ensureDirectory path
        | failed => failed

def createAll (fs : FileSystem) (path : String) : Attempt := createUpTo (segments path).length fs path

-- Removes a directory with all that is in it. A link is removed by itself.
def removeAll (fs : FileSystem) (path : String) : Except IoError FileSystem :=
  match fs.resolve false path with
  | .ok (.present place .directory) => .ok (fs.removeTree place)
  | .ok (.present place (.link _)) => .ok (fs.removeEntry place)
  | .ok (.present _ _) => .error .notDirectory
  | .ok (.absent _) => .error .notFound
  | .error e => .error e

end FileSystem
end LanguageRelay.Host
