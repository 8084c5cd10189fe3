import LanguageRelay.Shell.Grammar
import LanguageRelay.Shell.Process
import LanguageRelay.Text.Lossy
namespace LanguageRelay.Shell
open Host

structure Image where
  host : Host
  scope : Scope
  status : Nat
  frames : List Frame

def programMark : Bytes := 127 :: Text.ascii "ELF"

def interpreter? (content : Bytes) : Option (String × List String) :=
  match content with
  | 35 :: 33 :: rest =>
    let isBlank (c : Char) : Bool := c == ' ' || c == '\t'
    let line := (Text.utf8Lossy (rest.takeWhile (· ≠ 10))).toList.dropWhile isBlank
    let name := line.takeWhile (!isBlank ·)
    let argument := ((line.dropWhile (!isBlank ·)).dropWhile isBlank).reverse.dropWhile isBlank
    if name = [] then none
    else some (String.ofList name,
      if argument = [] then [] else [String.ofList argument.reverse])
  | _ => none

-- The program that a file is and the arguments that it gets. An interpreter may be a script itself,
-- up to a depth.
def programOf (files : FileSystem) : Nat → String → List String →
    Except IoError (String × List String)
  | depth, path, arguments =>
    match files.entry? path with
    | .error e => .error e
    | .ok (_, .file content true) =>
      if programMark.isPrefixOf content then .ok (((Path.segments path).getLast?).getD path, arguments)
      else
        match interpreter? content, depth with
        | some (name, extra), deeper + 1 =>
          programOf files deeper name (extra ++ path :: arguments)
        | some _, 0 => .error .tooManyLinks
        | none, _ => .error .badFormat
    | .ok _ => .error .permissionDenied

def interpreterDepth : Nat := 4

def milliseconds? (text : String) : Option Nat :=
  let whole := text.toList.takeWhile Char.isDigit
  let (part, unit) := match text.toList.dropWhile Char.isDigit with
    | '.' :: rest => (rest.takeWhile Char.isDigit, rest.dropWhile Char.isDigit)
    | rest => ([], rest)
  let number := ((String.ofList (whole ++ (part ++ ['0', '0', '0']).take 3)).toNat?).getD 0
  if whole = [] ∧ part = [] then none
  else
    match unit with
    | [] | ['s'] => some number
    | ['m'] => some (number * 60)
    | ['h'] => some (number * 3600)
    | ['d'] => some (number * 86400)
    | _ => none

def extentOf : List String → Extent
  | "-c" :: count :: _ => .bytes (count.toNat?.getD 0)
  | "-n" :: count :: _ => .lines (count.toNat?.getD 0)
  | first :: rest =>
    match first.toList with
    | '-' :: 'c' :: count => .bytes ((String.ofList count).toNat?.getD 0)
    | '-' :: 'n' :: count => .lines ((String.ofList count).toNat?.getD 0)
    | '-' :: count => .lines ((String.ofList count).toNat?.getD 10)
    | _ => extentOf rest
  | [] => .lines 10

def operands (arguments : List String) : List String :=
  arguments.filter fun text => text == "-" || !text.startsWith "-"

def openForWriting (host : Host) (path : String) (append : Bool) :
    Except IoError (Host × Channel) :=
  match host.files.entry? path with
  | .ok (_, .device) => .ok (host, .discard)
  | found =>
    let content := match found with
      | .ok (_, .file content _) => if append then content else []
      | _ => []
    (host.files.write path content).map fun files => ({ host with files }, .file path 0)

def openAll (append : Bool) : Host → List String → Host × List Channel
  | host, [] => (host, [])
  | host, path :: rest =>
    match openForWriting host path append with
    | .ok (opened, channel) =>
      let (host, channels) := openAll append opened rest
      (host, channel :: channels)
    | .error _ => openAll append host rest

-- A shell with a script. It knows its working directory.
def scriptImage (host : Host) (scope : Scope) (script name : String) (arguments : List String) :
    Image :=
  let values := Keyed.insert "PWD" host.workingDirectory scope.environment
  let scope := { scope with name, arguments, values }
  match Command.ofScript? script with
  | some command => ⟨host, scope, 0, [.run command]⟩
  | none => ⟨host, scope, 2, []⟩

def shellImage (host : Host) (scope : Scope) : List String → Image
  | [] => { scriptImage host scope "" "sh" [] with frames := [.program (.script [])] }
  | first :: rest =>
    if first.startsWith "-" then
      match first.toList.contains 'c', rest with
      | true, script :: others =>
        scriptImage host scope script (others.head?.getD "sh") others.tail
      | true, [] => ⟨host, scope, 2, []⟩
      | false, _ => shellImage host scope rest
    else
      match host.files.read first with
      | .ok content => scriptImage host scope (Text.utf8Lossy content) first rest
      | .error _ => ⟨host, scope, 2, []⟩

def plainCommand (words : List String) : Command :=
  .simple ⟨[], words.map fun word => [⟨true, .text word⟩], []⟩

def nativeImage (host : Host) (scope : Scope) (name : String) (arguments : List String) : Image :=
  let runs (program : Program) : Image := ⟨host, scope, 0, [.program program]⟩
  match name with
  | "sh" | "dash" | "bash" => shellImage host scope arguments
  | "cat" =>
    let sources := operands arguments
    runs (.cat (if sources = [] then ["-"] else sources) 0)
  | "head" => runs (.head (extentOf arguments))
  | "sleep" =>
    if arguments.contains "infinity" then runs .stay
    else
      match arguments.mapM milliseconds? with
      | none | some [] => ⟨host, scope, 1, []⟩
      | some durations => runs (.sleep (durations.foldl (· + ·) 0))
  | "tee" =>
    let (host, files) := openAll (arguments.contains "-a") host (operands arguments)
    ⟨host, scope, 0, [.program (.tee files)]⟩
  | "tail" => runs (if arguments.any fun text => text.startsWith "-f" then .stay else .drain 0)
  | "echo" | "printf" | "true" | "false" | "test" | "[" | "kill" | "pwd" =>
    ⟨host, scope, 0, [.run (plainCommand (name :: arguments))]⟩
  | _ => ⟨host, scope, 0, []⟩

def environmentArguments (scope : Scope) : List String → Scope × List String
  | [] => (scope, [])
  | word :: rest =>
    match word.toList.dropWhile (· ≠ '=') with
    | _ :: value =>
      let name := String.ofList (word.toList.takeWhile (· ≠ '='))
      environmentArguments ((scope.assign name (String.ofList value)).mark name) rest
    | [] => (scope, word :: rest)

def locate (host : Host) (scope : Scope) (command : String) : Except IoError String :=
  let searching := { host with environment := scope.values }
  match searching.which command with
  | some path => .ok path
  | none =>
    if 1 < (Path.components command).length ∧ host.files.exists? (host.absolute command) then
      .error .permissionDenied
    else .error .notFound

def programNamed (host : Host) (scope : Scope) (command : String) (arguments : List String) :
    Except IoError (String × List String) := do
  let path ← locate host scope command
  match programOf host.files interpreterDepth path arguments with
  | .error .badFormat => return ("sh", path :: arguments)
  | found => found

def startStatus (e : IoError) : Nat := if e = .notFound then 127 else 126

-- A program that has been found, ready to run. One that starts another takes its place by it.
def programImage (host : Host) (scope : Scope) : Nat → String → List String → Image
  | deeper + 1, "env", arguments =>
    match environmentArguments scope arguments with
    | (scope, []) => ⟨host, scope, 0, []⟩
    | (scope, command :: arguments) =>
      match programNamed host scope command arguments with
      | .ok (name, arguments) => programImage host scope deeper name arguments
      | .error e => ⟨host, scope, startStatus e, []⟩
  | _, name, arguments => nativeImage host scope name arguments

def programDepth : Nat := 16

end LanguageRelay.Shell
