import LanguageRelay.Shell.Condition
import LanguageRelay.Shell.Expansion
import LanguageRelay.Shell.Format
import LanguageRelay.Shell.Image
import LanguageRelay.Shell.Transfer
namespace LanguageRelay.Shell
open Host

inductive Outcome where
  | goes (process : Process) (host : Host) (acts : List Act)
  -- Nothing happens before something comes in or, if one is given, a moment comes.
  | waits (deadline : Option Nat)
  | ends (code : Option Int)

structure View where
  host : Host
  pipes : Pipes
  clock : Nat
  -- Jobs that the process has put into the background are running.
  busy : Bool

def brokenPipeStatus : Nat := 141

def readLimit : Nat := 131072

namespace Process

def proceeds (p : Process) (view : View) : Outcome := .goes p view.host []

-- A signal about a closed pipe ends what runs: a program that a shell has started, a subshell, or
-- the whole process. Where nothing is done about it the command just fails.
def signalled (p : Process) (view : View) : Outcome :=
  if p.scope.traps.find? "PIPE" = some "" then
    match p.frames with
    | .program _ :: rest => ({ p with frames := rest }.ended 1).proceeds view
    | _ => (p.ended 1).proceeds view
  else
    match p.frames with
    | .program _ :: rest =>
      if rest = [] then .ends none
      else ({ p with frames := rest }.ended brokenPipeStatus).proceeds view
    | frames =>
      if frames.any Frame.isBoundary then (p.quit brokenPipeStatus).proceeds view else .ends none

def prints (p : Process) (view : View) (bytes : Bytes) (status : Nat) : Outcome :=
  match p.put view.host view.pipes 1 bytes with
  | .written p host acts => .goes (p.ended status) host acts
  | .failed => (p.ended 1).proceeds view
  | .unheard => p.signalled view

-- The channel that a redirection leads to, none to close. Nothing comes of a file that cannot be
-- opened.
def channelOf? (p : Process) (host : Host) : Target → Option (Host × Option Channel)
  | .read file =>
    match host.files.entry? (p.flat file) with
    | .ok (_, .device) => some (host, some .discard)
    | .ok (_, .file _ _) => some (host, some (.file (p.flat file) 0))
    | _ => none
  | .write file append =>
    match openForWriting host (p.flat file) append with
    | .ok (host, channel) => some (host, some channel)
    | .error _ => none
  | .copy descriptor => (p.channel? descriptor).map fun channel => (host, some channel)
  | .close => some (host, none)

def redirect? (p : Process) (host : Host) : List Redirection → Option (Process × Host)
  | [] => some (p, host)
  | redirection :: rest => do
    let (host, channel) ← p.channelOf? host redirection.target
    redirect? (p.withScope (p.scope.connect redirection.descriptor channel)) host rest

def scriptIn? (word : Word) : Option String :=
  word.findSome? fun part =>
    match part.content with
    | .output script => some script
    | _ => none

def wordsOf (command : Simple) : List Word :=
  command.assignments.map Prod.snd ++ command.words ++ command.redirections.filterMap fun r =>
    match r.target with
    | .read file | .write file _ => some file
    | _ => none

def fillWord (text : String) : Word → Word
  | [] => []
  | part :: rest =>
    match part.content with
    | .output _ => ⟨part.quoted, .value text⟩ :: rest
    | _ => part :: fillWord text rest

def fillFirst (text : String) : List Word → List Word
  | [] => []
  | word :: rest =>
    if (scriptIn? word).isSome then fillWord text word :: rest else word :: fillFirst text rest

def fill (text : String) (command : Simple) : Simple :=
  if (command.assignments.any fun e => (scriptIn? e.2).isSome) then
    { command with
      assignments := (command.assignments.map Prod.fst).zip
        (fillFirst text (command.assignments.map Prod.snd)) }
  else if (command.words.any fun word => (scriptIn? word).isSome) then
    { command with words := fillFirst text command.words }
  else
    { command with
      redirections := command.redirections.map fun r =>
        match r.target with
        | .read file => { r with target := .read (fillWord text file) }
        | .write file append => { r with target := .write (fillWord text file) append }
        | _ => r }

-- The output of a script as it goes into a word: without the line ends at its end.
def collectedText (bytes : Bytes) : String :=
  Text.utf8Lossy (bytes.reverse.dropWhile (· == 10)).reverse

def harmless : List String := ["EXIT", "CHLD", "CONT", "URG", "WINCH"]

def signalNumbers : List (String × String) := [
  ("0", "EXIT"), ("1", "HUP"), ("2", "INT"), ("3", "QUIT"), ("6", "ABRT"), ("9", "KILL"),
  ("10", "USR1"), ("12", "USR2"), ("13", "PIPE"), ("14", "ALRM"), ("15", "TERM"), ("17", "CHLD"),
  ("18", "CONT"), ("23", "URG"), ("28", "WINCH")]

def signalName (text : String) : String :=
  match signalNumbers.lookup text with
  | some name => name
  | none =>
    match text.toList.map Char.toUpper with
    | 'S' :: 'I' :: 'G' :: name => String.ofList name
    | name => String.ofList name

def setTraps (traps : Keyed String) : List String → Keyed String
  | "-" :: signals => traps.filter fun e => !(signals.map signalName).contains e.1
  | action :: signals =>
    signals.foldl (fun traps signal => Keyed.insert (signalName signal) action traps) traps
  | [] => traps

def killArguments : List String → String × List String
  | "-s" :: signal :: rest => (signal, rest)
  | first :: rest =>
    match first.toList with
    | '-' :: signal => (String.ofList signal, rest)
    | _ => ("TERM", first :: rest)
  | [] => ("TERM", [])

def dropBody : List Frame → List Frame
  | [] => []
  | frame :: rest =>
    match frame with
    | .turn _ _ _ | .again _ _ _ _ | .each _ _ _ | .leave _ | .fill _ _ => frame :: rest
    | .restore _ => frame :: dropBody rest
    | _ => dropBody rest

def breakLoop (p : Process) : Process :=
  match dropBody p.frames with
  | .turn _ _ _ :: rest | .again _ _ _ _ :: rest | .each _ _ _ :: rest =>
    { p with frames := rest, status := 0 }
  | _ => p.ended 0

def continueLoop (p : Process) : Process := { p with frames := dropBody p.frames, status := 0 }

def exitStatus (p : Process) : List String → Nat
  | [] => p.status
  | text :: _ => (text.toNat?.map (· % 256)).getD 2

def exportWord (scope : Scope) (word : String) : Scope :=
  let name := String.ofList (word.toList.takeWhile (· ≠ '='))
  match word.toList.dropWhile (· ≠ '=') with
  | _ :: value => (scope.assign name (String.ofList value)).mark name
  | [] => scope.mark name

def assignLine (scope : Scope) (line : List Char) : List String → Scope
  | [] => scope
  | [name] =>
    let text := (line.dropWhile isSeparator).reverse.dropWhile isSeparator
    scope.assign name (String.ofList text.reverse)
  | name :: names =>
    let text := line.dropWhile isSeparator
    assignLine (scope.assign name (String.ofList (text.takeWhile (!isSeparator ·))))
      (text.dropWhile (!isSeparator ·)) names

def unhide : List Char → List Char
  | '\\' :: c :: rest => c :: unhide rest
  | c :: rest => c :: unhide rest
  | [] => []

def builtIn? (p : Process) (view : View) (name : String) (arguments : List String) : Option Outcome :=
  match name with
  | "trap" =>
    some ((p.withScope { p.scope with traps := setTraps p.scope.traps arguments }).ended 0
      |>.proceeds view)
  | ":" | "true" | "set" | "umask" | "cd" | "ulimit" | "hash" =>
    some ((p.ended 0).proceeds view)
  | "wait" => some (if view.busy then .waits none else (p.ended 0).proceeds view)
  | "false" => some ((p.ended 1).proceeds view)
  | "echo" => some (p.prints view (Format.echo arguments) 0)
  | "printf" => some (p.prints view (Format.printf arguments) (if arguments = [] then 2 else 0))
  | "pwd" => some (p.prints view (Text.utf8 (view.host.workingDirectory ++ "\n")) 0)
  | "test" => some ((p.ended (Condition.status view.host.files arguments)).proceeds view)
  | "[" =>
    let status :=
      if arguments.getLast? = some "]" then
        Condition.status view.host.files arguments.dropLast
      else 2
    some ((p.ended status).proceeds view)
  | "exit" | "return" => some ((p.quit (p.exitStatus arguments)).proceeds view)
  | "break" => some (p.breakLoop.proceeds view)
  | "continue" => some (p.continueLoop.proceeds view)
  | "shift" =>
    let count := ((arguments.head?.bind String.toNat?).getD 1)
    some ((p.withScope { p.scope with arguments := p.scope.arguments.drop count }).ended 0
      |>.proceeds view)
  | "export" => some ((p.withScope (arguments.foldl exportWord p.scope)).ended 0 |>.proceeds view)
  | "unset" =>
    some ((p.withScope { p.scope with
      values := p.scope.values.filter fun e => !arguments.contains e.1 }).ended 0
      |>.proceeds view)
  | "kill" =>
    let (signal, targets) := killArguments arguments
    let signal := signalName signal
    if harmless.contains signal then some ((p.ended 0).proceeds view)
    else if !targets.contains (toString p.identity) then some ((p.ended 1).proceeds view)
    else
      match if signal = "KILL" then none else p.scope.traps.find? signal with
      | none => some (.ends none)
      | some action =>
        match Command.ofScript? action with
        | some command => some (((p.ended 0).push [.run command, .outcome 0]).proceeds view)
        | none => some ((p.ended 0).proceeds view)
  | "read" =>
    some ((p.push [.reading (arguments.contains "-r")
      (arguments.filter fun text => !text.startsWith "-") []]).proceeds view)
  | _ => none

-- Starts a program on top of what is left to do, or in the place of the running shell. Assignments
-- in front of it are for the program alone.
def starts (p : Process) (view : View) (replacing : Bool) (assignments : List (String × String))
    (words : List String) : Outcome :=
  let scope := assignments.foldl (fun scope e => (scope.assign e.1 e.2).mark e.1) p.scope
  let scope := { scope with values := scope.environment, traps := scope.silences }
  let below := if replacing then p.frames.dropWhile (!·.isBoundary) else .leave p.scope :: p.frames
  match words with
  | [] => (p.ended 0).proceeds view
  | command :: arguments =>
    match programNamed view.host scope command arguments with
    | .ok (name, arguments) =>
      let image := programImage view.host scope programDepth name arguments
      .goes { p with scope := image.scope, status := image.status, frames := image.frames ++ below }
        image.host []
    | .error e =>
      (if replacing then p.quit (startStatus e) else p.ended (startStatus e)).proceeds view

-- Does a command whose words are known. The process has the command's redirections; afterwards it
-- gets the old descriptors back, if there were any redirections.
def invoke (p : Process) (view : View) (assignments : List (String × String))
    (old : Option (List (Nat × Channel))) (words : List String) : Outcome :=
  let assigned (p : Process) : Process :=
    p.withScope (assignments.foldl (fun scope e => scope.assign e.1 e.2) p.scope)
  let returning := match old with
    | some descriptors => p.push [.restore descriptors]
    | none => p
  match words with
  | [] => ((assigned returning).ended 0).proceeds view
  | ["exec"] => ((assigned p).ended 0).proceeds view
  | "exec" :: words => p.starts view true assignments words
  | "command" :: name :: arguments | name :: arguments =>
    match returning.builtIn? view name arguments with
    | some outcome => outcome
    | none =>
      if p.frames = [] ∧ p.scope.traps = [] then p.starts view true assignments (name :: arguments)
      else returning.starts view false assignments (name :: arguments)

def runSimple (p : Process) (view : View) (command : Simple) : Outcome :=
  match (wordsOf command).findSome? scriptIn? with
  | some script =>
    let inner :=
      { p.scope with collected := [], traps := p.scope.silences }.connect 1 (some .collected)
    let frames := match Command.ofScript? script with
      | some body => [Frame.run body]
      | none => []
    { p with scope := inner, frames := frames ++ Frame.fill p.scope command :: p.frames }.proceeds view
  | none =>
    let words := command.words.flatMap p.fields
    let assignments := command.assignments.map fun e => (e.1, p.flat e.2)
    match p.redirect? view.host command.redirections with
    | some (q, host) =>
      let old := if command.redirections = [] then none else some p.scope.descriptors
      q.invoke { view with host } assignments old words
    | none => (p.ended 2).proceeds view

def finished (p : Process) (view : View) (status : Nat) : Outcome :=
  ({ p with frames := p.frames.tail }.ended status).proceeds view

def becomes (p : Process) (program : Program) : Process :=
  { p with frames := .program program :: p.frames.tail }

def passes (p : Process) (view : View) (acts : List Act) (bytes : Bytes) : Outcome :=
  match p.put view.host view.pipes 1 bytes with
  | .written p host more => .goes p host (acts ++ more)
  | .failed => p.finished view 1
  | .unheard => p.signalled view

def Extent.measure (extent : Extent) (bytes : Bytes) : Nat :=
  match extent with
  | .bytes count => min count bytes.length
  | .lines count => lines count bytes
where
  lines : Nat → Bytes → Nat
    | 0, _ | _, [] => 0
    | n + 1, byte :: rest => 1 + lines (if byte = 10 then n else n + 1) rest

def Extent.after (extent : Extent) (bytes : Bytes) : Extent :=
  match extent with
  | .bytes count => .bytes (count - bytes.length)
  | .lines count => .lines (count - bytes.count 10)

def Extent.isEmpty : Extent → Bool
  | .bytes count | .lines count => count == 0

def writeAll (p : Process) (view : View) (bytes : Bytes) : List Channel → Host
  | [] => view.host
  | file :: rest =>
    match p.putTo view.host view.pipes (some file) bytes with
    | .written p host _ => writeAll p { view with host } bytes rest
    | _ => writeAll p view bytes rest

def runProgram (p : Process) (view : View) (program : Program) : Outcome :=
  let take := p.take view.host view.pipes 0
  match program with
  | .cat [] status => p.finished view status
  | .cat ("-" :: rest) status =>
    match take fun bytes => min readLimit bytes.length with
    | .bytes bytes p acts => p.passes view acts bytes
    | .ended => (p.becomes (.cat rest status)).proceeds view
    | .empty => .waits none
    | .failed => (p.becomes (.cat rest 1)).proceeds view
  | .cat (path :: rest) status =>
    match view.host.files.read path with
    | .ok content => (p.becomes (.cat rest status)).passes view [] content
    | .error _ => (p.becomes (.cat rest 1)).proceeds view
  | .head extent =>
    if Extent.isEmpty extent then p.finished view 0
    else
      match take (Extent.measure extent) with
      | .bytes bytes p acts => (p.becomes (.head (Extent.after extent bytes))).passes view acts bytes
      | .ended => p.finished view 0
      | .empty => .waits none
      | .failed => p.finished view 1
  | .tee files =>
    match take fun bytes => min readLimit bytes.length with
    | .bytes bytes p acts =>
      p.passes { view with host := p.writeAll view bytes files } acts bytes
    | .ended => p.finished view 0
    | .empty => .waits none
    | .failed => p.finished view 1
  | .drain status =>
    match take List.length with
    | .bytes _ p acts => .goes p view.host acts
    | .empty => .waits none
    | _ => p.finished view status
  | .script text =>
    match take List.length with
    | .bytes bytes p acts => .goes (p.becomes (.script (text ++ bytes))) view.host acts
    | .empty => .waits none
    | _ =>
      match Command.ofScript? (Text.utf8Lossy text) with
      | some command => .goes { p with frames := .run command :: p.frames.tail } view.host []
      | none => p.finished view 2
  | .sleep milliseconds => (p.becomes (.pause (view.clock + milliseconds))).proceeds view
  | .pause deadline =>
    if deadline ≤ view.clock then p.finished view 0 else .waits (some deadline)
  | .stay => .waits none

def lineMeasure (bytes : Bytes) : Nat := min ((bytes.takeWhile (· ≠ 10)).length + 1) bytes.length

def readLine (p : Process) (view : View) (rest : List Frame) (raw : Bool) (names : List String)
    (line : Bytes) : Outcome :=
  let done (p : Process) (line : Bytes) (status : Nat) : Process :=
    let text := (Text.utf8Lossy line).toList
    let scope := assignLine p.scope (if raw then text else unhide text) names
    ({ p with frames := rest }.withScope scope).ended status
  match p.take view.host view.pipes 0 lineMeasure with
  | .bytes bytes p acts =>
    if bytes.getLast? = some 10 then .goes (done p (line ++ bytes.dropLast) 0) view.host acts
    else .goes { p with frames := .reading raw names (line ++ bytes) :: rest } view.host acts
  | .empty => .waits none
  | .ended => (done p line 1).proceeds view
  | .failed => (done p line 1).proceeds view

def runCommand (p : Process) (view : View) : Command → Outcome
  | .simple command => p.runSimple view command
  | .sequence first second => (p.push [.run first, .run second]).proceeds view
  | .both first second => (p.push [.run first, .whenStatus true second]).proceeds view
  | .either first second => (p.push [.run first, .whenStatus false second]).proceeds view
  | .negated command => (p.push [.run command, .negate]).proceeds view
  | .branch condition yes no => (p.push [.run condition, .choose yes no]).proceeds view
  | .loop holds condition body =>
    (p.push [.run condition, .again holds condition body 0]).proceeds view
  | .each name words body =>
    ((p.push [.each name (words.flatMap p.fields) body]).ended 0).proceeds view
  | .redirected command redirections =>
    match p.redirect? view.host redirections with
    | some (q, host) => .goes (q.push [.run command, .restore p.scope.descriptors]) host []
    | none => (p.ended 2).proceeds view
  | .subshell command =>
    ((p.withScope { p.scope with traps := p.scope.silences }).push
      [.run command, .leave p.scope]).proceeds view
  | .background command => .goes (p.ended 0) view.host [.forks (p.job command)]
  | .nothing => (p.ended 0).proceeds view

def step (process : Process) (view : View) : Outcome :=
  match process.frames with
  | [] =>
    match (process.scope.traps.find? "EXIT").bind Command.ofScript? with
    | none => .ends (some (process.status % 256))
    | some command =>
      let scope := { process.scope with traps := setTraps process.scope.traps ["-", "EXIT"] }
      ((process.withScope scope).push [.run command, .outcome process.status]).proceeds view
  | frame :: rest =>
    let p := { process with frames := rest }
    let good := p.status == 0
    match frame with
    | .run command => p.runCommand view command
    | .whenStatus wanted command => (if good = wanted then p.push [.run command] else p).proceeds view
    | .negate => (p.ended (if good then 1 else 0)).proceeds view
    | .choose yes no => (p.push [.run (if good then yes else no)]).proceeds view
    | .again holds condition body status =>
      (if good = holds then p.push [.run body, .turn holds condition body]
        else p.ended status).proceeds view
    | .turn holds condition body =>
      (p.push [.run condition, .again holds condition body p.status]).proceeds view
    | .each _ [] _ => p.proceeds view
    | .each name (value :: values) body =>
      ((p.withScope (p.scope.assign name value)).push [.run body, .each name values body]).proceeds
        view
    | .restore descriptors => (p.withScope { p.scope with descriptors }).proceeds view
    | .leave scope => (p.withScope { scope with collected := p.scope.collected }).proceeds view
    | .fill scope command =>
      ((p.withScope scope).push
        [.run (.simple (fill (collectedText p.scope.collected) command))]).proceeds view
    | .reading raw names line => p.readLine view rest raw names line
    | .program program => process.runProgram view program
    | .outcome status => (p.ended status).proceeds view

end Process
end LanguageRelay.Shell
