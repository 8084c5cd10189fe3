import LanguageRelay.Host.Environment
namespace LanguageRelay.Shell.Condition

def compare? (sign : String) (a b : Int) : Option Bool :=
  match sign with
  | "-eq" => some (a == b)
  | "-ne" => some (a != b)
  | "-lt" => some (decide (a < b))
  | "-le" => some (decide (a ≤ b))
  | "-gt" => some (decide (b < a))
  | "-ge" => some (decide (b ≤ a))
  | _ => none

def isFilled (files : Host.FileSystem) (path : String) : Bool :=
  match files.entry? path with
  | .ok (_, .file content _) => !content.isEmpty
  | _ => false

def isFile (files : Host.FileSystem) (path : String) : Bool :=
  match files.entry? path with
  | .ok (_, .file _ _) => true
  | _ => false

def property? (files : Host.FileSystem) (sign text : String) : Option Bool :=
  match sign with
  | "-n" => some (text != "")
  | "-z" => some (text == "")
  | "-e" | "-r" | "-w" => some (files.exists? text)
  | "-f" => some (isFile files text)
  | "-d" => some (files.isDirectory text)
  | "-x" => some (files.isExecutable text || files.isDirectory text)
  | "-s" => some (isFilled files text)
  | _ => none

def holds? (files : Host.FileSystem) : List String → Option Bool
  | [] => some false
  | [text] => some (text != "")
  | [first, second] =>
    if first = "!" then some (second == "") else property? files first second
  | [first, sign, second] =>
    match sign with
    | "=" => some (first == second)
    | "!=" => some (first != second)
    | _ =>
      if first = "!" then (property? files sign second).map (!·)
      else do compare? sign (← first.toInt?) (← second.toInt?)
  | "!" :: rest => (holds? files rest).map (!·)
  | _ => none

def status (files : Host.FileSystem) (arguments : List String) : Nat :=
  match holds? files arguments with
  | some true => 0
  | some false => 1
  | none => 2

end LanguageRelay.Shell.Condition
