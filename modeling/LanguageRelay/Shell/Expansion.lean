import LanguageRelay.Shell.Arithmetic
import LanguageRelay.Shell.Process
import LanguageRelay.Text.Bytes
namespace LanguageRelay.Shell

def isSeparator (c : Char) : Bool := c == ' ' || c == '\t' || c == '\n'

namespace Process

def parameter? (p : Process) (name : String) : Option String :=
  match name with
  | "#" => some (toString p.scope.arguments.length)
  | "?" => some (toString p.status)
  | "$" => some (toString p.identity)
  | "@" | "*" => some (" ".intercalate p.scope.arguments)
  | _ => p.scope.valueOf? name

def content (p : Process) : Content → String
  | .text text | .value text => text
  | .parameter name => (p.parameter? name).getD ""
  | .size name => toString (Text.byteLength ((p.parameter? name).getD ""))
  | .fallback name whenEmpty text =>
    match p.parameter? name with
    | some value => if whenEmpty ∧ value = "" then text else value
    | none => text
  | .arithmetic expression => toString (Arithmetic.evaluate p.scope.valueOf? expression)
  | .output _ => ""

def flat (p : Process) (word : Word) : String := String.join (word.map fun part => p.content part.content)

def extend (texts : List String) (text : String) : List String :=
  match texts.getLast? with
  | some last => texts.dropLast ++ [last ++ text]
  | none => [text]

-- Adds a split value: its first text belongs to the last one unless a blank stands before it.
def addSplit (texts : List String) (fresh : Bool) (value : List Char) : List String × Bool :=
  match value with
  | [] => (texts, fresh)
  | c :: rest =>
    if isSeparator c then addSplit texts true rest
    else if fresh then addSplit (texts ++ [String.singleton c]) false rest
    else addSplit (extend texts (String.singleton c)) false rest

def addPart (p : Process) (state : List String × Bool) (part : Part) : List String × Bool :=
  let (texts, fresh) := state
  match part.quoted, part.content with
  | true, .parameter "@" =>
    match p.scope.arguments with
    | [] => (texts, fresh)
    | first :: others =>
      ((if fresh then texts ++ [first] else extend texts first) ++ others, false)
  | quoted, content =>
    let text := p.content content
    let isText := match content with
      | .text _ => true
      | _ => false
    if quoted || isText then (if fresh then texts ++ [text] else extend texts text, false)
    else addSplit texts fresh text.toList

def fields (p : Process) (word : Word) : List String := (word.foldl p.addPart ([], true)).1

end Process
end LanguageRelay.Shell
