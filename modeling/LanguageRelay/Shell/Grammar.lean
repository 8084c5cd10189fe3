import LanguageRelay.Shell.Token
namespace LanguageRelay.Shell

namespace Grammar
open Token (isNameStart isNameChar)

def skipLines : List Token → List Token
  | .operator "\n" :: rest => skipLines rest
  | tokens => tokens

def closing : List String := ["then", "do", "done", "else", "elif", "fi", "\x7d"]

def closes : Token → Bool
  | .word _ (some text) => closing.contains text
  | .operator text => text == ")"
  | _ => false

def expect? (text : String) : List Token → Option (List Token)
  | .word _ (some found) :: rest => if found = text then some rest else none
  | _ => none

def assignment? : Word → Option (String × Word)
  | ⟨false, .text text⟩ :: rest =>
    let name := text.toList.takeWhile (· ≠ '=')
    match text.toList.dropWhile (· ≠ '='), name with
    | _ :: value, c :: _ =>
      if isNameStart c ∧ name.all isNameChar then
        let rest := if value = [] then rest else ⟨false, .text (String.ofList value)⟩ :: rest
        some (String.ofList name, rest)
      else none
    | _, _ => none
  | _ => none

def target? (arrow : String) (word : Word) (plain : Option String) : Option Target :=
  match arrow with
  | "<" => some (.read word)
  | ">" | ">|" => some (.write word false)
  | ">>" => some (.write word true)
  | _ =>
    match plain with
    | some "-" => some .close
    | some text => text.toNat?.map .copy
    | none => none

def redirections? : List Token → Option (List Redirection × List Token)
  | .redirect descriptor arrow :: .word word plain :: rest => do
    let target ← target? arrow word plain
    let (others, rest) ← redirections? rest
    return (⟨descriptor, target⟩ :: others, rest)
  | .redirect _ _ :: _ => none
  | tokens => some ([], tokens)

def simple? (command : Simple) : List Token → Option (Simple × List Token)
  | .word word _ :: rest =>
    match assignment? word, command.words with
    | some assigned, [] =>
      simple? { command with assignments := command.assignments ++ [assigned] } rest
    | _, words => simple? { command with words := words ++ [word] } rest
  | .redirect descriptor arrow :: .word word plain :: rest => do
    let target ← target? arrow word plain
    simple? { command with
      redirections := command.redirections ++ [⟨descriptor, target⟩] } rest
  | .redirect _ _ :: _ => none
  | tokens => if command = ⟨[], [], []⟩ then none else some (command, tokens)

def wordList : List Token → List Word × List Token
  | .word word _ :: rest =>
    let (words, rest) := wordList rest
    (word :: words, rest)
  | tokens => ([], tokens)

def inSequence (first : Command) : Command → Command
  | .nothing => first
  | second => .sequence first second

mutual

def list? (n : Nat) (tokens : List Token) : Option (Command × List Token) :=
  match n, skipLines tokens with
  | 0, _ => none
  | _, [] => some (.nothing, [])
  | n + 1, token :: rest => do
    if closes token then return (.nothing, token :: rest)
    let (first, rest) ← joined? n (token :: rest)
    match rest with
    | .operator ";" :: rest | .operator "\n" :: rest =>
      let (second, rest) ← list? n rest
      return (inSequence first second, rest)
    | .operator "&" :: rest =>
      let (second, rest) ← list? n rest
      return (inSequence (.background first) second, rest)
    | _ => return (first, rest)

def joined? (n : Nat) (tokens : List Token) : Option (Command × List Token) :=
  match n with
  | 0 => none
  | n + 1 => do
    let (first, rest) ← command? n tokens
    joinedTo? n first rest

def joinedTo? (n : Nat) (first : Command) (tokens : List Token) : Option (Command × List Token) :=
  match n, tokens with
  | 0, _ => none
  | n + 1, .operator "&&" :: rest => do
    let (second, rest) ← command? n (skipLines rest)
    joinedTo? n (.both first second) rest
  | n + 1, .operator "||" :: rest => do
    let (second, rest) ← command? n (skipLines rest)
    joinedTo? n (.either first second) rest
  | _, tokens => some (first, tokens)

def command? (n : Nat) (tokens : List Token) : Option (Command × List Token) :=
  match n, tokens with
  | 0, _ => none
  | n + 1, .word _ (some "!") :: rest => do
    let (command, rest) ← command? n rest
    return (.negated command, rest)
  | n + 1, .word _ (some "if") :: rest => do
    let (command, rest) ← branch? n rest
    redirected? command rest
  | n + 1, .word _ (some "while") :: rest => do
    let (command, rest) ← loop? n true rest
    redirected? command rest
  | n + 1, .word _ (some "until") :: rest => do
    let (command, rest) ← loop? n false rest
    redirected? command rest
  | n + 1, .word _ (some "for") :: .word _ (some name) :: rest => do
    let (words, rest) := match rest with
      | .word _ (some "in") :: rest => wordList rest
      | rest => ([[⟨true, .parameter "@"⟩]], rest)
    let rest := match rest with
      | .operator ";" :: rest => rest
      | rest => rest
    let (body, rest) ← body? n (skipLines rest)
    redirected? (.each name words body) rest
  | n + 1, .word _ (some "\x7b") :: rest => do
    let (command, rest) ← list? n rest
    redirected? command (← expect? "\x7d" rest)
  | n + 1, .operator "(" :: rest => do
    match ← list? n rest with
    | (command, .operator ")" :: rest) => redirected? (.subshell command) rest
    | _ => none
  | _ + 1, tokens => (simple? ⟨[], [], []⟩ tokens).map fun (command, rest) => (.simple command, rest)

def branch? (n : Nat) (tokens : List Token) : Option (Command × List Token) :=
  match n with
  | 0 => none
  | n + 1 => do
    let (condition, rest) ← list? n tokens
    let (yes, rest) ← list? n (← expect? "then" rest)
    match rest with
    | .word _ (some "elif") :: rest =>
      let (no, rest) ← branch? n rest
      return (.branch condition yes no, rest)
    | .word _ (some "else") :: rest =>
      let (no, rest) ← list? n rest
      return (.branch condition yes no, ← expect? "fi" rest)
    | _ => return (.branch condition yes .nothing, ← expect? "fi" rest)

def loop? (n : Nat) (holds : Bool) (tokens : List Token) : Option (Command × List Token) :=
  match n with
  | 0 => none
  | n + 1 => do
    let (condition, rest) ← list? n tokens
    let (body, rest) ← body? n rest
    return (.loop holds condition body, rest)

def body? (n : Nat) (tokens : List Token) : Option (Command × List Token) :=
  match n with
  | 0 => none
  | n + 1 => do
    let (body, rest) ← list? n (← expect? "do" tokens)
    return (body, ← expect? "done" rest)

def redirected? (command : Command) (tokens : List Token) : Option (Command × List Token) := do
  match ← redirections? tokens with
  | ([], rest) => return (command, rest)
  | (redirections, rest) => return (.redirected command redirections, rest)

end

end Grammar

def Command.ofScript? (script : String) : Option Command := do
  let tokens ← Token.ofScript? script
  match ← Grammar.list? (8 * tokens.length + 8) tokens with
  | (command, []) => return command
  | _ => none

end LanguageRelay.Shell
