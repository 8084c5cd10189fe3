namespace LanguageRelay.Shell

inductive Content where
  | text (text : String)
  | parameter (name : String)
  | size (name : String)
  | fallback (name : String) (whenEmpty : Bool) (text : String)
  | arithmetic (expression : String)
  | output (script : String)
  | value (text : String)
deriving DecidableEq, Repr, Inhabited

-- A part of a word. What comes out of a quoted part is never split.
structure Part where
  quoted : Bool
  content : Content
deriving DecidableEq, Repr, Inhabited

abbrev Word := List Part

inductive Target where
  | read (file : Word)
  | write (file : Word) (append : Bool)
  | copy (descriptor : Nat)
  | close
deriving DecidableEq, Repr, Inhabited

structure Redirection where
  descriptor : Nat
  target : Target
deriving DecidableEq, Repr, Inhabited

structure Simple where
  assignments : List (String × Word)
  words : List Word
  redirections : List Redirection
deriving DecidableEq, Repr, Inhabited

inductive Command where
  | simple (command : Simple)
  | sequence (first second : Command)
  | both (first second : Command)
  | either (first second : Command)
  | negated (command : Command)
  | branch (condition yes no : Command)
  -- A loop that goes on as long as the condition holds, or as long as it does not.
  | loop (holds : Bool) (condition body : Command)
  | each (name : String) (words : List Word) (body : Command)
  | redirected (command : Command) (redirections : List Redirection)
  | subshell (command : Command)
  -- The shell does not wait for it.
  | background (command : Command)
  | nothing
deriving DecidableEq, Repr, Inhabited

end LanguageRelay.Shell
