import LanguageRelay.Keyed
import LanguageRelay.Text.Blank
namespace LanguageRelay

inductive SpecError where
  | emptyKey
  | emptyArgv (key : String)
  | emptyProgram (key : String)
deriving DecidableEq, Repr

def SpecError.message : SpecError → String
  | .emptyKey => "launch spec key must not be empty"
  | .emptyArgv key => s!"launch spec '{key}' has an empty argv"
  | .emptyProgram key => s!"launch spec '{key}' has an empty program name"

structure LaunchSpec where
  key : String
  program : String
  args : List String
  languages : List String
  version : Nat
  displayName : Option String
  mimeTypes : List String
  environment : Keyed String
deriving DecidableEq, Repr, Inhabited

namespace LaunchSpec

def defaultVersion : Nat := 2

def argv (spec : LaunchSpec) : List String := spec.program :: spec.args

def new? (key : String) (argv : List String) : Except SpecError LaunchSpec :=
  if Text.isAllBlank key then .error .emptyKey
  else
    match argv with
    | [] => .error (.emptyArgv key)
    | program :: args =>
      if Text.isAllBlank program then .error (.emptyProgram key)
      else .ok ⟨key, program, args, [], defaultVersion, none, [], []⟩

def withoutRepeats : List String → List String → List String
  | kept, [] => kept
  | kept, x :: rest => withoutRepeats (if x ∈ kept then kept else kept ++ [x]) rest

def withLanguages (languages : List String) (spec : LaunchSpec) : LaunchSpec :=
  { spec with languages := withoutRepeats [] languages }

def withVersion (version : Nat) (spec : LaunchSpec) : LaunchSpec := { spec with version }

def withDisplayName (name : String) (spec : LaunchSpec) : LaunchSpec :=
  { spec with displayName := some name }

def withMimeTypes (mimeTypes : List String) (spec : LaunchSpec) : LaunchSpec :=
  { spec with mimeTypes }

def withEnvironment (environment : Keyed String) (spec : LaunchSpec) : LaunchSpec :=
  { spec with environment }

end LaunchSpec
end LanguageRelay
