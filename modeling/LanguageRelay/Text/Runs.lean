import LanguageRelay.Text.Category
namespace LanguageRelay.Text

def inRuns (runs : List (Nat × Nat)) (code : Nat) : Bool :=
  runs.any fun r => r.1 ≤ code && code < r.2

-- The distances from one border of a set to the next, in hexadecimal.
def distances : Nat → List Char → List Nat
  | n, [] => [n]
  | n, c :: rest =>
    match hexValue? c with
    | some d => distances (n * 16 + d) rest
    | none => n :: distances 0 rest

def runsFrom (border : Nat) : List Nat → List (Nat × Nat)
  | gap :: length :: rest =>
    (border + gap, border + gap + length) :: runsFrom (border + gap + length) rest
  | _ => []

def runsOf (pieces : List String) : List (Nat × Nat) :=
  runsFrom 0 (distances 0 (pieces.flatMap String.toList))

end LanguageRelay.Text
