import LanguageRelay.Proofs.Text.Slices
import LanguageRelay.Settings.Expansion
namespace LanguageRelay

namespace Settings
open Text

def opening : List Char := ['$', '\x7b']

-- A reference and the literal before it.
structure Reference where
  before : List Char
  name : List Char
deriving DecidableEq

structure Reading where
  references : List Reference
  last : List Char
  unclosed : List Char
deriving DecidableEq

namespace Reading

def text (reading : Reading) : List Char :=
  reading.references.flatMap (fun e => e.before ++ (opening ++ (e.name ++ ['\x7d']))) ++
    (reading.last ++ reading.unclosed)

structure IsLeftmost (reading : Reading) : Prop where
  before : ∀ e ∈ reading.references, ¬ opening <:+: e.before
  name : ∀ e ∈ reading.references, '\x7d' ∉ e.name
  last : ¬ opening <:+: reading.last
  unclosed : reading.unclosed = [] ∨ ∃ tail, reading.unclosed = opening ++ tail ∧ '\x7d' ∉ tail

def filled (value : List Char → List Char) (reading : Reading) : List Char :=
  reading.references.flatMap (fun e => e.before ++ value e.name) ++ (reading.last ++ reading.unclosed)

end Reading

-- What a name stands for in an environment: nothing if it is empty or no variable of that name is set.
def standsFor (environment : String → Option String) (name : List Char) : List Char :=
  if name = [] then [] else ((environment (String.ofList name)).map String.toList).getD []

-- The place of the first `${`, in bytes.
def placeOfOpening? : List Char → Option Nat
  | [] => none
  | c :: rest =>
    if opening.isPrefixOf (c :: rest) then some 0
    else (placeOfOpening? rest).map (· + c.utf8Size)

-- The expansion in slices: `found` has been put together, `rest` is still to be read. There is no result
-- for a cut that `slice?` refuses, nor when there are no rounds left.
def expandSlices? (value : List Char → List Char) : Nat → String → String → Option String
  | 0, _, _ => none
  | rounds + 1, found, rest =>
    match placeOfOpening? rest.toList with
    | none => some (found ++ rest)
    | some start => do
      let literal ← slice? rest 0 start
      let after ← slice? rest (start + 2) (byteLength rest)
      match placeOf? '\x7d' after.toList with
      | none => return found ++ literal ++ (← slice? rest start (byteLength rest))
      | some stop =>
        let name ← slice? after 0 stop
        let behind ← slice? after (stop + 1) (byteLength after)
        expandSlices? value rounds (found ++ literal ++ String.ofList (value name.toList)) behind

variable {value : List Char → List Char} {literal name tail rest chars first second front back : List Char}
  {reading : Reading}

-- What may follow a literal.
def Opens (tail : List Char) : Prop := tail = [] ∨ opening <+: tail

theorem opens_opening (rest : List Char) : Opens (opening ++ rest) := .inr (List.prefix_append _ _)

theorem Reading.IsLeftmost.opens (leftmost : reading.IsLeftmost) : Opens reading.unclosed := by
  rcases leftmost.unclosed with none | ⟨tail, starts, -⟩
  · exact .inl none
  · exact .inr ⟨tail, starts.symm⟩

theorem not_prefix_literal {c : Char} (plain : ¬ opening <:+: c :: literal) (opens : Opens tail) :
    ¬ opening <+: c :: (literal ++ tail) := by
  intro begins
  cases literal with
  | cons d literal =>
    refine plain (List.IsPrefix.isInfix ?_)
    simpa only [opening, List.cons_append, List.cons_prefix_cons, List.nil_prefix, and_true] using begins
  | nil =>
    rcases opens with rfl | ⟨rest, rfl⟩
    · simp [opening] at begins
    · simp [opening] at begins

theorem not_infix_tail {c : Char} (plain : ¬ opening <:+: c :: literal) : ¬ opening <:+: literal :=
  fun inside => plain (List.infix_cons inside)

theorem exists_literal (chars : List Char) :
    ∃ literal tail, chars = literal ++ tail ∧ ¬ opening <:+: literal ∧ Opens tail := by
  induction chars with
  | nil => exact ⟨[], [], rfl, by simp [opening], .inl rfl⟩
  | cons c chars ih =>
    by_cases begins : opening <+: c :: chars
    · exact ⟨[], c :: chars, rfl, by simp [opening], .inr begins⟩
    · obtain ⟨literal, tail, rfl, plain, opens⟩ := ih
      refine ⟨c :: literal, tail, rfl, fun inside => ?_, opens⟩
      rcases List.infix_cons_iff.1 inside with here | later
      · exact begins (here.trans (List.prefix_append (c :: literal) tail))
      · exact plain later

theorem eq_nil_of_opens (plain : ¬ opening <:+: literal) (opens : Opens (literal ++ tail))
    (opens' : Opens tail) : literal = [] := by
  cases literal with
  | nil => rfl
  | cons c literal =>
    rcases opens with empty | begins
    · cases empty
    · exact absurd begins (not_prefix_literal plain opens')

theorem literal_unique (plain : ¬ opening <:+: first) (plain' : ¬ opening <:+: second)
    (opens : Opens front) (opens' : Opens back) (same : first ++ front = second ++ back) :
    first = second ∧ front = back := by
  rcases List.append_eq_append_iff.1 same with ⟨more, rfl, rfl⟩ | ⟨more, rfl, rfl⟩
  · have none := eq_nil_of_opens (fun inside => plain' (inside.trans (List.suffix_append _ _).isInfix))
      opens opens'
    simp [none]
  · have none := eq_nil_of_opens (fun inside => plain (inside.trans (List.suffix_append _ _).isInfix))
      opens' opens
    simp [none]

theorem closing?_append (single : '\x7d' ∉ name) (rest : List Char) :
    closing? (name ++ '\x7d' :: rest) = some (name, rest) := by
  induction name with
  | nil => exact if_pos rfl
  | cons c name ih =>
    rw [List.mem_cons, not_or] at single
    rw [List.cons_append, closing?, if_neg (Ne.symm single.1), ih single.2, Option.map_some]

theorem closing?_of_not_mem (absent : '\x7d' ∉ chars) : closing? chars = none := by
  induction chars with
  | nil => rfl
  | cons c chars ih =>
    rw [List.mem_cons, not_or] at absent
    rw [closing?, if_neg (Ne.symm absent.1), ih absent.2, Option.map_none]

theorem name_unique {other : List Char} (single : '\x7d' ∉ name) (single' : '\x7d' ∉ other)
    (same : name ++ '\x7d' :: front = other ++ '\x7d' :: back) : name = other ∧ front = back := by
  have found := congrArg closing? same
  rw [closing?_append single, closing?_append single'] at found
  simpa using found

namespace Reading

def behind (e : Reference) (reading : Reading) : Reading :=
  { reading with references := e :: reading.references }

theorem text_behind (e : Reference) (reading : Reading) :
    (reading.behind e).text = e.before ++ (opening ++ (e.name ++ '\x7d' :: reading.text)) := by
  simp [behind, text]

theorem filled_behind (e : Reference) (reading : Reading) :
    (reading.behind e).filled value = e.before ++ (value e.name ++ reading.filled value) := by
  simp [behind, filled]

theorem isLeftmost_behind {e : Reference} : (reading.behind e).IsLeftmost ↔
    ¬ opening <:+: e.before ∧ '\x7d' ∉ e.name ∧ reading.IsLeftmost := by
  constructor
  · rintro ⟨before, name, last, unclosed⟩
    exact ⟨before e List.mem_cons_self, name e List.mem_cons_self,
      fun e member => before e (List.mem_cons_of_mem _ member),
      fun e member => name e (List.mem_cons_of_mem _ member), last, unclosed⟩
  · rintro ⟨plain, single, before, name, last, unclosed⟩
    exact ⟨List.forall_mem_cons.2 ⟨plain, before⟩, List.forall_mem_cons.2 ⟨single, name⟩, last, unclosed⟩

-- A reading by its references, from the first to the last.
theorem induction {motive : Reading → Prop} (ends : ∀ last unclosed, motive ⟨[], last, unclosed⟩)
    (goesOn : ∀ e reading, motive reading → motive (reading.behind e)) (reading : Reading) :
    motive reading := by
  obtain ⟨references, last, unclosed⟩ := reading
  induction references with
  | nil => exact ends last unclosed
  | cons e references ih => exact goesOn e ⟨references, last, unclosed⟩ ih

end Reading

theorem exists_reading (chars : List Char) : ∃ reading : Reading, reading.IsLeftmost ∧ reading.text = chars := by
  induction size : chars.length using Nat.strongRecOn generalizing chars with
  | ind n ih =>
    subst size
    obtain ⟨literal, tail, rfl, plain, opens⟩ := exists_literal chars
    have alone (unclosed : tail = [] ∨ ∃ rest, tail = opening ++ rest ∧ '\x7d' ∉ rest) :
        ∃ reading : Reading, reading.IsLeftmost ∧ reading.text = literal ++ tail :=
      ⟨⟨[], literal, tail⟩, ⟨nofun, nofun, plain, unclosed⟩, rfl⟩
    rcases opens with rfl | ⟨rest, rfl⟩
    · exact alone (.inl rfl)
    · by_cases closed : '\x7d' ∈ rest
      · obtain ⟨name, after, rfl, single⟩ := List.eq_append_cons_of_mem closed
        obtain ⟨reading, leftmost, rfl⟩ := ih after.length (by simp [opening]; omega) after rfl
        exact ⟨reading.behind ⟨literal, name⟩, Reading.isLeftmost_behind.2 ⟨plain, single, leftmost⟩,
          Reading.text_behind _ _⟩
      · exact alone (.inr ⟨rest, rfl, closed⟩)

theorem not_unclosed (single : '\x7d' ∉ chars) : name ++ '\x7d' :: rest ≠ chars := by
  rintro rfl
  simp at single

theorem Reading.IsLeftmost.unique {other : Reading} (leftmost : reading.IsLeftmost)
    (leftmost' : other.IsLeftmost) (same : reading.text = other.text) : reading = other := by
  have ends {last unclosed : List Char} {e : Reference} {more : Reading}
      (leftmost : Reading.IsLeftmost ⟨[], last, unclosed⟩) (leftmost' : (more.behind e).IsLeftmost) :
      Reading.text ⟨[], last, unclosed⟩ ≠ (more.behind e).text := by
    intro same
    rw [text_behind] at same
    obtain ⟨plain, single, -⟩ := isLeftmost_behind.1 leftmost'
    obtain ⟨-, starts⟩ := literal_unique leftmost.last plain leftmost.opens (opens_opening _) same
    rcases leftmost.unclosed with none | ⟨tail, own, absent⟩
    · have empty : [] = opening ++ (e.name ++ '\x7d' :: more.text) := none.symm.trans starts
      cases empty
    · exact not_unclosed absent (List.append_cancel_left (starts.symm.trans own))
  induction reading using Reading.induction generalizing other with
  | ends last unclosed =>
    induction other using Reading.induction with
    | ends last' unclosed' =>
      obtain ⟨rfl, rfl⟩ := literal_unique leftmost.last leftmost'.last leftmost.opens leftmost'.opens same
      rfl
    | goesOn e more _ => exact absurd same (ends leftmost leftmost')
  | goesOn e more ih =>
    induction other using Reading.induction with
    | ends last' unclosed' => exact absurd same.symm (ends leftmost' leftmost)
    | goesOn e' more' _ =>
      obtain ⟨plain, single, later⟩ := isLeftmost_behind.1 leftmost
      obtain ⟨plain', single', later'⟩ := isLeftmost_behind.1 leftmost'
      rw [text_behind, text_behind] at same
      obtain ⟨before, after⟩ :=
        literal_unique plain plain' (opens_opening _) (opens_opening _) same
      obtain ⟨name, behind⟩ := name_unique single single' (List.append_cancel_left after)
      obtain ⟨_, _⟩ := e
      obtain ⟨_, _⟩ := e'
      cases before
      cases name
      rw [ih later later' behind]

theorem expandChars_cons {c : Char} (other : ¬ opening <+: c :: rest) :
    expandChars value (c :: rest) = c :: expandChars value rest := by
  rw [expandChars]
  rintro rest rfl rfl
  exact other ⟨rest, rfl⟩

theorem expandChars_literal (plain : ¬ opening <:+: literal) (opens : Opens tail) :
    expandChars value (literal ++ tail) = literal ++ expandChars value tail := by
  induction literal with
  | nil => rfl
  | cons c literal ih =>
    rw [List.cons_append, expandChars_cons (not_prefix_literal plain opens), ih (not_infix_tail plain),
      List.cons_append]

theorem expandChars_reference (single : '\x7d' ∉ name) (rest : List Char) :
    expandChars value (opening ++ (name ++ '\x7d' :: rest)) = value name ++ expandChars value rest := by
  rw [opening, List.cons_append, List.cons_append, List.nil_append, expandChars]
  split
  · rename_i none
    rw [closing?_append single] at none
    cases none
  · rename_i found
    rw [closing?_append single] at found
    cases found
    rfl

theorem expandChars_unclosed (absent : '\x7d' ∉ tail) :
    expandChars value (opening ++ tail) = opening ++ tail := by
  rw [opening, List.cons_append, List.cons_append, List.nil_append, expandChars]
  split
  · rfl
  · rename_i found
    rw [closing?_of_not_mem absent] at found
    cases found

theorem expandChars_text (leftmost : reading.IsLeftmost) :
    expandChars value reading.text = reading.filled value := by
  induction reading using Reading.induction with
  | ends last unclosed =>
    have kept : expandChars value unclosed = unclosed := by
      rcases leftmost.unclosed with none | ⟨tail, starts, absent⟩
      · cases none; exact expandChars.eq_1 value
      · cases starts; exact expandChars_unclosed absent
    show expandChars value (last ++ unclosed) = last ++ unclosed
    rw [expandChars_literal leftmost.last leftmost.opens, kept]
  | goesOn e reading ih =>
    obtain ⟨plain, single, later⟩ := Reading.isLeftmost_behind.1 leftmost
    rw [Reading.text_behind, Reading.filled_behind, expandChars_literal plain (opens_opening _),
      expandChars_reference single, ih later]

theorem valueOf_eq_standsFor (host : Host) : valueOf host = standsFor host.valueOf? := by
  funext name
  unfold valueOf standsFor
  split
  · rename_i none
    cases none
    rfl
  · cases host.valueOf? (String.ofList name) <;> rfl

theorem placeOfOpening?_literal (plain : ¬ opening <:+: literal) (rest : List Char) :
    placeOfOpening? (literal ++ (opening ++ rest)) = some (size literal) := by
  induction literal with
  | nil => rfl
  | cons c literal ih =>
    have other := not_prefix_literal plain (opens_opening rest)
    rw [List.cons_append, placeOfOpening?, if_neg (mt List.isPrefixOf_iff_prefix.1 other),
      ih (not_infix_tail plain), Option.map_some, size_cons, Nat.add_comm]

theorem placeOfOpening?_of_plain (plain : ¬ opening <:+: literal) : placeOfOpening? literal = none := by
  induction literal with
  | nil => rfl
  | cons c literal ih =>
    have other : ¬ opening <+: c :: literal := fun begins => plain begins.isInfix
    rw [placeOfOpening?, if_neg (mt List.isPrefixOf_iff_prefix.1 other), ih (not_infix_tail plain),
      Option.map_none]

theorem slice?_front {text : String} (parts : text.toList = front ++ back) :
    slice? text 0 (size front) = some (String.ofList front) := by
  have whole : text.toList = [] ++ (front ++ back) := parts
  have cut := slice?_middle whole
  rwa [size_nil, Nat.zero_add] at cut

theorem slices_opening {text : String} (parts : text.toList = literal ++ (opening ++ tail)) :
    slice? text 0 (size literal) = some (String.ofList literal) ∧
    slice? text (size literal) (byteLength text) = some (String.ofList (opening ++ tail)) ∧
    slice? text (size literal + 2) (byteLength text) = some (String.ofList tail) := by
  have regrouped : text.toList = (literal ++ opening) ++ tail := by rw [parts, List.append_assoc]
  have two : size literal + 2 = size (literal ++ opening) := by rw [size_append]; rfl
  exact ⟨slice?_front parts, slice?_rest parts, two ▸ slice?_rest regrouped⟩

theorem slices_closing {text : String} (parts : text.toList = name ++ '\x7d' :: rest) :
    slice? text 0 (size name) = some (String.ofList name) ∧
    slice? text (size name + 1) (byteLength text) = some (String.ofList rest) := by
  have regrouped : text.toList = (name ++ ['\x7d']) ++ rest := by simp [parts]
  have one : size name + 1 = size (name ++ ['\x7d']) := by rw [size_append]; rfl
  exact ⟨slice?_front parts, one ▸ slice?_rest regrouped⟩

theorem expandSlices?_text {text : String} {rounds : Nat} (leftmost : reading.IsLeftmost)
    (parts : text.toList = reading.text) (enough : reading.references.length < rounds) (found : String) :
    expandSlices? value rounds found text = some (found ++ String.ofList (reading.filled value)) := by
  induction reading using Reading.induction generalizing text rounds found with
  | ends last unclosed =>
    obtain ⟨rounds, rfl⟩ := Nat.exists_eq_succ_of_ne_zero (Nat.ne_of_gt enough)
    have parts : text.toList = last ++ unclosed := parts
    have filled : String.ofList (Reading.filled value ⟨[], last, unclosed⟩) = text := by
      rw [← String.ofList_toList (s := text), parts]
      rfl
    rw [expandSlices?, filled]
    rcases leftmost.unclosed with none | ⟨tail, starts, absent⟩
    · have whole : text.toList = last := by rw [parts, show unclosed = [] from none, List.append_nil]
      rw [whole, placeOfOpening?_of_plain leftmost.last]
    · have whole : text.toList = last ++ (opening ++ tail) := by rw [parts, ← starts]
      obtain ⟨before, kept, after⟩ := slices_opening whole
      rw [whole, placeOfOpening?_literal leftmost.last]
      simp only [before, after, kept, Option.bind_eq_bind, Option.bind_some, String.toList_ofList,
        placeOf?_of_not_mem absent]
      rw [String.append_assoc, ← String.ofList_append, ← whole, String.ofList_toList]
      rfl
  | goesOn e reading ih =>
    obtain ⟨rounds, rfl⟩ := Nat.exists_eq_succ_of_ne_zero (Nat.ne_of_gt (Nat.zero_lt_of_lt enough))
    obtain ⟨plain, single, later⟩ := Reading.isLeftmost_behind.1 leftmost
    rw [Reading.text_behind] at parts
    obtain ⟨before, -, after⟩ := slices_opening parts
    obtain ⟨name, behind⟩ := slices_closing (String.toList_ofList (l := e.name ++ '\x7d' :: reading.text))
    have onward := ih later String.toList_ofList (Nat.lt_of_succ_lt_succ enough)
    rw [expandSlices?, parts, placeOfOpening?_literal plain]
    simp only [before, after, name, behind, onward, Option.bind_eq_bind, Option.bind_some,
      String.toList_ofList, placeOf?_append single]
    simp only [Reading.filled_behind, String.ofList_append, String.append_assoc]

end Settings

namespace Datum

def parts : Datum → List Datum
  | .list items => items
  | .table pairs => pairs.map Prod.snd
  | _ => []

-- What stands at a place: the numbers of the parts on the way there.
def at? : Datum → List Nat → Option Datum
  | d, [] => some d
  | d, number :: place => d.parts[number]?.bind (at? · place)

inductive Face where
  | text (s : String)
  | list (count : Nat)
  | table (keys : List String)
  | plain (d : Datum)

def face : Datum → Face
  | .text s => .text s
  | .list items => .list items.length
  | .table pairs => .table (pairs.map Prod.fst)
  | d => .plain d

def Face.mapText (f : String → String) : Face → Face
  | .text s => .text (f s)
  | face => face

end Datum

namespace Settings
variable {f : String → String}

theorem mapItems_eq (items : List Datum) : mapItems f items = items.map (mapTexts f) := by
  induction items with
  | nil => rfl
  | cons d rest ih => rw [mapItems, ih, List.map_cons]

theorem mapPairs_eq (pairs : List (String × Datum)) :
    mapPairs f pairs = pairs.map fun e => (e.1, mapTexts f e.2) := by
  induction pairs with
  | nil => rfl
  | cons e rest ih =>
    obtain ⟨key, d⟩ := e
    rw [mapPairs, ih, List.map_cons]

theorem parts_mapTexts (d : Datum) : (mapTexts f d).parts = d.parts.map (mapTexts f) := by
  cases d with
  | list items => exact mapItems_eq items
  | table pairs => simp [mapTexts, Datum.parts, mapPairs_eq]
  | _ => rfl

theorem face_mapTexts (d : Datum) : (mapTexts f d).face = d.face.mapText f := by
  cases d with
  | list items => simp [mapTexts, Datum.face, Datum.Face.mapText, mapItems_eq]
  | table pairs => simp [mapTexts, Datum.face, Datum.Face.mapText, mapPairs_eq, Function.comp_def]
  | _ => rfl

theorem at?_mapTexts (d : Datum) (place : List Nat) :
    (mapTexts f d).at? place = (d.at? place).map (mapTexts f) := by
  induction place generalizing d with
  | nil => rfl
  | cons number place ih =>
    rw [Datum.at?, Datum.at?, parts_mapTexts, List.getElem?_map]
    cases d.parts[number]? with
    | none => rfl
    | some part => exact ih part

-- Every text has one leftmost reading, and its expansion is that reading with the values of the variables in
-- the place of the references, made with cuts between characters in a round for each reference and one
-- more. In a tree each text at any depth is expanded; what else stands anywhere stays, and nothing comes or
-- goes.
theorem single_substitution (host : Host) (text : String) (tree : Datum) :
    (∃ reading : Reading, reading.IsLeftmost ∧ reading.text = text.toList) ∧
    (∀ reading : Reading, reading.IsLeftmost → reading.text = text.toList →
      (∀ other : Reading, other.IsLeftmost → other.text = text.toList → other = reading) ∧
      (expand host text).toList = reading.filled (standsFor host.valueOf?) ∧
      ∀ rounds, reading.references.length < rounds →
        expandSlices? (standsFor host.valueOf?) rounds "" text = some (expand host text)) ∧
    ∀ place, ((mapTexts (expand host) tree).at? place).map Datum.face =
      ((tree.at? place).map Datum.face).map (Datum.Face.mapText (expand host)) := by
  refine ⟨exists_reading _, fun reading leftmost parts => ⟨fun other leftmost' parts' => ?_, ?_,
    fun rounds enough => ?_⟩, fun place => ?_⟩
  · exact leftmost'.unique leftmost (parts'.trans parts.symm)
  · rw [expand, String.toList_ofList, ← parts, expandChars_text leftmost, valueOf_eq_standsFor]
  · rw [expandSlices?_text leftmost parts.symm enough, String.empty_append, expand, ← parts,
      expandChars_text leftmost, valueOf_eq_standsFor]
  · rw [at?_mapTexts, Option.map_map, Option.map_map]
    exact congrArg (Option.map · (tree.at? place)) (funext face_mapTexts)

-- A dollar sign before a reference, a value that looks like one, a reference without a name, one to a
-- variable that is not set, and one that is not closed.
def motley : Reading :=
  ⟨[⟨['a', '$'], ['A']⟩, ⟨['\x7b'], []⟩, ⟨[], ['Ü']⟩], ['é', '😀'], ['$', '\x7b', '$', '\x7b', 'A']⟩

def motleyHost : Host := { (default : Host) with environment := [("A", "$\x7bB\x7d\x7d"), ("B", "x")] }

theorem single_substitution_motley :
    motley.IsLeftmost ∧ motley.text = "a$$\x7bA\x7d\x7b$\x7b\x7d$\x7bÜ\x7dé😀$\x7b$\x7bA".toList ∧
    expand motleyHost "a$$\x7bA\x7d\x7b$\x7b\x7d$\x7bÜ\x7dé😀$\x7b$\x7bA" =
      "a$$\x7bB\x7d\x7d\x7bé😀$\x7b$\x7bA" := by
  have leftmost : motley.IsLeftmost := ⟨by decide, by decide, by decide, .inr ⟨['$', '\x7b', 'A'], rfl, by decide⟩⟩
  have parts : motley.text = "a$$\x7bA\x7d\x7b$\x7b\x7d$\x7bÜ\x7dé😀$\x7b$\x7bA".toList := by decide
  obtain ⟨-, made, -⟩ := (single_substitution motleyHost _ .null).2.1 motley leftmost parts
  refine ⟨leftmost, parts, String.toList_inj.1 (made.trans ?_)⟩
  decide

end Settings
end LanguageRelay
