import LanguageRelay.Proofs.Frame.Header
namespace LanguageRelay.Frame
open Text
variable {line : String} {lines : List String} {known final : Option Nat} {started : Bool}
  {name value : List Char} {length number : Nat} {content rest stream : Bytes} {body : String}

def lineBytes (line : String) : Bytes := utf8 line ++ [10]

-- A line that gives the length: before its first colon stands the name, in letters of any case, and
-- the value follows. Blanks around the line, the name and the value do not count.
def Gives (line : String) (value : List Char) : Prop :=
  ∃ name rest, trimChars line.toList = name ++ ':' :: rest ∧ ':' ∉ name ∧
    (trimChars name).map Char.toLower = lengthName ∧ trimChars rest = value

-- Every line that gives a length gives a number.
def AllNumbered (lines : List String) : Prop :=
  ∀ line ∈ lines, ∀ value, Gives line value → ∃ number, IsNumeral greatest64 value number

def NoneGives (lines : List String) : Prop := ∀ line ∈ lines, ∀ value, ¬ Gives line value

def LastGives (lines : List String) (length : Nat) : Prop :=
  ∃ before line after value, lines = before ++ line :: after ∧ Gives line value ∧
    IsNumeral greatest64 value length ∧ NoneGives after

-- The lines of a header before its blank line.
structure AreHeaders (lines : List String) (length : Nat) : Prop where
  single : ∀ line ∈ lines, '\n' ∉ line.toList
  present : ∀ line ∈ lines, trimChars line.toList ≠ []
  numbered : AllNumbered lines
  last : LastGives lines length

-- A block of header lines that a blank line ends.
def IsHeader (bytes : Bytes) (length : Nat) : Prop :=
  ∃ lines blank, bytes = (lines ++ [blank]).flatMap lineBytes ∧ AreHeaders lines length ∧
    '\n' ∉ blank.toList ∧ trimChars blank.toList = []

-- A stream that begins with a frame, and what follows the frame.
def IsFrame (stream : Bytes) (body : String) (rest : Bytes) : Prop :=
  ∃ header, stream = header ++ utf8 body ++ rest ∧ IsHeader header (byteLength body) ∧
    byteLength body ≤ maximumLength ∧ Json.isWellFormed body

theorem lowerAscii_eq (c : Char) : lowerAscii c = c.toLower := by
  by_cases upper : c.isUpper
  · have range : c.val ≥ 'A'.val ∧ c.val ≤ 'Z'.val := of_decide_eq_true upper
    have values : 65 ≤ c.toNat ∧ c.toNat ≤ 90 := by
      simpa [UInt32.le_iff_toNat_le] using range
    have valid : (c.toNat + 32).isValidChar := .inl (by omega)
    have sum : (c.val + ('a'.val - 'A'.val)).toNat = c.toNat + 32 := by
      have added : (c.val + ('a'.val - 'A'.val)).toNat = (c.toNat + 32) % 2 ^ 32 := UInt32.toNat_add _ _
      omega
    have lowered : c.toLower = _ := dif_pos range
    rw [lowerAscii, if_pos upper, lowered, Char.ofNat, dif_pos valid]
    exact Char.toNat_inj.1 sum.symm
  · have range : ¬ (c.val ≥ 'A'.val ∧ c.val ≤ 'Z'.val) :=
      of_decide_eq_false (Bool.eq_false_iff.2 upper)
    have kept : c.toLower = c := dif_neg range
    rw [lowerAscii, if_neg upper, kept]

theorem splitColon?_eq_some_iff {chars : List Char} :
    splitColon? chars = some (name, value) ↔ chars = name ++ ':' :: value ∧ ':' ∉ name := by
  constructor
  · intro split
    have whole := List.takeWhile_append_dropWhile (p := (· != ':')) (l := chars)
    rw [splitColon?] at split
    cases left : chars.dropWhile (· != ':') with
    | nil => rw [left] at split; cases split
    | cons c tail =>
      rw [left] at split whole
      cases split
      have colon : c = ':' := by
        have stops := List.head_dropWhile_not (p := (· != ':')) (l := chars) (by rw [left]; simp)
        simpa [left] using stops
      subst c
      exact ⟨whole.symm, fun member => by simpa using List.mem_takeWhile_imp member⟩
  · rintro ⟨rfl, absent⟩
    have all : ∀ c ∈ name, (c != ':') = true := by
      intro c member
      exact bne_iff_ne.2 fun same => absent (same ▸ member)
    simp [splitColon?, List.dropWhile_append_of_pos all, List.takeWhile_append_of_pos all]

theorem lengthOfLine_eq_some_iff {result : Option Nat} :
    lengthOfLine (trimChars line.toList) = some result ↔
      ∃ value, Gives line value ∧ unsigned? greatest64 (String.ofList value) = result := by
  have lower : ∀ chars : List Char, chars.map lowerAscii = chars.map Char.toLower :=
    fun chars => List.map_congr_left fun c _ => lowerAscii_eq c
  constructor
  · intro given
    rw [lengthOfLine] at given
    split at given
    · next name rest split =>
      obtain ⟨whole, absent⟩ := splitColon?_eq_some_iff.1 split
      split at given
      · next named =>
        rw [lower] at named
        exact ⟨_, ⟨name, rest, whole, absent, named, rfl⟩, Option.some.inj given⟩
      · cases given
    · cases given
  · rintro ⟨_, ⟨name, rest, whole, absent, named, rfl⟩, read⟩
    have split := splitColon?_eq_some_iff.2 ⟨whole, absent⟩
    rw [← lower] at named
    simp only [lengthOfLine, split, named, if_true, read]

theorem lengthOfLine_eq_none_iff :
    lengthOfLine (trimChars line.toList) = none ↔ ∀ value, ¬ Gives line value := by
  rw [Option.eq_none_iff_forall_ne_some]
  constructor
  · exact fun none value gives => none _ (lengthOfLine_eq_some_iff.2 ⟨value, gives, rfl⟩)
  · intro none result given
    obtain ⟨value, gives, -⟩ := lengthOfLine_eq_some_iff.1 given
    exact none value gives

-- The length known after some lines, if every line among them that gives one gives a number.
def lengthAfter : Option Nat → List String → Option (Option Nat)
  | known, [] => some known
  | known, line :: rest =>
    match lengthOfLine (trimChars line.toList) with
    | none => lengthAfter known rest
    | some none => none
    | some (some value) => lengthAfter (some value) rest

theorem not_lastGives (none : NoneGives lines) : ¬ LastGives lines length := by
  rintro ⟨before, line, after, value, rfl, gives, -⟩
  exact none line (by simp) value gives

theorem lastGives_cons : LastGives (line :: lines) length ↔ LastGives lines length ∨
    (∃ value, Gives line value ∧ IsNumeral greatest64 value length) ∧ NoneGives lines := by
  constructor
  · rintro ⟨before, found, after, value, whole, gives, number, none⟩
    cases before with
    | nil =>
      cases whole
      exact .inr ⟨⟨value, gives, number⟩, none⟩
    | cons first before =>
      cases whole
      exact .inl ⟨before, found, after, value, rfl, gives, number, none⟩
  · rintro (⟨before, found, after, value, rfl, gives, number, none⟩ | ⟨⟨value, gives, number⟩, none⟩)
    · exact ⟨line :: before, found, after, value, rfl, gives, number, none⟩
    · exact ⟨[], line, lines, value, rfl, gives, number, none⟩

theorem lengthAfter_eq_some_iff : lengthAfter known lines = some final ↔ AllNumbered lines ∧
    ((∃ length, final = some length ∧ LastGives lines length) ∨ final = known ∧ NoneGives lines) := by
  induction lines generalizing known with
  | nil =>
    have none : NoneGives [] := by simp [NoneGives]
    simp [lengthAfter, AllNumbered, none, not_lastGives none, eq_comm]
  | cons line rest ih =>
    rw [lengthAfter]
    rcases given : lengthOfLine (trimChars line.toList) with _ | _ | number
    · have silent := lengthOfLine_eq_none_iff.1 given
      simp [ih, AllNumbered, NoneGives, lastGives_cons, silent]
    · obtain ⟨value, gives, unread⟩ := lengthOfLine_eq_some_iff.1 given
      refine iff_of_false (by simp) fun ⟨numbered, _⟩ => ?_
      obtain ⟨number, numeral⟩ := numbered line List.mem_cons_self value gives
      rw [unsigned?_eq_some_iff.2 numeral] at unread
      cases unread
    · obtain ⟨value, gives, read⟩ := lengthOfLine_eq_some_iff.1 given
      have numeral := unsigned?_eq_some_iff.1 read
      -- A line gives one value, and the value is one number.
      have only : ∀ other, Gives line other → ∀ n, IsNumeral greatest64 other n → n = number := by
        intro other given' n numeral'
        have same := lengthOfLine_eq_some_iff.2 ⟨other, given', unsigned?_eq_some_iff.2 numeral'⟩
        rw [given] at same
        cases same
        rfl
      rw [ih]
      constructor
      · rintro ⟨numbered, settled⟩
        refine ⟨List.forall_mem_cons.2 ⟨fun other given' => ?_, numbered⟩, .inl ?_⟩
        · have same := lengthOfLine_eq_some_iff.2 ⟨other, given', rfl⟩
          rw [given, Option.some.injEq, eq_comm] at same
          exact ⟨number, unsigned?_eq_some_iff.1 same⟩
        · rcases settled with ⟨length, rfl, last⟩ | ⟨rfl, none⟩
          · exact ⟨length, rfl, lastGives_cons.2 (.inl last)⟩
          · exact ⟨number, rfl, lastGives_cons.2 (.inr ⟨⟨value, gives, numeral⟩, none⟩)⟩
      · rintro ⟨numbered, ⟨length, rfl, last⟩ | ⟨-, none⟩⟩
        · refine ⟨(List.forall_mem_cons.1 numbered).2, ?_⟩
          rcases lastGives_cons.1 last with last | ⟨⟨other, given', numeral'⟩, none⟩
          · exact .inl ⟨length, rfl, last⟩
          · exact .inr ⟨congrArg some (only other given' length numeral'), none⟩
        · exact absurd gives (none line List.mem_cons_self value)

theorem lengthAfter_of_areHeaders (headers : AreHeaders lines length) (known : Option Nat) :
    lengthAfter known lines = some (some length) :=
  lengthAfter_eq_some_iff.2 ⟨headers.numbered, .inl ⟨length, rfl, headers.last⟩⟩

theorem areHeaders_of_lengthAfter (single : ∀ line ∈ lines, '\n' ∉ line.toList)
    (present : ∀ line ∈ lines, trimChars line.toList ≠ [])
    (counted : lengthAfter none lines = some (some length)) : AreHeaders lines length := by
  obtain ⟨numbered, ⟨_, same, last⟩ | ⟨none, -⟩⟩ := lengthAfter_eq_some_iff.1 counted
  · cases same
    exact ⟨single, present, numbered, last⟩
  · cases none

def Progress.resume : Progress → Bytes → Progress × Bytes
  | .more next, bytes => next.feed bytes
  | .done outcome, bytes => (.done outcome, bytes)

theorem feed_lineBytes (single : '\n' ∉ line.toList) (rest : Bytes) :
    (State.headers [] known started).feed (lineBytes line ++ rest) =
      (endLine (lineBytes line) known).resume rest := by
  rw [lineBytes, List.append_assoc, List.singleton_append, feed_endLine (mt lineFeed_mem_utf8.1 single)]
  cases endLine (utf8 line ++ [10]) known <;> rfl

theorem endLine_lineBytes (line : String) (known : Option Nat) : endLine (lineBytes line) known =
    if trimChars line.toList = [] then endHeaders known
    else match lengthOfLine (trimChars line.toList) with
      | none => .more (.headers [] known true)
      | some none => .done (.failed .badLength)
      | some (some value) => .more (.headers [] (some value) true) := by
  have whole : lineBytes line = utf8 (line ++ "\n") := by rw [utf8_append]; rfl
  have trimmed : trimChars (line ++ "\n").toList = trimChars line.toList := by
    rw [String.toList_append]
    exact trimChars_append_blanks (by decide)
  rw [whole, endLine_utf8]
  exact trimmed ▸ rfl

theorem feed_lines (single : ∀ line ∈ lines, '\n' ∉ line.toList)
    (present : ∀ line ∈ lines, trimChars line.toList ≠ [])
    (counted : lengthAfter known lines = some final) (started : Bool) (rest : Bytes) :
    ∃ begun, (State.headers [] known started).feed (lines.flatMap lineBytes ++ rest) =
      (State.headers [] final begun).feed rest := by
  induction lines generalizing known started with
  | nil =>
    cases counted
    exact ⟨started, rfl⟩
  | cons line lines ih =>
    obtain ⟨one, single⟩ := List.forall_mem_cons.1 single
    obtain ⟨some, present⟩ := List.forall_mem_cons.1 present
    rw [List.flatMap_cons, List.append_assoc, feed_lineBytes one, endLine_lineBytes, if_neg some]
    rw [lengthAfter] at counted
    rcases given : lengthOfLine (trimChars line.toList) with _ | _ | value
    · rw [given] at counted
      exact ih single present counted true
    · rw [given] at counted
      cases counted
    · rw [given] at counted
      exact ih single present counted true

theorem resume_endHeaders (small : content.length ≤ maximumLength) (rest : Bytes) :
    (endHeaders (some content.length)).resume (content ++ rest) = (.done (finishBody content), rest) := by
  rw [endHeaders, if_neg (Nat.not_lt_of_le small)]
  by_cases empty : content = []
  · subst content
    rfl
  · rw [if_neg (mt List.length_eq_zero_iff.1 empty)]
    exact feed_whole_body empty rest

theorem feed_block {header : Bytes} (formed : IsHeader header content.length)
    (small : content.length ≤ maximumLength) (rest : Bytes) :
    State.start.feed (header ++ content ++ rest) = (.done (finishBody content), rest) := by
  obtain ⟨lines, blank, rfl, headers, single, empty⟩ := formed
  have counted := lengthAfter_of_areHeaders headers none
  obtain ⟨begun, fed⟩ := feed_lines headers.single headers.present counted false
    (lineBytes blank ++ (content ++ rest))
  rw [List.flatMap_append, List.flatMap_singleton, List.append_assoc, List.append_assoc, State.start, fed,
    feed_lineBytes single, endLine_lineBytes, if_pos empty, resume_endHeaders small]

theorem content_of_resume (framed : (endHeaders known).resume stream = (.done (.frame body), rest)) :
    known = some (byteLength body) ∧ byteLength body ≤ maximumLength ∧ stream = utf8 body ++ rest ∧
      Json.isWellFormed body := by
  cases known with
  | none => cases framed
  | some length =>
    have small : length ≤ maximumLength := by
      refine Nat.le_of_not_lt fun long => ?_
      rw [endHeaders, if_pos long] at framed
      cases framed
    have whole : length ≤ stream.length := by
      refine Nat.le_of_not_lt fun short => ?_
      rw [endHeaders, if_neg (Nat.not_lt_of_le small), if_neg (Nat.ne_of_gt (Nat.zero_lt_of_lt short)),
        Progress.resume, feed_body short] at framed
      cases framed
    obtain ⟨content, left, rfl, rfl⟩ : ∃ content left, stream = content ++ left ∧ content.length = length :=
      ⟨_, _, (List.take_append_drop length stream).symm, List.length_take_of_le whole⟩
    rw [resume_endHeaders small] at framed
    obtain ⟨done, rfl⟩ := Prod.mk.inj framed
    obtain ⟨rfl, formed⟩ := finishBody_eq_frame_iff.1 (Progress.done.inj done)
    rw [length_utf8] at small ⊢
    exact ⟨rfl, small, rfl, formed⟩

theorem lineBytes_of_decoded {bytes : Bytes} {text : String} (single : (10 : UInt8) ∉ bytes)
    (decoded : utf8Decode? (bytes ++ [10]) = some text) :
    ∃ line, bytes ++ [10] = lineBytes line ∧ '\n' ∉ line.toList := by
  have whole : utf8 (String.ofList text.toList) = bytes ++ 10 :: [] := by
    rw [String.ofList_toList]
    exact utf8_of_utf8Decode? decoded
  obtain ⟨chars, _, -, line, -⟩ := utf8_split (by decide) whole
  refine ⟨String.ofList chars, by rw [lineBytes, line], fun member => single ?_⟩
  rw [← line]
  exact lineFeed_mem_utf8.2 member

-- So a stream that a frame is read from begins with a line.
theorem exists_line_of_feed
    (framed : (State.headers [] known started).feed stream = (.done (.frame body), rest)) :
    ∃ line later, stream = lineBytes line ++ later ∧ '\n' ∉ line.toList := by
  by_cases ends : (10 : UInt8) ∈ stream
  · obtain ⟨bytes, later, rfl, single⟩ := List.eq_append_cons_of_mem ends
    cases decoded : utf8Decode? (bytes ++ [10]) with
    | none =>
      rw [feed_endLine single, endLine, decoded] at framed
      cases framed
    | some text =>
      obtain ⟨line, whole, one⟩ := lineBytes_of_decoded single decoded
      refine ⟨line, later, ?_, one⟩
      rw [← whole, List.append_assoc]
      rfl
  · rw [feed_line ends] at framed
    cases framed

-- Lines that head a body, read from a place on at which a length may be known already.
structure Heads (known : Option Nat) (lines : List String) (blank body : String) : Prop where
  single : ∀ line ∈ lines, '\n' ∉ line.toList
  present : ∀ line ∈ lines, trimChars line.toList ≠ []
  counted : lengthAfter known lines = some (some (byteLength body))
  one : '\n' ∉ blank.toList
  empty : trimChars blank.toList = []
  small : byteLength body ≤ maximumLength
  formed : Json.isWellFormed body

theorem Heads.cons {after : Option Nat} {blank : String} (heads : Heads after lines blank body)
    (one : '\n' ∉ line.toList) (present : trimChars line.toList ≠ [])
    (counts : lengthAfter known (line :: lines) = lengthAfter after lines) :
    Heads known (line :: lines) blank body :=
  ⟨List.forall_mem_cons.2 ⟨one, heads.single⟩, List.forall_mem_cons.2 ⟨present, heads.present⟩,
    counts.trans heads.counted, heads.one, heads.empty, heads.small, heads.formed⟩

theorem heads_of_feed
    (framed : (State.headers [] known started).feed stream = (.done (.frame body), rest)) :
    ∃ lines blank, stream = (lines ++ [blank]).flatMap lineBytes ++ (utf8 body ++ rest) ∧
      Heads known lines blank body := by
  -- Line by line: the stream behind the first line is shorter.
  induction size : stream.length using Nat.strongRecOn generalizing stream known started with
  | ind n ih =>
    obtain ⟨line, later, rfl, one⟩ := exists_line_of_feed framed
    have shorter : later.length < n := by
      rw [← size, lineBytes, List.length_append, List.length_append, List.length_singleton]
      omega
    rw [feed_lineBytes one, endLine_lineBytes] at framed
    by_cases blank : trimChars line.toList = []
    · rw [if_pos blank] at framed
      obtain ⟨rfl, small, rfl, formed⟩ := content_of_resume framed
      refine ⟨[], line, ?_, by simp, by simp, rfl, one, blank, small, formed⟩
      rw [List.nil_append, List.flatMap_singleton]
    · rw [if_neg blank] at framed
      have onward : ∀ after, (∀ lines, lengthAfter known (line :: lines) = lengthAfter after lines) →
          (State.headers [] after true).feed later = (.done (.frame body), rest) →
          ∃ lines blank, lineBytes line ++ later =
            (lines ++ [blank]).flatMap lineBytes ++ (utf8 body ++ rest) ∧
            Heads known lines blank body := by
        intro after counts framed
        obtain ⟨lines, last, rfl, heads⟩ := ih _ shorter framed rfl
        refine ⟨line :: lines, last, ?_, heads.cons one blank (counts lines)⟩
        rw [List.cons_append, List.flatMap_cons, List.append_assoc]
      rcases given : lengthOfLine (trimChars line.toList) with _ | _ | value
      · rw [given] at framed
        exact onward known (fun lines => by rw [lengthAfter, given]) framed
      · rw [given] at framed
        cases framed
      · rw [given] at framed
        exact onward (some value) (fun lines => by rw [lengthAfter, given]) framed

theorem feed_frame_iff :
    State.start.feed stream = (.done (.frame body), rest) ↔ IsFrame stream body rest := by
  constructor
  · intro framed
    obtain ⟨lines, blank, rfl, heads⟩ := heads_of_feed framed
    have headers := areHeaders_of_lengthAfter heads.single heads.present heads.counted
    exact ⟨_, (List.append_assoc _ _ _).symm, ⟨lines, blank, rfl, headers, heads.one, heads.empty⟩,
      heads.small, heads.formed⟩
  · rintro ⟨header, rfl, formed, small, json⟩
    rw [← length_utf8] at formed small
    rw [feed_block formed small, finishBody_eq_frame_iff.2 ⟨rfl, json⟩]

theorem endLine_ne_frame (bytes : Bytes) (known : Option Nat) (body : String) :
    endLine bytes known ≠ .done (.frame body) := by
  intro framed
  rw [endLine] at framed
  split at framed
  · cases framed
  · dsimp only at framed
    split at framed
    · rw [endHeaders.eq_def] at framed
      split at framed
      · cases framed
      · split at framed
        · cases framed
        · split at framed
          · rw [finishBody_nil] at framed
            cases framed
          · cases framed
    · split at framed <;> cases framed

theorem finish_ne_frame (state : State) (body : String) : state.finish ≠ .frame body := by
  cases state with
  | body missing taken => intro framed; cases framed
  | headers line length started =>
    cases line with
    | nil => cases started <;> (intro framed; cases framed)
    | cons byte line =>
      have ends := endLine_ne_frame (byte :: line).reverse length body
      rw [State.finish]
      · cases ended : endLine (byte :: line).reverse length with
        | done outcome =>
          rw [ended] at ends
          exact fun framed => ends (congrArg Progress.done framed)
        | more next => cases next <;> (intro framed; cases framed)
      · simp

theorem read_frame_iff {pieces : List Bytes} :
    (∃ left, read pieces = (.frame body, left) ∧ left.flatten = rest) ↔
      State.start.feed pieces.flatten = (.done (.frame body), rest) := by
  have whole := read_flatten .start pieces
  have same : (∃ left, read pieces = (.frame body, left) ∧ left.flatten = rest) ↔
      ((State.start.read pieces).1, (State.start.read pieces).2.flatten) = (.frame body, rest) := by
    constructor
    · rintro ⟨left, reads, rfl⟩
      rw [read] at reads
      rw [reads]
    · intro pair
      obtain ⟨outcome, left⟩ := Prod.mk.inj pair
      exact ⟨_, Prod.ext outcome rfl, left⟩
  rw [same, whole]
  cases State.start.feed pieces.flatten with
  | mk progress behind =>
    cases progress with
    | more next =>
      refine iff_of_false (fun framed => ?_) (fun framed => by cases framed)
      exact finish_ne_frame next body (congrArg Prod.fst framed)
    | done outcome => simp

-- What a read gives, however the stream is cut: a frame of the grammar with the bytes behind it left,
-- the end if there are no bytes, and an error in every other case.
theorem read_by_grammar (pieces : List Bytes) :
    (∀ body rest, (∃ left, read pieces = (.frame body, left) ∧ left.flatten = rest) ↔
      IsFrame pieces.flatten body rest) ∧
    ((read pieces).1 = .ended ↔ pieces.flatten = []) ∧
    ((∃ error, (read pieces).1 = .failed error) ↔
      pieces.flatten ≠ [] ∧ ∀ body rest, ¬ IsFrame pieces.flatten body rest) := by
  have frames : ∀ body rest, (∃ left, read pieces = (.frame body, left) ∧ left.flatten = rest) ↔
      IsFrame pieces.flatten body rest := fun _ _ => read_frame_iff.trans feed_frame_iff
  refine ⟨frames, read_eq_ended_iff, ?_⟩
  simp only [← frames, ne_eq, ← read_eq_ended_iff]
  cases reads : read pieces with
  | mk outcome left =>
    cases outcome with
    | frame body =>
      refine iff_of_false (by simp) fun none => ?_
      exact none.2 body left.flatten ⟨left, rfl, rfl⟩
    | ended => simp
    | failed error => simp

end LanguageRelay.Frame
