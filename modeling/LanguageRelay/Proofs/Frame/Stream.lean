import LanguageRelay.Frame.Reader
namespace LanguageRelay.Frame
open Text
variable {state next : State} {outcome : Outcome} {bytes rest : Bytes} {pieces others : List Bytes}

theorem feed_append (state : State) (first second : Bytes) :
    state.feed (first ++ second) = match state.feed first with
      | (.more next, _) => next.feed second
      | (.done outcome, rest) => (.done outcome, rest ++ second) := by
  induction first generalizing state with
  | nil => rfl
  | cons byte first ih =>
    simp only [List.cons_append, State.feed]
    cases state.push byte with
    | more next => exact ih next
    | done outcome => rfl

theorem feed_of_more {first second : Bytes} (more : state.feed first = (.more next, rest)) :
    state.feed (first ++ second) = next.feed second := by
  rw [feed_append, more]

-- A stream whose next frames have the bodies, up to the bytes that are left.
inductive Yields : Bytes → List String → Bytes → Prop where
  | none {stream} : Yields stream [] stream
  | frame {stream later left body bodies} : State.start.feed stream = (.done (.frame body), later) →
      Yields later bodies left → Yields stream (body :: bodies) left

theorem Yields.append {left : Bytes} {bodies : List String} (yields : Yields bytes bodies left)
    (more : Bytes) : Yields (bytes ++ more) bodies (left ++ more) := by
  induction yields with
  | none => exact .none
  | frame read _ ih =>
    refine .frame ?_ ih
    rw [feed_append, read]

theorem Yields.concat {left : Bytes} {body : String} {bodies : List String}
    (yields : Yields bytes bodies left)
    (read : State.start.feed left = (.done (.frame body), rest)) :
    Yields bytes (bodies ++ [body]) rest := by
  induction yields with
  | none => exact .frame read .none
  | frame first _ ih => exact .frame first (ih read)

theorem read_flatten (state : State) (pieces : List Bytes) :
    ((state.read pieces).1, (state.read pieces).2.flatten) = match state.feed pieces.flatten with
      | (.more next, _) => (next.finish, [])
      | (.done outcome, rest) => (outcome, rest) := by
  induction pieces generalizing state with
  | nil => rfl
  | cons piece pieces ih =>
    rw [List.flatten_cons, feed_append, State.read]
    cases fed : state.feed piece with
    | mk progress rest =>
      cases progress with
      | more next => exact ih next
      | done outcome => rfl

theorem read_congr (same : pieces.flatten = others.flatten) :
    (read pieces).1 = (read others).1 ∧ (read pieces).2.flatten = (read others).2.flatten := by
  have first := read_flatten .start pieces
  have second := read_flatten .start others
  rw [same, ← second, Prod.mk.injEq] at first
  exact first

theorem readAll_congr {pastErrors : Bool} {limit : Nat} (same : pieces.flatten = others.flatten) :
    readAll pastErrors limit pieces = readAll pastErrors limit others := by
  induction limit generalizing pieces others with
  | zero => rfl
  | succ limit ih =>
    obtain ⟨outcome, left⟩ := read_congr same
    simp only [readAll, outcome, ih left]

theorem readAll_of_done {pastErrors : Bool} {limit : Nat}
    (decided : State.start.feed pieces.flatten = (.done outcome, rest)) :
    readAll pastErrors (limit + 1) pieces =
      if goesOn pastErrors outcome then outcome :: readAll pastErrors limit [rest] else [outcome] := by
  have whole := read_flatten .start pieces
  rw [decided] at whole
  have first : (read pieces).1 = outcome := congrArg Prod.fst whole
  have left : (read pieces).2.flatten = [rest].flatten := by
    rw [List.flatten_singleton]; exact congrArg Prod.snd whole
  simp only [readAll, first, readAll_congr left]

theorem readAll_of_more {pastErrors : Bool} {limit : Nat}
    (undecided : State.start.feed pieces.flatten = (.more next, [])) :
    readAll pastErrors (limit + 1) pieces =
      if goesOn pastErrors next.finish then next.finish :: readAll pastErrors limit []
      else [next.finish] := by
  have whole := read_flatten .start pieces
  rw [undecided] at whole
  have first : (read pieces).1 = next.finish := congrArg Prod.fst whole
  have left : (read pieces).2.flatten = ([] : List Bytes).flatten := congrArg Prod.snd whole
  simp only [readAll, first, readAll_congr left]

theorem readAll_nil (pastErrors : Bool) (limit : Nat) :
    readAll pastErrors limit [] = [Outcome.ended].take limit := by
  cases limit with
  | zero => rfl
  | succ limit => cases pastErrors <;> simp [readAll, read, State.read, State.start, State.finish, goesOn]

theorem feed_line {length : Option Nat} {started : Bool} {taken line : Bytes}
    (inside : (10 : UInt8) ∉ line) :
    (State.headers taken length started).feed line =
      (.more (.headers (line.reverse ++ taken) length started), []) := by
  induction line generalizing taken with
  | nil => rfl
  | cons byte line ih =>
    rw [List.mem_cons, not_or] at inside
    rw [State.feed, State.push, if_neg (Ne.symm inside.1), List.reverse_cons, List.append_assoc]
    exact ih inside.2

theorem feed_endLine {length : Option Nat} {started : Bool} {line : Bytes}
    (inside : (10 : UInt8) ∉ line) (rest : Bytes) :
    (State.headers [] length started).feed (line ++ 10 :: rest) =
      match endLine (line ++ [10]) length with
        | .more next => next.feed rest
        | .done outcome => (.done outcome, rest) := by
  have whole : ((10 : UInt8) :: (line.reverse ++ [])).reverse = line ++ [10] := by simp
  have ends : (State.headers (line.reverse ++ []) length started).push 10 =
      endLine (line ++ [10]) length := by
    rw [State.push, if_pos rfl, whole]
  rw [feed_of_more (feed_line inside), State.feed]
  cases ended : endLine (line ++ [10]) length with
  | more next => rw [ends, ended]
  | done outcome => rw [ends, ended]

theorem feed_body {missing : Nat} {taken : Bytes} (short : bytes.length < missing) :
    (State.body missing taken).feed bytes =
      (.more (.body (missing - bytes.length) (bytes.reverse ++ taken)), []) := by
  induction bytes generalizing missing taken with
  | nil => rfl
  | cons byte bytes ih =>
    rw [List.length_cons] at short
    rw [State.feed, State.push, if_neg (by omega)]
    have later : (State.body (missing - 1) (byte :: taken)).feed bytes =
        (.more (.body (missing - 1 - bytes.length) (bytes.reverse ++ byte :: taken)), []) :=
      ih (by omega)
    rw [List.length_cons, List.reverse_cons, List.append_assoc,
      Nat.add_comm, Nat.sub_add_eq]
    exact later

theorem feed_whole_body (present : bytes ≠ []) (rest : Bytes) :
    (State.body bytes.length []).feed (bytes ++ rest) = (.done (finishBody bytes), rest) := by
  obtain ⟨front, last, rfl⟩ : ∃ front last, bytes = front ++ [last] :=
    ⟨_, _, (List.dropLast_concat_getLast present).symm⟩
  rw [List.append_assoc, feed_of_more (feed_body (by simp)), List.singleton_append, State.feed,
    State.push, if_pos (by simp)]
  simp

theorem feed_done (decided : state.feed bytes = (.done outcome, rest)) :
    ∃ taken, taken ≠ [] ∧ bytes = taken ++ rest := by
  induction bytes generalizing state with
  | nil => cases decided
  | cons byte bytes ih =>
    rw [State.feed] at decided
    cases pushed : state.push byte with
    | more next =>
      rw [pushed] at decided
      obtain ⟨taken, -, rfl⟩ := ih decided
      exact ⟨byte :: taken, List.cons_ne_nil _ _, rfl⟩
    | done outcome =>
      rw [pushed] at decided
      cases decided
      exact ⟨[byte], List.cons_ne_nil _ _, rfl⟩

-- What a reading may come to once a byte has been read: not the end, and no state in which nothing has
-- been read.
def Progress.Begun : Progress → Prop
  | .more state => ∀ length, state ≠ .headers [] length false
  | .done outcome => outcome ≠ .ended

theorem begun_finishBody (bytes : Bytes) : (Progress.done (finishBody bytes)).Begun := by
  intro ended
  rw [finishBody] at ended
  split at ended
  · cases ended
  · split at ended <;> cases ended

theorem begun_endHeaders (length : Option Nat) : (endHeaders length).Begun := by
  rw [endHeaders.eq_def]
  split
  · intro ended; cases ended
  · split
    · intro ended; cases ended
    · split
      · exact begun_finishBody []
      · intro length ended; cases ended

theorem begun_endLine (line : Bytes) (length : Option Nat) : (endLine line length).Begun := by
  rw [endLine]
  split
  · intro ended; cases ended
  · dsimp only
    split
    · exact begun_endHeaders length
    · split
      · intro known same; cases same
      · intro ended; cases ended
      · intro known same; cases same

theorem begun_push (state : State) (byte : UInt8) : (state.push byte).Begun := by
  cases state with
  | headers line length started =>
    rw [State.push]
    split
    · exact begun_endLine _ length
    · intro known same; cases same
  | body missing taken =>
    rw [State.push]
    split
    · exact begun_finishBody _
    · intro known same; cases same

theorem begun_feed (present : bytes ≠ []) : (state.feed bytes).1.Begun := by
  induction bytes generalizing state with
  | nil => exact absurd rfl present
  | cons byte bytes ih =>
    have first := begun_push state byte
    rw [State.feed]
    cases pushed : state.push byte with
    | done outcome =>
      rw [pushed] at first
      exact first
    | more next =>
      rw [pushed] at first
      cases bytes with
      | nil => exact first
      | cons second bytes => exact ih (List.cons_ne_nil _ _)

theorem finish_ne_ended (begun : (Progress.more state).Begun) : state.finish ≠ .ended := by
  cases state with
  | body missing taken => intro ended; cases ended
  | headers line length started =>
    cases line with
    | nil =>
      cases started with
      | true => intro ended; cases ended
      | false => exact absurd rfl (begun length)
    | cons byte line =>
      have ends := begun_endLine (byte :: line).reverse length
      rw [State.finish]
      · cases ended : endLine (byte :: line).reverse length with
        | done outcome =>
          rw [ended] at ends
          exact ends
        | more next => cases next <;> (intro same; cases same)
      · simp

theorem read_eq_ended_iff : (read pieces).1 = .ended ↔ pieces.flatten = [] := by
  have whole := congrArg Prod.fst (read_flatten .start pieces)
  constructor
  · intro ended
    refine Decidable.byContradiction fun present => ?_
    have begun : (State.start.feed pieces.flatten).1.Begun := begun_feed present
    cases fed : State.start.feed pieces.flatten with
    | mk progress rest =>
      rw [fed] at whole begun
      cases progress with
      | more next => exact finish_ne_ended begun (whole.symm.trans ended)
      | done outcome => exact begun (whole.symm.trans ended)
  · intro empty
    rw [empty] at whole
    exact whole

-- Whatever comes of a read that is not at the end, it has taken bytes off the stream.
theorem read_takes (more : (read pieces).1 ≠ .ended) :
    ∃ taken, taken ≠ [] ∧ pieces.flatten = taken ++ (read pieces).2.flatten := by
  have whole := congrArg Prod.snd (read_flatten .start pieces)
  cases fed : State.start.feed pieces.flatten with
  | mk progress rest =>
    rw [fed] at whole
    cases progress with
    | more next =>
      have left : (read pieces).2.flatten = [] := whole
      exact ⟨pieces.flatten, mt read_eq_ended_iff.2 more, by rw [left, List.append_nil]⟩
    | done outcome =>
      have left : (read pieces).2.flatten = rest := whole
      rw [left]
      exact feed_done fed

theorem finishBody_eq_frame_iff {body : String} :
    finishBody bytes = .frame body ↔ bytes = utf8 body ∧ Json.isWellFormed body := by
  constructor
  · intro framed
    rw [finishBody] at framed
    split at framed
    · cases framed
    · next text decoded =>
      split at framed
      · next formed =>
        cases framed
        exact ⟨(utf8_of_utf8Decode? decoded).symm, formed⟩
      · cases framed
  · rintro ⟨rfl, formed⟩
    rw [finishBody, utf8Decode?_utf8]
    exact if_pos formed

theorem finishBody_nil : finishBody [] = .failed .bodyNotJson := by decide

end LanguageRelay.Frame
