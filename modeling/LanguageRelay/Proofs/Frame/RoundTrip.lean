import LanguageRelay.Proofs.Frame.Header
import LanguageRelay.Proofs.Frame.Sink
namespace LanguageRelay.Frame
open Text
variable {body : String} {bodies : List String} {cut : Bytes} {pieces : List Bytes} {count : Nat}

-- A body that a reader takes.
def IsReadable (body : String) : Prop := Json.isWellFormed body ∧ byteLength body ≤ maximumLength

-- The bodies whose frames lie entirely within the first so many bytes.
def wholeBodies : List String → Nat → List String
  | [], _ => []
  | body :: rest, count =>
    if (encode body).length ≤ count then body :: wholeBodies rest (count - (encode body).length)
    else []

-- What reading gives once there is no whole frame any more.
def endOf (pastErrors : Bool) (error : ReadError) (between : Prop) [Decidable between] :
    List Outcome :=
  if between then [.ended] else .failed error :: if pastErrors then [.ended] else []

theorem wholeBodies_isPrefix (bodies : List String) (count : Nat) :
    (wholeBodies bodies count).IsPrefix bodies := by
  induction bodies generalizing count with
  | nil => exact List.prefix_rfl
  | cons body rest ih =>
    rw [wholeBodies]
    split
    · exact List.cons_prefix_cons.2 ⟨rfl, ih _⟩
    · exact List.nil_prefix

theorem le_length_wholeBodies {number : Nat} (known : number ≤ bodies.length) :
    number ≤ (wholeBodies bodies count).length ↔
      ((bodies.take number).flatMap encode).length ≤ count := by
  induction bodies generalizing count number with
  | nil =>
    obtain rfl := Nat.le_zero.1 known
    simp
  | cons body rest ih =>
    cases number with
    | zero => simp
    | succ number =>
      have later : number ≤ (wholeBodies rest (count - (encode body).length)).length ↔
          ((rest.take number).flatMap encode).length ≤ count - (encode body).length :=
        ih (Nat.le_of_succ_le_succ known)
      rw [wholeBodies, List.take_succ_cons, List.flatMap_cons, List.length_append]
      split
      · rw [List.length_cons, Nat.succ_le_succ_iff, later]
        omega
      · simp only [List.length_nil]
        omega

theorem not_isWellFormed_empty : Json.isWellFormed "" = false := by decide

theorem byteLength_pos (readable : IsReadable body) : 0 < byteLength body := by
  refine Nat.pos_of_ne_zero fun none => ?_
  obtain rfl := String.utf8ByteSize_eq_zero_iff.1 none
  have formed := readable.1
  rw [not_isWellFormed_empty] at formed; cases formed

theorem utf8_ne_nil (readable : IsReadable body) : utf8 body ≠ [] := by
  intro none
  have length := length_utf8 body
  rw [none] at length
  exact absurd length.symm (Nat.ne_of_gt (byteLength_pos readable))

theorem feed_encode (readable : IsReadable body) (rest : Bytes) :
    State.start.feed (encode body ++ rest) = (.done (.frame body), rest) := by
  rw [encode, List.append_assoc, feed_header readable.2 (byteLength_pos readable), ← length_utf8,
    feed_whole_body (utf8_ne_nil readable), finishBody_eq_frame_iff.2 ⟨rfl, readable.1⟩]

theorem feed_cut (readable : IsReadable body) (within : cut.IsPrefix (encode body))
    (short : cut.length < (encode body).length) (present : cut ≠ []) :
    ∃ next error, State.start.feed cut = (.more next, []) ∧ next.finish = .failed error := by
  obtain ⟨left, whole⟩ := within
  have missing : left ≠ [] := by
    rintro rfl
    rw [List.append_nil] at whole
    rw [whole] at short; exact Nat.lt_irrefl _ short
  have small := readable.2
  have none : byteLength body ≠ 0 := Nat.ne_of_gt (byteLength_pos readable)
  rw [encode, header_append] at whole
  rcases List.append_eq_append_iff.1 whole with ⟨rest, line, _⟩ | ⟨beyond, rfl, tail⟩
  · obtain ⟨chars, later, split, rfl, _⟩ := List.map_eq_append_iff.1 line
    exact feed_begun split fun none => present (by rw [none]; rfl)
  · cases beyond with
    | nil =>
      rw [List.append_nil]
      exact feed_begun (List.append_nil _).symm (by simp)
    | cons lineFeed beyond =>
      obtain ⟨rfl, blank⟩ := List.cons.inj tail
      rw [feed_lengthLine small]
      cases beyond with
      -- Between the two lines.
      | nil => exact ⟨_, .headersCut, rfl, rfl⟩
      | cons carriage beyond =>
        obtain ⟨rfl, ends⟩ := List.cons.inj blank
        cases beyond with
        -- The blank line counts as blank without its line feed.
        | nil =>
          refine ⟨.headers [13] (some (byteLength body)) true, .bodyCut, rfl, ?_⟩
          have ends : endLine [13] (some (byteLength body)) = .more (.body (byteLength body) []) := by
            rw [endLine_return, endHeaders, if_neg (Nat.not_lt_of_le small), if_neg none]
          rw [State.finish, List.reverse_singleton, ends]
          exact List.cons_ne_nil _ _
        | cons lineFeed taken =>
          obtain ⟨rfl, inside⟩ := List.cons.inj ends
          have inside : utf8 body = taken ++ left := inside
          have length : taken.length < byteLength body := by
            rw [← length_utf8, inside, List.length_append]
            exact Nat.lt_add_of_pos_right (List.length_pos_iff.2 missing)
          rw [feed_blankLine small (byteLength_pos readable), feed_body length]
          exact ⟨_, .bodyCut, rfl, rfl⟩

theorem readAll_of_prefix (readable : ∀ body ∈ bodies, IsReadable body)
    (within : cut.IsPrefix (bodies.flatMap encode)) (pieced : pieces.flatten = cut) :
    ∃ error, ∀ pastErrors limit, readAll pastErrors limit pieces =
      ((wholeBodies bodies cut.length).map Outcome.frame ++ endOf pastErrors error
        (((wholeBodies bodies cut.length).flatMap encode).length = cut.length)).take limit := by
  induction bodies generalizing cut pieces with
  | nil =>
    obtain rfl := List.prefix_nil.1 within
    refine ⟨.noLength, fun pastErrors limit => ?_⟩
    rw [readAll_congr (pieced.trans List.flatten_nil.symm), readAll_nil]; rfl
  | cons body rest ih =>
    have first := readable body List.mem_cons_self
    rw [List.flatMap_cons] at within
    by_cases whole : (encode body).length ≤ cut.length
    · obtain ⟨later, rfl⟩ : ∃ later, cut = encode body ++ later := by
        obtain ⟨later, same⟩ := List.prefix_of_prefix_length_le (List.prefix_append _ _) within whole
        exact ⟨later, same.symm⟩
      obtain ⟨error, reads⟩ := ih (fun other member => readable other (List.mem_cons_of_mem _ member))
        ((List.prefix_append_right_inj _).1 within) List.flatten_singleton
      refine ⟨error, fun pastErrors limit => ?_⟩
      cases limit with
      | zero => rfl
      | succ limit =>
        have decided : State.start.feed pieces.flatten = (.done (.frame body), later) := by
          rw [pieced, feed_encode first]
        rw [readAll_of_done decided, goesOn, if_pos rfl, reads, wholeBodies, if_pos whole,
          List.length_append, Nat.add_sub_cancel_left]
        simp
    · have none : wholeBodies (body :: rest) cut.length = [] := by rw [wholeBodies, if_neg whole]
      rw [none]
      by_cases empty : cut = []
      · rw [empty] at pieced ⊢
        refine ⟨.noLength, fun pastErrors limit => ?_⟩
        rw [readAll_congr (pieced.trans List.flatten_nil.symm), readAll_nil]; rfl
      · have short := Nat.lt_of_not_le whole
        obtain ⟨next, error, fed, failed⟩ := feed_cut first
          (List.prefix_of_prefix_length_le within (List.prefix_append _ _) (Nat.le_of_lt short))
          short empty
        refine ⟨error, fun pastErrors limit => ?_⟩
        cases limit with
        | zero => rfl
        | succ limit =>
          have broken : ¬ (([] : List String).flatMap encode).length = cut.length :=
            fun none => empty (List.length_eq_zero_iff.1 none.symm)
          rw [readAll_of_more (pieced ▸ fed), failed, goesOn, readAll_nil, endOf, if_neg broken]
          cases pastErrors <;> simp

-- What a fresh sink has taken of frames, cut anywhere and arriving in any pieces, reads as the bodies
-- whose frames are whole and nothing else.
theorem read_written {sink : Sink} (readable : ∀ body ∈ bodies, IsReadable body)
    (fresh : sink.accepted = []) (within : cut.IsPrefix (sink.writeFrames bodies).2.accepted)
    (pieced : pieces.flatten = cut) :
    ∃ error, ∀ pastErrors limit, readAll pastErrors limit pieces =
      ((wholeBodies bodies cut.length).map Outcome.frame ++ endOf pastErrors error
        (((wholeBodies bodies cut.length).flatMap encode).length = cut.length)).take limit := by
  have taken : (sink.writeFrames bodies).2.accepted.IsPrefix (bodies.flatMap encode) := by
    rw [writeFrames_eq, accepted_write, fresh]; exact List.take_prefix _ _
  exact readAll_of_prefix readable (within.trans taken) pieced

theorem read_written_cut_header : ∃ error, readAll true 4
    [utf8 "Content-Length: 2\r", utf8 "\n\r\n{}Content-Length: 1"] =
      [.frame "{}", .failed error, .ended] := by
  have readable : ∀ body ∈ ["{}", "[1, 2, 3]  "], IsReadable body := by
    intro body member
    rcases List.mem_cons.1 member with rfl | member
    · exact ⟨by decide, by decide⟩
    · obtain rfl := List.mem_singleton.1 member
      exact ⟨by decide, by decide⟩
  have within : ([utf8 "Content-Length: 2\r", utf8 "\n\r\n{}Content-Length: 1"].flatten).IsPrefix
      ((Sink.mk 6 none true true []).writeFrames ["{}", "[1, 2, 3]  "]).2.accepted := by
    rw [writeFrames_eq]; decide
  obtain ⟨error, reads⟩ := read_written readable rfl within rfl
  refine ⟨error, (reads true 4).trans ?_⟩
  have whole : wholeBodies ["{}", "[1, 2, 3]  "]
      [utf8 "Content-Length: 2\r", utf8 "\n\r\n{}Content-Length: 1"].flatten.length = ["{}"] := by
    decide
  rw [whole, endOf, if_neg (by decide)]
  rfl

end LanguageRelay.Frame
