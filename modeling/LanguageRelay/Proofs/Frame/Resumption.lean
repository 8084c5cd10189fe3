import Mathlib.Data.List.Forall2
import LanguageRelay.Proofs.Frame.Grammar
namespace LanguageRelay.Frame
open Text
variable {pieces later : List Bytes} {content rest : Bytes} {outcome : Outcome}

structure Block where
  header : Bytes
  content : Bytes

def Block.bytes (block : Block) : Bytes := block.header ++ block.content

-- A header whose length is that of the content behind it and in range.
structure Block.Formed (block : Block) : Prop where
  header : IsHeader block.header block.content.length
  small : block.content.length ≤ maximumLength

-- What is to come of a block with a content: its body, or an error about the body.
inductive Answers (content : Bytes) : Outcome → Prop where
  | body {body : String} : content = utf8 body → Json.isWellFormed body → Answers content (.frame body)
  | notText : (∀ text, content ≠ utf8 text) → Answers content (.failed .bodyNotText)
  | notJson {text : String} : content = utf8 text → ¬ Json.isWellFormed text →
    Answers content (.failed .bodyNotJson)

theorem answers_iff : Answers content outcome ↔ outcome = finishBody content := by
  constructor
  · rintro (⟨rfl, formed⟩ | none | ⟨rfl, malformed⟩)
    · exact (finishBody_eq_frame_iff.2 ⟨rfl, formed⟩).symm
    · cases decoded : utf8Decode? content with
      | none => rw [finishBody, decoded]
      | some text => exact absurd (utf8_of_utf8Decode? decoded).symm (none text)
    · rw [finishBody, utf8Decode?_utf8]
      exact (if_neg malformed).symm
  · rintro rfl
    rw [finishBody]
    cases decoded : utf8Decode? content with
    | none =>
      refine .notText fun text same => ?_
      rw [same, utf8Decode?_utf8] at decoded
      cases decoded
    | some text =>
      have same : content = utf8 text := (utf8_of_utf8Decode? decoded).symm
      by_cases formed : Json.isWellFormed text
      · simp only [formed, if_true]
        exact .body same formed
      · simp only [formed]
        exact .notJson same formed

theorem Answers.goesOn (answers : Answers content outcome) : goesOn true outcome := by
  cases answers <;> rfl

-- Reading on past errors comes to the end, at the latest when every read has taken one byte.
theorem readAll_ends (pieces : List Bytes) : ∃ outcomes, outcomes.length ≤ pieces.flatten.length ∧
    .ended ∉ outcomes ∧
    ∀ limit, outcomes.length < limit → readAll true limit pieces = outcomes ++ [.ended] := by
  induction size : pieces.flatten.length using Nat.strongRecOn generalizing pieces with
  | ind n ih =>
    by_cases ended : (read pieces).1 = .ended
    · refine ⟨[], Nat.zero_le _, List.not_mem_nil, fun limit enough => ?_⟩
      obtain ⟨limit, rfl⟩ := Nat.exists_eq_add_one_of_ne_zero (Nat.ne_of_gt enough)
      simp only [readAll, ended, goesOn]
      rfl
    · obtain ⟨taken, present, whole⟩ := read_takes ended
      have shorter : (read pieces).2.flatten.length < n := by
        rw [← size, whole, List.length_append]
        exact Nat.lt_add_of_pos_left (List.length_pos_iff.2 present)
      obtain ⟨outcomes, few, without, reads⟩ := ih _ shorter (read pieces).2 rfl
      have goes : goesOn true (read pieces).1 := by
        cases outcome : (read pieces).1 with
        | ended => exact absurd outcome ended
        | frame body => rfl
        | failed error => rfl
      refine ⟨(read pieces).1 :: outcomes, Nat.lt_of_le_of_lt few shorter, ?_, fun limit enough => ?_⟩
      · exact List.not_mem_cons_of_ne_of_not_mem (Ne.symm ended) without
      · obtain ⟨limit, rfl⟩ := Nat.exists_eq_add_one_of_ne_zero (Nat.ne_of_gt (Nat.zero_lt_of_lt enough))
        simp only [readAll, goes, if_true, reads limit (Nat.lt_of_succ_lt_succ enough), List.cons_append]

theorem readAll_block {block : Block} (formed : block.Formed)
    (split : pieces.flatten = block.bytes ++ rest) (limit : Nat) :
    readAll true (limit + 1) pieces = finishBody block.content :: readAll true limit [rest] := by
  have decided : State.start.feed pieces.flatten = (.done (finishBody block.content), rest) := by
    rw [split, Block.bytes, feed_block formed.header formed.small]
  rw [readAll_of_done decided, if_pos (answers_iff.2 rfl).goesOn]

theorem readAll_blocks {blocks : List Block} (formed : ∀ block ∈ blocks, block.Formed)
    (split : pieces.flatten = blocks.flatMap Block.bytes ++ later.flatten) (limit : Nat) :
    readAll true (blocks.length + limit) pieces =
      (blocks.map fun block => finishBody block.content) ++ readAll true limit later := by
  induction blocks generalizing pieces with
  | nil =>
    rw [List.length_nil, Nat.zero_add]
    exact readAll_congr split
  | cons block blocks ih =>
    obtain ⟨first, formed⟩ := List.forall_mem_cons.1 formed
    rw [List.flatMap_cons, List.append_assoc] at split
    rw [List.length_cons, Nat.add_right_comm, readAll_block first split,
      ih formed (List.flatten_singleton ..), List.map_cons, List.cons_append]

-- Reading on past errors. Each read takes a byte or is at the end, the end comes after no more reads than
-- there are bytes, and blocks are answered one by one with what follows them read as on its own.
theorem reading_goes_on (pieces : List Bytes) :
    ((read pieces).1 = .ended ∧ pieces.flatten = [] ∨ (read pieces).1 ≠ .ended ∧
      ∃ taken, taken ≠ [] ∧ pieces.flatten = taken ++ (read pieces).2.flatten) ∧
    (∃ outcomes, outcomes.length ≤ pieces.flatten.length ∧ .ended ∉ outcomes ∧
      ∀ limit, outcomes.length < limit → readAll true limit pieces = outcomes ++ [.ended]) ∧
    ∀ (blocks : List Block) (later : List Bytes), (∀ block ∈ blocks, block.Formed) →
      pieces.flatten = blocks.flatMap Block.bytes ++ later.flatten →
      ∃ outcomes, List.Forall₂ (fun block outcome => Answers block.content outcome) blocks outcomes ∧
        ∀ limit, readAll true (blocks.length + limit) pieces = outcomes ++ readAll true limit later := by
  refine ⟨?_, readAll_ends pieces, fun blocks later formed split => ?_⟩
  · by_cases ended : (read pieces).1 = .ended
    · exact .inl ⟨ended, read_eq_ended_iff.1 ended⟩
    · exact .inr ⟨ended, read_takes ended⟩
  · refine ⟨blocks.map fun block => finishBody block.content, ?_, readAll_blocks formed split⟩
    exact List.forall₂_map_right_iff.2 (List.forall₂_same.2 fun block _ => answers_iff.2 rfl)

theorem reading_goes_on_past_bad_body : readAll true 4
    [utf8 "Content-Length: 1\r\n", utf8 "\r\n" ++ 255 :: utf8 "content-LENGTH:+2\n \n{}Content-Length: x\n"] =
      [.failed .bodyNotText, .frame "{}", .failed .badLength, .ended] := by
  have formed : ∀ block ∈ [Block.mk (utf8 "Content-Length: 1\r\n\r\n") [255],
      Block.mk (utf8 "content-LENGTH:+2\n \n") (utf8 "{}")], block.Formed := by
    refine List.forall_mem_cons.2 ⟨⟨⟨["Content-Length: 1\r"], "\r", by decide, ?_, by decide, by decide⟩,
      by decide⟩, List.forall_mem_singleton.2 ⟨⟨["content-LENGTH:+2"], " ", by decide, ?_, by decide,
      by decide⟩, by decide⟩⟩
    · exact areHeaders_of_lengthAfter (by decide) (by decide) (by decide)
    · exact areHeaders_of_lengthAfter (by decide) (by decide) (by decide)
  obtain ⟨-, -, resumes⟩ := reading_goes_on
    [utf8 "Content-Length: 1\r\n", utf8 "\r\n" ++ 255 :: utf8 "content-LENGTH:+2\n \n{}Content-Length: x\n"]
  obtain ⟨outcomes, answers, reads⟩ := resumes _ [utf8 "Content-Length: x\n"] formed (by decide)
  rcases answers with _ | ⟨first, _ | ⟨second, _ | _⟩⟩
  rw [answers_iff.1 first, answers_iff.1 second] at reads
  exact (reads 2).trans (by decide)

end LanguageRelay.Frame
