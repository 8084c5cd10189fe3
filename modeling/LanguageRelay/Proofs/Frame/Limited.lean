import LanguageRelay.Proofs.Frame.Header
import LanguageRelay.Proofs.Frame.Sink
namespace LanguageRelay.Frame
open Text
variable {sink : Sink} {limit number : Nat} {body : String} {bodies : List String}

def resultAt (limit before : Nat) (flushes : Bool) (body : String) : Except WriteError Unit :=
  if limit < before + (header (byteLength body)).length then .error .header
  else if limit < before + (encode body).length then .error .body
  else if flushes then .ok () else .error .flush

theorem length_header_pos (length : Nat) : 0 < (header length).length := by
  rw [header_eq, List.length_append]
  exact Nat.lt_of_lt_of_le (by decide) (Nat.le_add_left _ _)

theorem length_encode (body : String) :
    (encode body).length = (header (byteLength body)).length + (utf8 body).length :=
  List.length_append

-- A frame has a byte at least, so a limit that is passed before it is not met by it.
theorem resultAt_sub (limit past before : Nat) (flushes : Bool) (body : String) :
    resultAt (limit - past) before flushes body = resultAt limit (past + before) flushes body := by
  have some := length_header_pos (byteLength body)
  have long := length_encode body
  have head : limit - past < before + (header (byteLength body)).length ↔
      limit < past + before + (header (byteLength body)).length := by omega
  have whole : limit - past < before + (encode body).length ↔
      limit < past + before + (encode body).length := by omega
  simp only [resultAt, head, whole]

theorem room_write (limited : sink.room = some limit) (bytes : Bytes) :
    (sink.write bytes).room = some (limit - bytes.length) := by
  simp only [Sink.write, Sink.take, Sink.share, limited, Option.map_some]
  congr 1
  omega

theorem writeAll_limited (limited : sink.room = some limit) (bytes : Bytes) :
    sink.writeAll bytes = (decide (bytes.length ≤ limit), sink.write bytes) := by
  have fits : sink.share bytes.length = bytes.length ↔ bytes.length ≤ limit := by
    simp only [Sink.share, limited]
    omega
  rw [writeAll_eq, decide_eq_decide.2 fits]

theorem writeFrame_result (limited : sink.room = some limit) (body : String) :
    (sink.writeFrame body).1 = resultAt limit 0 sink.flushes body := by
  have left := room_write limited (header (byteLength body))
  have long := length_encode body
  rw [Sink.writeFrame, writeAll_limited limited, resultAt, Nat.zero_add, Nat.zero_add]
  by_cases head : (header (byteLength body)).length ≤ limit
  · rw [if_neg (Nat.not_lt_of_le head), decide_eq_true head]
    simp only [writeAll_limited left]
    by_cases whole : (encode body).length ≤ limit
    · have fits : (utf8 body).length ≤ limit - (header (byteLength body)).length := by omega
      rw [if_neg (Nat.not_lt_of_le whole), decide_eq_true fits]
      rfl
    · have short : ¬ (utf8 body).length ≤ limit - (header (byteLength body)).length := by omega
      rw [if_pos (Nat.lt_of_not_le whole), decide_eq_false short]
  · rw [if_pos (Nat.lt_of_not_le head), decide_eq_false head]

theorem length_writeFrames (sink : Sink) (bodies : List String) :
    (sink.writeFrames bodies).1.length = bodies.length := by
  induction bodies generalizing sink with
  | nil => rfl
  | cons body rest ih => exact congrArg Nat.succ (ih (sink.writeFrame body).2)

theorem writeFrames_result (limited : sink.room = some limit) (here : bodies[number]? = some body) :
    (sink.writeFrames bodies).1[number]? =
      some (resultAt limit ((bodies.take number).flatMap encode).length sink.flushes body) := by
  induction bodies generalizing sink limit number with
  | nil => cases here
  | cons first rest ih =>
    cases number with
    | zero =>
      cases here
      exact congrArg some (writeFrame_result limited body)
    | succ number =>
      have left : (sink.writeFrame first).2.room = some (limit - (encode first).length) := by
        rw [writeFrame_eq]
        exact room_write limited _
      have same : (sink.writeFrame first).2.flushes = sink.flushes := by
        rw [writeFrame_eq]
        rfl
      have later := ih left here
      rw [same, resultAt_sub, ← List.length_append, ← List.flatMap_cons, ← List.take_succ_cons] at later
      exact later

-- Frames written one after the other, past failures, into a sink with a limit.
theorem written_up_to_limit (step limit : Nat) (flushes closes : Bool) (taken : Bytes)
    (bodies : List String) :
    let written := (Sink.mk step (some limit) flushes closes taken).writeFrames bodies
    let frames := bodies.flatMap encode
    written.2.accepted = taken ++ frames.take (min limit frames.length) ∧
    written.1.length = bodies.length ∧
    (∀ number : Fin bodies.length,
      let before := ((bodies.take number).flatMap encode).length
      let head := (header (byteLength bodies[number])).length
      let whole := (encode bodies[number]).length
      written.1[number]? = some (
        if limit < before + head then .error .header
        else if limit < before + whole then .error .body
        else if flushes then .ok () else .error .flush)) ∧
    ∀ body, encode body = utf8 s!"Content-Length: {(utf8 body).length}\r\n\r\n" ++ utf8 body := by
  intro written frames
  refine ⟨?_, length_writeFrames _ bodies, fun number => ?_, fun body => ?_⟩
  · rw [Nat.min_comm]
    exact (congrArg Sink.accepted (writeFrames_eq _ bodies)).trans (accepted_write _ _)
  · exact writeFrames_result rfl (List.getElem?_eq_getElem number.isLt)
  · rw [length_utf8]
    rfl

end LanguageRelay.Frame
