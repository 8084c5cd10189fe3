import LanguageRelay.Frame.Writer
namespace LanguageRelay.Frame
open Text

-- How much of so many bytes a sink takes in the end.
def Sink.share (sink : Sink) (length : Nat) : Nat :=
  match sink.room with
  | none => length
  | some room => min length room

def Sink.write (sink : Sink) (bytes : Bytes) : Sink := sink.take (sink.share bytes.length) bytes

variable {sink : Sink} {bytes : Bytes} {bodies : List String}

theorem share_unlimited (unlimited : sink.room = none) (length : Nat) : sink.share length = length := by
  simp only [Sink.share, unlimited]

theorem share_le (sink : Sink) (length : Nat) : sink.share length ≤ length := by
  cases limited : sink.room with
  | none => exact Nat.le_of_eq (share_unlimited limited length)
  | some room => simp only [Sink.share, limited]; exact Nat.min_le_left _ _

theorem portion_le_share (sink : Sink) (length : Nat) : sink.portion length ≤ sink.share length ∧
    (sink.portion length = 0 → sink.share length = 0) := by
  cases limited : sink.room with
  | none => simp only [Sink.portion, Sink.share, limited]; omega
  | some room => simp only [Sink.portion, Sink.share, limited]; omega

theorem share_take (sink : Sink) {count length : Nat} (first : count ≤ sink.share length)
    (bytes : Bytes) : (sink.take count bytes).share (length - count) = sink.share length - count := by
  cases limited : sink.room with
  | none => simp only [Sink.share, Sink.take, limited, Option.map_none]
  | some room =>
    simp only [Sink.share, limited] at first
    simp only [Sink.share, Sink.take, limited, Option.map_some]
    omega

theorem take_take (sink : Sink) (bytes : Bytes) (first second : Nat) :
    (sink.take first bytes).take second (bytes.drop first) = sink.take (first + second) bytes := by
  simp only [Sink.take, List.append_assoc, Option.map_map, List.take_add]
  congr 1
  cases sink.room with
  | none => rfl
  | some room => simp [Nat.sub_sub]

theorem take_zero (sink : Sink) (bytes : Bytes) : sink.take 0 bytes = sink := by
  obtain ⟨_, room, _, _, _⟩ := sink
  cases room <;> simp [Sink.take]

theorem writeAll_eq (sink : Sink) (bytes : Bytes) :
    sink.writeAll bytes = (decide (sink.share bytes.length = bytes.length), sink.write bytes) := by
  fun_induction Sink.writeAll sink bytes with
  | case1 sink =>
    have none : sink.share 0 = 0 := Nat.le_zero.1 (share_le sink 0)
    simp [Sink.write, none, take_zero]
  | case2 sink bytes present full =>
    have none := (portion_le_share sink bytes.length).2 full
    have some : 0 < bytes.length := List.length_pos_iff.2 present
    simp [Sink.write, none, take_zero, Nat.ne_of_lt some]
  | case3 sink bytes present some ih =>
    obtain ⟨part, _⟩ := portion_le_share sink bytes.length
    have least := share_le sink bytes.length
    have left := share_take sink part bytes
    rw [ih, Sink.write, List.length_drop, left, take_take, Nat.add_sub_cancel' part]
    refine Prod.ext (decide_eq_decide.2 ?_) rfl
    omega

theorem write_append (sink : Sink) (first second : Bytes) :
    (sink.write first).write second = sink.write (first ++ second) := by
  have shares : sink.share first.length + (sink.write first).share second.length =
        sink.share (first ++ second).length ∧
      first.take (sink.share first.length) ++
        second.take ((sink.write first).share second.length) =
        (first ++ second).take (sink.share (first ++ second).length) := by
    rw [List.take_append, List.length_append]
    cases limited : sink.room with
    | none =>
      have whole : first.take (first.length + second.length) = first :=
        List.take_of_length_le (Nat.le_add_right _ _)
      simp [Sink.share, Sink.write, Sink.take, limited, whole]
    | some room =>
      simp only [Sink.share, Sink.write, Sink.take, limited, Option.map_some]
      refine ⟨by omega, ?_⟩
      have front : first.take (min first.length room) =
          first.take (min (first.length + second.length) room) :=
        List.take_eq_take_iff.2 (by omega)
      have back : second.take (min second.length (room - min first.length room)) =
          second.take (min (first.length + second.length) room - first.length) :=
        List.take_eq_take_iff.2 (by omega)
      rw [front, back]
  obtain ⟨sum, bytes⟩ := shares
  simp only [Sink.write, Sink.take, List.append_assoc, Option.map_map] at sum bytes ⊢
  rw [bytes, ← sum]
  congr 1
  cases sink.room with
  | none => rfl
  | some room => simp [Nat.sub_sub]

theorem write_of_full (full : sink.share bytes.length ≠ bytes.length) (later : Bytes) :
    (sink.write bytes).write later = sink.write bytes := by
  have none : (sink.write bytes).share later.length = 0 := by
    cases limited : sink.room with
    | none => exact absurd (share_unlimited limited _) full
    | some room =>
      simp only [Sink.share, limited] at full
      simp only [Sink.share, Sink.write, Sink.take, limited, Option.map_some]
      omega
  rw [Sink.write, none, take_zero]

theorem writeFrame_eq (sink : Sink) (body : String) :
    (sink.writeFrame body).2 = sink.write (encode body) := by
  rw [encode, ← write_append]
  simp only [Sink.writeFrame, writeAll_eq]
  by_cases whole : sink.share (header (byteLength body)).length = (header (byteLength body)).length
  · simp only [whole, decide_true]
    split <;> simp_all
  · simp only [whole, decide_false, write_of_full whole]

theorem writeFrames_eq (sink : Sink) (bodies : List String) :
    (sink.writeFrames bodies).2 = sink.write (bodies.flatMap encode) := by
  induction bodies generalizing sink with
  | nil => rw [Sink.writeFrames, List.flatMap_nil, Sink.write, List.length_nil,
      Nat.le_zero.1 (share_le sink 0), take_zero]
  | cons body rest ih =>
    rw [List.flatMap_cons, ← write_append, ← writeFrame_eq, ← ih]
    rfl

theorem accepted_write (sink : Sink) (bytes : Bytes) :
    (sink.write bytes).accepted = sink.accepted ++ bytes.take (sink.share bytes.length) := rfl

end LanguageRelay.Frame
