namespace LanguageRelay.Text

def units (c : Char) : Nat := if c.toNat < 0x10000 then 1 else 2

def unitCount : List Char → Nat
  | [] => 0
  | c :: rest => units c + unitCount rest

@[simp] theorem unitCount_nil : unitCount [] = 0 := rfl

@[simp] theorem unitCount_cons (c : Char) (chars : List Char) :
    unitCount (c :: chars) = units c + unitCount chars := rfl

@[simp] theorem unitCount_append (a b : List Char) :
    unitCount (a ++ b) = unitCount a + unitCount b := by
  induction a with
  | nil => simp
  | cons c rest ih => simp [ih, Nat.add_assoc]

theorem units_pos (c : Char) : 0 < units c := by unfold units; split <;> decide

end LanguageRelay.Text
