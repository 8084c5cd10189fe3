import LanguageRelay.Frame.Writer
import LanguageRelay.Proofs.Frame.Stream
import LanguageRelay.Proofs.Text.Plain
namespace LanguageRelay.Frame
open Text

def headerName : List Char := ['C', 'o', 'n', 't', 'e', 'n', 't', '-', 'L', 'e', 'n', 'g', 't', 'h']

def lengthLine (length : Nat) : List Char := headerName ++ ':' :: ' ' :: Nat.toDigits 10 length

def asciiByte (c : Char) : UInt8 := c.toNat.toUInt8

theorem plain_digits (n : Nat) : IsPlain (Nat.toDigits 10 n) :=
  fun _ member => lt_of_isDigit (isDigit_of_mem member)

theorem plain_lengthLine (length : Nat) : IsPlain (lengthLine length) := by
  have name : IsPlain (headerName ++ [':', ' ']) := by decide
  have whole := name.append (plain_digits length)
  rw [List.append_assoc] at whole
  exact whole

theorem header_eq (length : Nat) :
    header length = (lengthLine length).map asciiByte ++ [13, 10, 13, 10] := by
  have name : "Content-Length: " = String.ofList (headerName ++ [':', ' ']) := by decide
  have ends : "\r\n\r\n" = String.ofList ['\r', '\n', '\r', '\n'] := by decide
  have text : s!"Content-Length: {length}\r\n\r\n" =
      String.ofList (lengthLine length ++ ['\r', '\n', '\r', '\n']) := by
    show "Content-Length: " ++ toString length ++ "\r\n\r\n" = _
    rw [Nat.toString_eq_ofList_toDigits, name, ends, ← String.ofList_append, ← String.ofList_append,
      List.append_assoc headerName]
    rfl
  have plain : IsPlain (lengthLine length ++ ['\r', '\n', '\r', '\n']) :=
    (plain_lengthLine length).append (by decide)
  rw [header, text, utf8_ofList plain, List.map_append]
  rfl

theorem endLine_utf8 (text : String) (length : Option Nat) :
    endLine (utf8 text) length =
      if trimChars text.toList = [] then endHeaders length
      else match lengthOfLine (trimChars text.toList) with
        | none => .more (.headers [] length true)
        | some none => .done (.failed .badLength)
        | some (some value) => .more (.headers [] (some value) true) := by
  by_cases blank : trimChars text.toList = []
  · simp only [endLine, utf8Decode?_utf8, blank, if_true]
  · rcases value : lengthOfLine (trimChars text.toList) with _ | _ | length
    all_goals
      simp only [endLine, utf8Decode?_utf8, blank, value, if_false]

theorem endLine_plain {chars : List Char} {length : Option Nat} (plain : IsPlain chars) :
    endLine (chars.map asciiByte) length =
      if trimChars chars = [] then endHeaders length
      else match lengthOfLine (trimChars chars) with
        | none => .more (.headers [] length true)
        | some none => .done (.failed .badLength)
        | some (some value) => .more (.headers [] (some value) true) := by
  have bytes : chars.map asciiByte = utf8 (String.ofList chars) := (utf8_ofList plain).symm
  rw [bytes, endLine_utf8, String.toList_ofList]

theorem endLine_blank (length : Option Nat) : endLine [13, 10] length = endHeaders length := by
  have plain : IsPlain ['\r', '\n'] := by decide
  exact (endLine_plain plain).trans (if_pos (trimChars_of_all_blank (by decide)))

theorem endLine_return (length : Option Nat) : endLine [13] length = endHeaders length := by
  have plain : IsPlain ['\r'] := by decide
  exact (endLine_plain plain).trans (if_pos (trimChars_of_all_blank (by decide)))

theorem ends_digits (n : Nat) :
    ∃ last, (Nat.toDigits 10 n).getLast? = some last ∧ isBlank last = false := by
  have present : Nat.toDigits 10 n ≠ [] := Nat.toDigits_ne_nil
  have digit : ((Nat.toDigits 10 n).getLast present).isDigit := isDigit_of_mem (List.getLast_mem present)
  exact ⟨_, List.getLast?_eq_some_getLast present, isBlank_of_isDigit digit⟩

theorem trimChars_lengthLine {length : Nat} {blanks : List Char} (blank : blanks.all isBlank) :
    trimChars (lengthLine length ++ blanks) = lengthLine length := by
  obtain ⟨last, tail, ends⟩ := ends_digits length
  have begins : (lengthLine length).head? = some 'C' := rfl
  have tail : (lengthLine length).getLast? = some last := by
    have whole : lengthLine length = headerName ++ [':', ' '] ++ Nat.toDigits 10 length := by
      rw [List.append_assoc]; rfl
    rw [whole, List.getLast?_append, tail]; rfl
  exact trimChars_append begins (by decide) tail ends blank

theorem lengthOfLine_lengthLine {length : Nat} (small : length ≤ greatest64) :
    lengthOfLine (lengthLine length) = some (some length) := by
  have split : splitColon? (lengthLine length) =
      some (headerName, ' ' :: Nat.toDigits 10 length) := rfl
  have name : (trimChars headerName).map lowerAscii = lengthName := by decide
  have value : trimChars (' ' :: Nat.toDigits 10 length) = Nat.toDigits 10 length := by
    obtain ⟨last, tail, ends⟩ := ends_digits length
    obtain ⟨first, rest, digits⟩ := List.exists_cons_of_ne_nil (Nat.toDigits_ne_nil (n := length) (b := 10))
    have digit : first.isDigit := isDigit_of_mem (digits ▸ List.mem_cons_self)
    have whole : trimChars (Nat.toDigits 10 length ++ []) = Nat.toDigits 10 length :=
      trimChars_append (congrArg List.head? digits) (isBlank_of_isDigit digit) tail ends rfl
    rw [List.append_nil] at whole
    rw [trimChars, ← List.singleton_append, dropBlanks_append (by decide)]
    exact whole
  simp only [lengthOfLine, split, name, if_true, value, unsigned?_toDigits small]

theorem endLine_lengthLine {length : Nat} {before : Option Nat} (small : length ≤ maximumLength) :
    endLine ((lengthLine length).map asciiByte ++ [13, 10]) before =
      .more (.headers [] (some length) true) := by
  have small : length ≤ greatest64 := Nat.le_trans small (by decide)
  have plain : IsPlain (lengthLine length ++ ['\r', '\n']) :=
    (plain_lengthLine length).append (by decide)
  have line : (lengthLine length).map asciiByte ++ [13, 10] =
      (lengthLine length ++ ['\r', '\n']).map asciiByte := by rw [List.map_append]; rfl
  have present : lengthLine length ≠ [] := by simp [lengthLine, headerName]
  rw [line, endLine_plain plain, trimChars_lengthLine (by decide), if_neg present,
    lengthOfLine_lengthLine small]

theorem lineFeed_not_mem (length : Nat) :
    (10 : UInt8) ∉ (lengthLine length ++ ['\r']).map asciiByte := by
  intro member
  obtain ⟨c, inside, byte⟩ := List.mem_map.1 member
  have plain : IsPlain (lengthLine length ++ ['\r']) := (plain_lengthLine length).append (by decide)
  have feed : c = '\n' := toUInt8_inj (plain c inside) (by decide) byte
  subst c
  rcases List.mem_append.1 inside with name | blank
  · rcases List.mem_append.1 name with name | value
    · revert name; decide
    · have digit : '\n' ∈ Nat.toDigits 10 length := by simpa using value
      exact absurd (isDigit_of_mem digit) (by decide)
  · revert blank; decide

theorem finish_begun {chars : List Char} {c : Char} (plain : IsPlain (c :: chars))
    (kept : isBlank c = false) : ∃ error,
    (State.headers ((c :: chars).map asciiByte).reverse none false).finish = .failed error := by
  have present : ((c :: chars).map asciiByte).reverse ≠ [] := by simp
  obtain ⟨byte, rest, line⟩ := List.exists_cons_of_ne_nil present
  have whole : (byte :: rest).reverse = (c :: chars).map asciiByte := by rw [← line]; simp
  rw [line, State.finish, whole, endLine_plain plain, if_neg (trimChars_ne_nil kept)]
  · rcases lengthOfLine (trimChars (c :: chars)) with _ | _ | value
    · exact ⟨_, rfl⟩
    · exact ⟨_, rfl⟩
    · exact ⟨_, rfl⟩
  · simp

theorem feed_begun {chars later : List Char} {length : Nat}
    (split : lengthLine length ++ ['\r'] = chars ++ later) (present : chars ≠ []) :
    ∃ next error, State.start.feed (chars.map asciiByte) = (.more next, []) ∧
      next.finish = .failed error := by
  have plain : IsPlain (lengthLine length ++ ['\r']) := (plain_lengthLine length).append (by decide)
  have none : (10 : UInt8) ∉ chars.map asciiByte := by
    intro member
    refine lineFeed_not_mem length ?_
    rw [split, List.map_append]; exact List.mem_append_left _ member
  obtain ⟨c, rest, rfl⟩ := List.exists_cons_of_ne_nil present
  have first : c = 'C' := by
    have same := congrArg List.head? split
    simpa [lengthLine, headerName] using same.symm
  have begun : IsPlain (c :: rest) := fun d member =>
    plain d (by rw [split]; exact List.mem_append_left _ member)
  obtain ⟨error, failed⟩ := finish_begun begun (by rw [first]; decide)
  refine ⟨_, error, feed_line none, ?_⟩
  rw [List.append_nil]; exact failed

theorem feed_lengthLine {length : Nat} (small : length ≤ maximumLength) (rest : Bytes) :
    State.start.feed ((lengthLine length ++ ['\r']).map asciiByte ++ 10 :: rest) =
      (State.headers [] (some length) true).feed rest := by
  have line : (lengthLine length ++ ['\r']).map asciiByte ++ [10] =
      (lengthLine length).map asciiByte ++ [13, 10] := by rw [List.map_append]; simp [asciiByte]
  rw [State.start, feed_endLine (lineFeed_not_mem length), line, endLine_lengthLine small]

theorem header_append (length : Nat) (rest : Bytes) : header length ++ rest =
    (lengthLine length ++ ['\r']).map asciiByte ++ 10 :: 13 :: 10 :: rest := by
  rw [header_eq, List.map_append]; simp [asciiByte]

theorem feed_blankLine {length : Nat} (small : length ≤ maximumLength) (present : 0 < length)
    (rest : Bytes) : (State.headers [] (some length) true).feed (13 :: 10 :: rest) =
      (State.body length []).feed rest := by
  have ends : endLine ([13] ++ [10]) (some length) = .more (.body length []) := by
    rw [List.cons_append, List.nil_append, endLine_blank, endHeaders,
      if_neg (Nat.not_lt_of_le small), if_neg (Nat.ne_of_gt present)]
  refine (feed_endLine (show (10 : UInt8) ∉ [13] by decide) rest).trans ?_
  rw [ends]

theorem feed_header {length : Nat} (small : length ≤ maximumLength) (present : 0 < length)
    (rest : Bytes) :
    State.start.feed (header length ++ rest) = (State.body length []).feed rest := by
  rw [header_append, feed_lengthLine small, feed_blankLine small present]

end LanguageRelay.Frame
