import LanguageRelay.Text.Bytes
namespace LanguageRelay.Text

def replacement : Char := '\ufffd'

def following (first : UInt8) : Option (Nat × UInt8 × UInt8) :=
  if 0xC2 ≤ first ∧ first ≤ 0xDF then some (1, 0x80, 0xBF)
  else if first = 0xE0 then some (2, 0xA0, 0xBF)
  else if first = 0xED then some (2, 0x80, 0x9F)
  else if 0xE1 ≤ first ∧ first ≤ 0xEF then some (2, 0x80, 0xBF)
  else if first = 0xF0 then some (3, 0x90, 0xBF)
  else if 0xF1 ≤ first ∧ first ≤ 0xF3 then some (3, 0x80, 0xBF)
  else if first = 0xF4 then some (3, 0x80, 0x8F)
  else none

-- What is being read: nothing, or a character with its value so far, the bytes to come and the
-- range of the next one.
inductive Pending where
  | none
  | char (value missing : Nat) (low high : UInt8)

def beginByte (found : List Char) (byte : UInt8) : List Char × Pending :=
  if byte < 0x80 then (Char.ofNat byte.toNat :: found, .none)
  else
    match following byte with
    | some (count, low, high) =>
      (found, .char (byte.toNat % Nat.pow 2 (6 - count)) count low high)
    | none => (replacement :: found, .none)

def decodeLossy : List Char → Pending → Bytes → List Char
  | found, .none, [] => found.reverse
  | found, .char _ _ _ _, [] => (replacement :: found).reverse
  | found, .none, byte :: rest =>
    let (found, pending) := beginByte found byte
    decodeLossy found pending rest
  | found, .char value missing low high, byte :: rest =>
    if low ≤ byte ∧ byte ≤ high then
      let value := value * 64 + byte.toNat % 64
      if missing ≤ 1 then decodeLossy (Char.ofNat value :: found) .none rest
      else decodeLossy found (.char value (missing - 1) 0x80 0xBF) rest
    else
      let (found, pending) := beginByte (replacement :: found) byte
      decodeLossy found pending rest

def utf8Lossy (bytes : Bytes) : String := String.ofList (decodeLossy [] .none bytes)

end LanguageRelay.Text
