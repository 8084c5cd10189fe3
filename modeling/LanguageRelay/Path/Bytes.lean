import LanguageRelay.Text.Bytes
namespace LanguageRelay.Path

-- The bytes of a path need not be UTF-8. A byte that is part of no character stands in a path as one of
-- the last 128 characters there are, and the bytes of those characters do so themselves. So different
-- bytes are different paths, and a text without such characters is a path as it is.
def strayChar (byte : UInt8) : Char := Char.ofNat (0x10FF00 + byte.toNat)

def isStray (c : Char) : Bool := 0x10FF80 ≤ c.toNat

def front? (bytes : Bytes) : Option Char :=
  (ByteArray.utf8DecodeChar? (bytes.take 4).toByteArray 0).filter fun c => !isStray c

def charsOf : Nat → Bytes → List Char
  | _, [] => []
  | left + 1, _ :: rest => charsOf left rest
  | 0, byte :: rest =>
    match front? (byte :: rest) with
    | some c => c :: charsOf (c.utf8Size - 1) rest
    | none => strayChar byte :: charsOf 0 rest

def ofBytes (bytes : Bytes) : String := String.ofList (charsOf 0 bytes)

def ofText (text : String) : String := ofBytes (Text.utf8 text)

def bytesOf (c : Char) : Bytes :=
  if isStray c then [(c.toNat - 0x10FF00).toUInt8] else String.utf8EncodeChar c

def toBytes (path : String) : Bytes := path.toList.flatMap bytesOf

def byteLength (path : String) : Nat := (toBytes path).length

end LanguageRelay.Path
