import LanguageRelay.Path.Bytes
import LanguageRelay.Uri.Parser
namespace LanguageRelay.Uri

-- The bytes of a percent-encoded text. A percent sign without two digits stands for itself.
def percentDecode : Bytes → Bytes
  | 0x25 :: a :: b :: rest =>
    match hexDigit? (Char.ofNat a.toNat), hexDigit? (Char.ofNat b.toNat) with
    | some x, some y => (x * 16 + y).toUInt8 :: percentDecode rest
    | _, _ => 0x25 :: percentDecode (a :: b :: rest)
  | c :: rest => c :: percentDecode rest
  | [] => []

def endsWithDrive (bytes : Bytes) : Bool :=
  match bytes.reverse with
  | mark :: letter :: _ :: _ => (Char.ofNat letter.toNat).isAlpha && (mark == 0x3A || mark == 0x7C)
  | _ => false

-- The decoding comes after dot segments were taken out, so a decoded segment may hold a slash or be `..`.
def Location.pathBytes? (location : Location) : Option Bytes :=
  if location.host = .none ∨ location.host = .name "localhost" then
    let bytes := location.segments.flatMap fun s =>
      0x2F :: percentDecode (Text.utf8 (String.ofList s))
    some (if endsWithDrive bytes then bytes ++ [0x2F] else bytes)
  else none

def pathBytes? (url : String) : Option Bytes := (Location.read? url).bind Location.pathBytes?

def filePath? (url : String) : Option String := (pathBytes? url).map Path.ofBytes

end LanguageRelay.Uri
