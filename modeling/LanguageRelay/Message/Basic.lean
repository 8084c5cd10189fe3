import LanguageRelay.Json.Reader
import LanguageRelay.Json.Printer
import LanguageRelay.Text.Bytes
namespace LanguageRelay

structure Message where
  body : String
deriving DecidableEq, Repr, Inhabited

namespace Message

def ofValue (v : Json.Value) : Message := ⟨v.render⟩

def value? (m : Message) : Option Json.Value := Json.Value.read? m.body

def size (m : Message) : Nat := Text.byteLength m.body

def previewSize : Nat := 120

def fitting (room : Nat) : List Char → List Char
  | [] => []
  | c :: rest => if c.utf8Size ≤ room then c :: fitting (room - c.utf8Size) rest else []

-- A short view of the message for logs. A body that is cut shows so.
def preview (m : Message) : String :=
  let shown := fitting previewSize m.body.toList
  let mark := if m.size ≤ previewSize then [] else ['…']
  "LspMessage(" ++ String.ofList (shown ++ mark) ++ ")"

end Message
end LanguageRelay
