namespace LanguageRelay.Text

-- The property `White_Space`, which is wider than `Char.isWhitespace`.
def isBlank (c : Char) : Bool :=
  let n := c.toNat
  (9 ≤ n && n ≤ 13) || n == 0x20 || n == 0x85 || n == 0xA0 || n == 0x1680
    || (0x2000 ≤ n && n ≤ 0x200A) || n == 0x2028 || n == 0x2029 || n == 0x202F || n == 0x205F
    || n == 0x3000

def dropBlanks (chars : List Char) : List Char := chars.dropWhile isBlank

def trimChars (chars : List Char) : List Char := (dropBlanks (dropBlanks chars).reverse).reverse

def trim (text : String) : String := String.ofList (trimChars text.toList)

def isAllBlank (text : String) : Bool := text.toList.all isBlank

end LanguageRelay.Text
