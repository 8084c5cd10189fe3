namespace LanguageRelay.Text

def splitOn (separator : Char) : List Char → List (List Char)
  | [] => [[]]
  | c :: rest =>
    if c = separator then [] :: splitOn separator rest
    else
      match splitOn separator rest with
      | first :: others => (c :: first) :: others
      | [] => [[c]]

def split (separator : Char) (text : String) : List String :=
  (splitOn separator text.toList).map String.ofList

end LanguageRelay.Text
