import LanguageRelay.Path.Basic
namespace LanguageRelay.Settings

-- The directory is emptied when the first document arrives, so it has to lie below the server root.
def isPlainBelow (directory : String) : Bool :=
  directory != "" && (Path.components directory).all Path.Component.isNormal

def shadowRoot? (directory root : String) : Option String :=
  if isPlainBelow directory then some (Path.join root directory) else none

def shadowRefusal (directory : String) : String :=
  s!"lsp.shadow.dir must be a relative path below the server root, got {directory}"

end LanguageRelay.Settings
