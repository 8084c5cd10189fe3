import LanguageRelay.Text.Quoted
namespace LanguageRelay.Settings

inductive BaseUrlFault where
  | notAbsolute (raw : String)
  | wildcard (raw : String)
deriving DecidableEq, Repr

def BaseUrlFault.message : BaseUrlFault → String
  | .notAbsolute raw => "base_url must start with '/': " ++ Text.quoted raw
  | .wildcard raw => "base_url can't contain route wildcards: " ++ Text.quoted raw

def withoutTrailingSlashes (chars : List Char) : List Char :=
  (chars.reverse.dropWhile (· == '/')).reverse

def isWildcard (c : Char) : Bool := c == '\x7b' || c == '\x7d' || c == '*'

def normalizeBaseUrl (raw : String) : Except BaseUrlFault String :=
  if raw.toList.head? ≠ some '/' then .error (.notAbsolute raw)
  else
    match withoutTrailingSlashes raw.toList with
    | [] => .ok "/"
    | trimmed =>
      if trimmed.any isWildcard then .error (.wildcard raw) else .ok (String.ofList trimmed)

end LanguageRelay.Settings
