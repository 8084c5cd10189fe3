import LanguageRelay.Finder.Basic
namespace LanguageRelay

def finderRefusal (finder reason : String) : String :=
  s!"spec finder '{finder}' failed: {reason}"

namespace Finder

def ownKeys (found : Keyed LaunchSpec) : Keyed LaunchSpec := found.filter fun e => e.2.key == e.1

-- A later specification for a key replaces an earlier one, and a finder that fails adds nothing.
def merge (specs : Keyed LaunchSpec) : Finding → Keyed LaunchSpec
  | .ok found => Keyed.override specs (ownKeys found)
  | .error _ => specs

def resolve (finders : List Finder) (host : Host) (context : FinderContext) : Keyed LaunchSpec :=
  (finders.map fun finder => finder.find host context).foldl merge []

end Finder
end LanguageRelay
