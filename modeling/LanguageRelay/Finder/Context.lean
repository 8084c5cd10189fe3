import LanguageRelay.Host.Environment
import LanguageRelay.Settings.Basic
namespace LanguageRelay

structure FinderContext where
  nodeProgram : Option String
  nodeRoots : List String
  rootDirectory : String
deriving DecidableEq, Repr, Inhabited

namespace FinderContext

def nodeNames : List String := ["node", "nodejs"]

-- The context that settings give. Without a configured Node it is looked for on the search path,
-- and without configured directories the server root is the only one.
def ofSettings (host : Host) (node : NodeSettings) (rootDirectory : String) : FinderContext where
  nodeProgram := node.program.or (nodeNames.findSome? host.which)
  nodeRoots := if node.roots = [] then [rootDirectory] else node.roots
  rootDirectory := rootDirectory

def modulePath (parts : List String) (root : String) : String :=
  Path.joinAll (Path.join root "node_modules") parts

def findModule? (context : FinderContext) (host : Host) (parts : List String) : Option String :=
  (context.nodeRoots.map (modulePath parts)).find? host.files.exists?

end FinderContext
end LanguageRelay
