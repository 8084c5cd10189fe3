import LanguageRelay.Document.File
import LanguageRelay.Mirror.Plan
namespace LanguageRelay.Mirror
open Host

structure Writer where
  root : String
  started : Bool
deriving DecidableEq, Repr, Inhabited

def reset (root : String) (files : FileSystem) : FileSystem :=
  match files.removeAll root with
  | .ok removed => (removed.createAll root).2
  | .error .notFound => (files.createAll root).2
  | .error _ => files

-- A job that fails is given up, with what it has made so far.
def perform (job : Job) (files : FileSystem) : FileSystem :=
  match TextFile.read files job.path with
  | .ok file => ((file.change job.changes).write files).2
  | .error _ => files

def Writer.work (writer : Writer) (files : FileSystem) (job : Job) : Writer × FileSystem :=
  let ready := if writer.started then files else reset writer.root files
  ({ writer with started := true }, perform job ready)

def Writer.workAll (writer : Writer) (files : FileSystem) (jobs : List Job) : Writer × FileSystem :=
  jobs.foldl (fun state job => state.1.work state.2 job) (writer, files)

end LanguageRelay.Mirror
