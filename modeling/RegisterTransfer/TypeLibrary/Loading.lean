import RegisterTransfer.TypeLibrary.Configuration

/-!
Loading the type libraries of an environment. Each declared library is loaded once for every loader
entry with its label, in order of declaration, and the first failure ends the load.
-/
namespace RegisterTransfer.TypeLibrary

structure Job where
  path : String
  typeName : String
deriving DecidableEq, Repr

namespace Configuration

def jobsOf (c : Configuration) (entry : LibraryEntry) : List Job :=
  if entry.loader.isEmpty then []
  else
    (c.loaders.filter (·.label == entry.loader)).map fun l => ⟨c.path entry.name, l.typeName⟩

def jobs (c : Configuration) (e : Environment) : List Job := e.libraries.flatMap c.jobsOf

end Configuration

/-- A missing file comes before an unknown loader type, and that before a fault in the file. -/
def Job.run (job : Job) (files : FileStore) (loaders : Loaders) (convention : String) :
    Except Error Library :=
  match files job.path with
  | .error reason => .error (.unreadable job.path reason)
  | .ok bytes => do
    let loader ← loaders.find job.typeName
    loader.load convention job.path bytes

def runJobs (files : FileStore) (loaders : Loaders) (convention : String) :
    List Job → Except Error (List Library) × List String
  | [] => (.ok [], [])
  | job :: rest =>
    match job.run files loaders convention with
    | .error e => (.error e, [job.path])
    | .ok library =>
      let (libraries, paths) := runJobs files loaders convention rest
      (libraries.map (library :: ·), job.path :: paths)

def loadLibraries (c : Configuration) (files : FileStore) (loaders : Loaders)
    (convention environment : String) : Except Error (List Library) × List String :=
  match c.environment? environment with
  | none => (.error (.unknownEnvironment environment), [])
  | some e => runJobs files loaders convention (c.jobs e)

end RegisterTransfer.TypeLibrary
