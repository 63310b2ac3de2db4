import FluentCensus.CommandLine.Run

namespace FluentCensus.Terminal

/-- What stands at an entry of the disk. A link is kept with the place that it finally leads to. -/
partial def load (entry : IO.FS.DirEntry) : IO Node := do
  match (← entry.path.symlinkMetadata).type with
  | .symlink => return .link (← IO.FS.realPath entry.path).toString
  | .dir =>
    let entries ← (← entry.path.readDir).toList.mapM fun e => return (e.fileName, ← load e)
    return .directory entries
  | _ => return .file (← IO.FS.readBinFile entry.path).toList

/-- A file system that knows also what stands at an absolute path of the disk: all of it, or only
    that it is a directory. What is not on the disk leaves it unchanged. -/
def know (whole : Bool) (root : Node) (path : String) : IO Node := do
  let place := (← IO.currentDir) / path
  if !(← place.pathExists) then return root
  let real ← IO.FS.realPath place
  let location := Path.components real.toString
  if (root.at? location).isSome then return root
  let node ← if whole || !(← real.isDir) then
      load { root := real.parent.getD real, fileName := real.fileName.getD "" }
    else pure (.directory [])
  return root.put node location

def knowWord (root : Node) (path : Path) : IO Node := do
  let above := Dotenv.upwards path.parent (path.parts.length + 1)
  let root ← (above.map Path.toString).foldlM (know false) root
  know true root path.toString

def variableNames : List String := ["HOME", "COLUMNS"] ++
  ["PROJECT_DIR", "OUTPUT_PATH", "TRACE_PATH", "IGNORE_DIRS"].map Settings.variableName

structure Account where
  name : String
  number : String
  home : String

def accountsOf (text : List Char) : List Account :=
  (Text.lines text).filterMap fun line =>
    match (Text.split ':' line).map String.ofList with
    | name :: _ :: number :: _ :: _ :: home :: _ => some { name, number, home }
    | _ => none

def userOf (status : List Char) : Option String :=
  (Text.lines status).findSome? fun line =>
    match (Text.split '\t' line).map String.ofList with
    | "Uid:" :: user :: _ => some user
    | _ => none

def systemText (path : String) : IO (List Char) := do
  try return Utf8.decode (← IO.FS.readBinFile path).toList
  catch _ => return []

def randomId : IO String := do
  let digits ← (List.range 12).mapM fun _ => return Nat.digitChar (← IO.rand 0 15)
  return String.ofList digits

/-- The host with the working directory, the `.env` files above it, and every place that a word of
    the arguments or of the environment names. -/
def observe (arguments : List String) : IO Host := do
  let here := Path.ofString (← IO.currentDir).toString
  let environment ← variableNames.filterMapM fun name => return (← IO.getEnv name).map (name, ·)
  let accounts := accountsOf (← systemText "/etc/passwd")
  let user := userOf (← systemText "/proc/self/status")
  let host : Host := {
    environment
    homes := accounts.map fun a => (a.name, a.home)
    login := (accounts.find? (some ·.number = user)).map Account.home
    runId := ← randomId }
  let attached := arguments.filterMap fun a => (Text.splitAt? '=' a.toList).map Prod.snd
  let words := (environment.map Prod.snd ++ arguments ++ attached.map String.ofList).filter (· ≠ "")
  let paths := words.map fun word =>
    let path := Path.ofString word
    match host.expandHome path with
    | .ok expanded => expanded
    | .error _ => path
  let root ← know true (.directory []) here.toString
  let root ← (Dotenv.upwards here 5).foldlM (fun root p => know true root (p.child ".env").toString)
    root
  let root ← paths.foldlM knowWord root
  return { host with tree := { root, cwd := here.parts } }

/-- Bring the disk from one state of a place to another. Nothing is ever removed. -/
partial def store (path : String) (before : Option Node) : Node → IO Unit
  | .directory entries => do
    if before.isNone then IO.FS.createDirAll path
    for (name, node) in entries do
      store (path ++ "/" ++ name) (before.bind (·.child? name)) node
  | .file bytes => do
    let unchanged := match before with
      | some (.file old) => old == bytes
      | _ => false
    unless unchanged do IO.FS.writeBinFile path ⟨bytes.toArray⟩
  | .link _ => pure ()

end FluentCensus.Terminal

open FluentCensus

def main (arguments : List String) : IO UInt32 := do
  let host ← Terminal.observe arguments
  let (outcome, after) := (CommandLine.run arguments).run.run host
  Terminal.store "" (some host.tree.root) after.tree.root
  IO.print after.output
  IO.eprint after.errors
  match outcome with
  | .ok _ => return 0
  | .error (.exit code) => return code.toUInt32
  | .error fault => do
    IO.eprintln fault.message
    return 1
