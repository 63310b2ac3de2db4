import FluentCensus.Tree.Machine

namespace FluentCensus

structure FileTree where
  root : Node := .directory []
  cwd : Location := []
  machine : Machine := {}

inductive Target where
  | found (place : Location)
  /-- Nothing stands there, but its directory does. -/
  | free (directory : Location) (name : String)
  /-- The path ends by staying or going up, and so names no entry. -/
  | self (place : Location)
deriving DecidableEq

inductive Ending where
  | entry
  | target
  /-- It is followed to a file that will be written, and made where it is missing. -/
  | written
deriving DecidableEq

def Ending.access : Ending → Access
  | .entry => .make
  | .target => .look
  | .written => .write

abbrev Trail := List (String × Node)

namespace Trail

def location (trail : Trail) : Location := (trail.map Prod.fst).reverse

def node (trail : Trail) (root : Node) : Node := (trail.head?.map Prod.snd).getD root

def upTo (root : Node) (location : Location) : Trail :=
  location.foldl (fun trail name =>
    match (trail.node root).child? name with
    | some node => (name, node) :: trail
    | none => trail) []

end Trail

namespace FileTree

/-- The steps of a link's target. A slash at its end is an empty step, which asks for a
    directory. -/
def linkSteps (target : String) : List String :=
  Path.components target ++ if target.endsWith "/" then [""] else []

def longestName : Nat := 255

/-- Walk from a directory along the remaining steps. A link stands for the steps of its target, and
    at most `links` links are followed. No file is written where a directory is asked for. -/
def resolve (root : Node) (ending : Ending) (links : Nat) (trail : Trail) :
    List String → Except Refusal Target
  | [] => .ok (.self trail.location)
  | step :: rest =>
    if step = "." ∨ step = "" then resolve root ending links trail rest
    else if step = ".." then resolve root ending links trail.tail rest
    else if rest = [""] ∧ ending = .written then .error .isDirectory
    else if longestName < step.utf8ByteSize then .error .nameTooLong
    else match (trail.node root).child? step with
      | none => if rest.isEmpty then .ok (.free trail.location step) else .error .missing
      | some (.link target) =>
        if rest.isEmpty ∧ ending = .entry then .ok (.found (trail.location ++ [step]))
        else match links with
          | 0 => .error .tooManyLinks
          | links + 1 =>
            let start := if target.startsWith "/" then [] else trail
            resolve root ending links start (linkSteps target ++ rest)
      | some node =>
        if rest.isEmpty then .ok (.found (trail.location ++ [step]))
        else if node.isDirectory then resolve root ending links ((step, node) :: trail) rest
        else .error .notDirectory
termination_by steps => (links, steps.length)

def mostLinks : Nat := 40

def longestPath : Nat := 4095

/-- Whether the system takes a path at all, before what stands there is looked at. -/
def allow (tree : FileTree) (access : Access) (path : Path) : Except Fault Unit :=
  if longestPath < path.toString.utf8ByteSize then .error (.refused .nameTooLong path)
  else match tree.machine.bars access path with
    | some refusal => .error (.refused refusal path)
    | none => .ok ()

def locate (tree : FileTree) (ending : Ending) (path : Path) : Except Fault Target := do
  if '\x00' ∈ path.toString.toList then throw .nulCharacter
  tree.allow ending.access path
  let start := if path.anchor = .relative then Trail.upTo tree.root tree.cwd else []
  match resolve tree.root ending mostLinks start path.parts with
  | .ok target => return target
  | .error refusal => throw (.refused refusal path)

def find (tree : FileTree) (path : Path) : Except Fault (Location × Node) := do
  match ← tree.locate .target path with
  | .found here | .self here =>
    match tree.root.at? here with
    | some node => return (here, node)
    | none => throw (.refused .missing path)
  | .free .. => throw (.refused .missing path)

def realPath (tree : FileTree) (path : Path) : Path :=
  match tree.find path with
  | .ok (place, _) => ⟨.root, place⟩
  | .error _ => path

/-- Asking what stands at a path fails only where more is wrong than that nothing does. -/
def check (tree : FileTree) (path : Path) (test : Node → Bool) : Except Fault Bool :=
  match tree.find path with
  | .ok (_, node) => .ok (test node)
  | .error (.refused refusal p) =>
    if refusal.isAbsence then .ok false else .error (.refused refusal p)
  | .error _ => .ok false

def isDirectory (tree : FileTree) (path : Path) : Except Fault Bool :=
  tree.check path Node.isDirectory

def isFile (tree : FileTree) (path : Path) : Except Fault Bool :=
  tree.check path Node.isFile

def read (tree : FileTree) (path : Path) : Except Fault (List UInt8) := do
  let (_, node) ← tree.find path
  tree.allow .read path
  match node with
  | .file bytes => return bytes
  | _ => throw (.refused .isDirectory path)

def list (tree : FileTree) (path : Path) : Except Fault (List (String × Node)) := do
  match ← tree.find path with
  | (_, .directory entries) =>
    tree.allow .list path
    return entries
  | _ => throw (.refused .notDirectory path)

def subdirectories (tree : FileTree) (path : Path) : Except Fault (List Path) := do
  let names := ((← tree.list path).filter (·.2.isDirectory)).map Prod.fst
  return (names.mergeSort (· ≤ ·)).map path.child

end FileTree

end FluentCensus
