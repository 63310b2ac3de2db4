import FluentCensus.Tree.Lookup

namespace FluentCensus.FileTree

/-- Whether the entry at a path is a directory or a link that leads to one. A link that cannot be
    followed, because of its own or because of the path to it, leads to none. -/
def leadsToDirectory (tree : FileTree) (path : Path) : Node → Bool
  | .directory _ => true
  | .file _ => false
  | .link _ =>
    match tree.find path with
    | .ok (_, node) => node.isDirectory
    | .error _ => false

/-- A path as a walk that starts here spells it. What lies in the current directory is led to from
    a dot. -/
def spelling (start path : Path) : Path :=
  if start.anchor = .relative ∧ start.parts.isEmpty then path.dotted else path

/-- The wanted files below a directory: its own by name, then those of its sub-directories by name.
    Ignored names are not entered, and links are neither entered nor, where they lead to a
    directory, wanted. A directory that lies more than `levels` deep, or that may not be listed
    under its path as it is spelled, ends the walk. -/
def walk (tree : FileTree) (wanted : String → Bool) (ignored : List String)
    (spelled : Path → Path) : Nat → Path → Node → Except Fault (List Path)
  | 0, _, .directory _ => .error .tooDeep
  | levels + 1, path, .directory entries => do
    tree.allow .list (spelled path)
    let files := entries.filter fun e =>
      !tree.leadsToDirectory (spelled (path.child e.1)) e.2 && wanted e.1
    let below := entries.map fun e => (e.1, if e.1 ∈ ignored then .ok []
      else walk tree wanted ignored spelled levels (path.child e.1) e.2)
    let found ← (below.mergeSort (·.1 ≤ ·.1)).mapM Prod.snd
    return ((files.map Prod.fst).mergeSort (· ≤ ·)).map path.child ++ found.flatten
  | _, _, _ => .ok []

def isJava (name : String) : Bool := Path.suffixOf name = ".java"

def javaFiles (tree : FileTree) (ignored : List String) (path : Path) :
    Except Fault (List Path) := do
  unless ← tree.isDirectory path do throw (.noProject path)
  tree.walk isJava ignored (spelling path) tree.machine.nesting path (← tree.find path).2

end FluentCensus.FileTree
