import FluentCensus.Tree.Lookup

namespace FluentCensus.FileTree

def makeDirectory (tree : FileTree) (path : Path) : Except Fault FileTree := do
  match ← tree.locate .entry path with
  | .free directory name =>
    return { tree with root := tree.root.put (.directory []) (directory ++ [name]) }
  | .found _ | .self _ => throw (.refused .exists path)

/-- The place of a file to write to. A file that is not there is made, empty, and so is the missing
    target of a link. -/
def openForWriting (tree : FileTree) (path : Path) : Except Fault (Location × FileTree) := do
  match ← tree.locate .written path with
  | .free directory name =>
    let place := directory ++ [name]
    return (place, { tree with root := tree.root.put (.file []) place })
  | .self _ => throw (.refused .isDirectory path)
  | .found place =>
    match tree.root.at? place with
    | some (.file _) => return (place, tree)
    | _ => throw (.refused .isDirectory path)

def bytesAt (tree : FileTree) (place : Location) : List UInt8 :=
  match tree.root.at? place with
  | some (.file bytes) => bytes
  | _ => []

def putBytes (tree : FileTree) (place : Location) (bytes : List UInt8) : FileTree :=
  { tree with root := tree.root.put (.file bytes) place }

/-- Bytes written over others from an offset on. A gap before the offset is filled with zeros. -/
def overwrite (old : List UInt8) (offset : Nat) (new : List UInt8) : List UInt8 :=
  old.take offset ++ List.replicate (offset - old.length) 0 ++ new ++ old.drop (offset + new.length)

end FluentCensus.FileTree
