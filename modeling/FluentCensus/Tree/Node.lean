namespace FluentCensus

/-- What stands at a place of the file system. A link keeps its target as text, which is followed
    only when a path leads through it. -/
inductive Node where
  | file (bytes : List UInt8)
  | link (target : String)
  | directory (entries : List (String × Node))

abbrev Location := List String

namespace Node

def isDirectory : Node → Bool
  | .directory _ => true
  | _ => false

def isFile : Node → Bool
  | .file _ => true
  | _ => false

def child? (node : Node) (name : String) : Option Node :=
  match node with
  | .directory entries => entries.lookup name
  | _ => none

def at? (node : Node) : Location → Option Node
  | [] => some node
  | name :: rest => (node.child? name).bind (·.at? rest)

def putEntry (name : String) (node : Node) : List (String × Node) → List (String × Node)
  | [] => [(name, node)]
  | (n, old) :: rest =>
    if n = name then (n, node) :: rest else (n, old) :: putEntry name node rest

def put (node new : Node) : Location → Node
  | [] => new
  | name :: rest =>
    match node with
    | .directory entries =>
      .directory (putEntry name (((node.child? name).getD (.directory [])).put new rest) entries)
    | other => other

end Node

end FluentCensus
