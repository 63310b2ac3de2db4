import FluentCensus.Host.Basic
import FluentCensus.Text.Utf8

namespace FluentCensus.Host

def makeDirectory (path : Path) : HostM Unit := do
  setTree (← ask (·.makeDirectory path))

def ensureDirectory (path : Path) : HostM Unit := do
  try makeDirectory path
  catch fault =>
    unless fault.ofFiles && fault != .refused .missing path do throw fault
    unless ← ask (·.isDirectory path) do throw fault

def ensureLevels (path : Path) (levels : Nat) : HostM Unit := do
  try ensureDirectory path
  catch fault =>
    if path.parts ≠ [] ∧ fault = .refused .missing path then
      match levels with
      | 0 => throw .tooManyMissing
      | levels + 1 =>
        ensureLevels path.parent levels
        ensureDirectory path
    else throw fault

def ensureDirectories (path : Path) : HostM Unit := do
  ensureLevels path ((← get).tree.machine.missing path)

/-- An open file, known by its place, with the offset of the next byte and the bytes that have not
    reached the file yet. -/
structure Handle where
  place : Location
  offset : Nat := 0
  pending : List UInt8 := []
deriving DecidableEq

def openWrite (path : Path) : HostM Handle := do
  let (place, tree) ← ask (·.openForWriting path)
  setTree (tree.putBytes place [])
  return { place }

def encode (text : List Char) : HostM (List UInt8) := do
  match (← get).tree.machine.unencodable? text with
  | some fault => throw fault
  | none => return Utf8.encode text

/-- Write bytes to an open file from an offset on. What is written before a failure stays. -/
def store (place : Location) (offset : Nat) (bytes : List UInt8) : HostM Unit := do
  if bytes.isEmpty then return
  let tree := (← get).tree
  let put (bytes : List UInt8) : HostM Unit :=
    setTree (tree.putBytes place (FileTree.overwrite (tree.bytesAt place) offset bytes))
  match tree.machine.stops tree.root place bytes with
  | none => put bytes
  | some (refusal, written) =>
    if written ≠ 0 then put (bytes.take written)
    throw (.unwritten refusal)

def Handle.write (handle : Handle) (text : List Char) : HostM Handle := do
  return { handle with pending := handle.pending ++ (← encode text) }

def Handle.flush (handle : Handle) : HostM Handle := do
  store handle.place handle.offset handle.pending
  return { handle with offset := handle.offset + handle.pending.length, pending := [] }

def writeText (path : Path) (text : List Char) : HostM Unit := do
  let handle ← (← openWrite path).write text
  let _ ← handle.flush

def appendText (path : Path) (text : List Char) : HostM Unit := do
  let (place, tree) ← ask (·.openForWriting path)
  setTree tree
  let bytes ← encode text
  store place (tree.bytesAt place).length bytes

end FluentCensus.Host
