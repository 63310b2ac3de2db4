import FluentCensus.Csv.Row
import FluentCensus.Host.Files

namespace FluentCensus.Csv

structure Writer where
  path : Path
  handle : Option Host.Handle := none
deriving DecidableEq

namespace Writer

def close (w : Writer) : HostM Writer := do
  if let some handle := w.handle then
    let _ ← handle.flush
  return { w with handle := none }

/-- Start the file anew. Its header stays pending until the first rows, and a file that was still
    open is closed only once the new one is, whatever that comes to. -/
def start (w : Writer) : HostM Writer := do
  Host.ensureDirectories w.path.parent
  let handle ← Host.openWrite w.path
  try
    let _ ← w.close
  catch _ => pure ()
  return { w with handle := some (← handle.write (endLine header)) }

def add (w : Writer) (s : Survey) : HostM (Nat × Writer) := do
  match w.handle with
  | none => throw .writerClosed
  | some handle =>
    let rows := rows s
    return (rows.length, { w with handle := some (← handle.write (rows.flatMap endLine)) })

def flush (w : Writer) : HostM Writer := do
  match w.handle with
  | none => return w
  | some handle => return { w with handle := some (← handle.flush) }

def append (w : Writer) (s : Survey) : HostM (Nat × Writer) := do
  let (count, filled) ← w.add s
  return (count, ← filled.flush)

end Writer

end FluentCensus.Csv
