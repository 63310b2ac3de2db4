import FluentCensus.Fault
import FluentCensus.Tree.Node

namespace FluentCensus

inductive Access where
  | look
  | read
  | list
  | make
  | write
deriving DecidableEq

/-- What the system does beside keeping files: its permissions, its limits and how its disk fails.
    The numbers stand for one machine with a recursion limit of 1000 and room for 64 GiB. -/
structure Machine where
  bars : Access → Path → Option Refusal := fun _ _ => none
  /-- Why a write of bytes to a file stops before its end, and after how many of them. -/
  stops : Node → Location → List UInt8 → Option (Refusal × Nat) := fun _ _ _ => none
  /-- A byte of a name that is no text is written there as a character that stands in for it. -/
  byte? : Char → Option UInt8 := fun _ => none
  /-- The most directories that a walk enters one below the other. -/
  nesting : Nat := 988
  /-- The most directories above a path that are made with it. -/
  missing : Path → Nat := fun _ => 988
  /-- Whether there is memory for a list of so many items. -/
  memory : Nat → Bool := fun items => items ≤ 0x200000000

namespace Machine

def standIn? (m : Machine) (c : Char) : Option UInt8 :=
  if c.toNat < 0x80 then none else m.byte? c

def encodable (m : Machine) (text : List Char) : Bool := text.all fun c => (m.standIn? c).isNone

def unencodable? (m : Machine) (text : List Char) : Option Fault :=
  match text.dropWhile fun c => (m.standIn? c).isNone with
  | [] => none
  | c :: rest =>
    let first := text.length - (rest.length + 1)
    let last := first + (rest.takeWhile fun c => (m.standIn? c).isSome).length
    some (.unencodable ((m.standIn? c).getD 0) first last)

end Machine

end FluentCensus
