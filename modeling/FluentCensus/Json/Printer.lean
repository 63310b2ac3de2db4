import FluentCensus.Json.Basic

namespace FluentCensus.Json

def reals : Decimal.Layout := ⟨-4, 15, 2⟩

/-- Quotes, backslashes and the characters below the space are escaped and nothing else is. -/
def escape (c : Char) : List Char :=
  match c with
  | '"' => ['\\', '"']
  | '\\' => ['\\', '\\']
  | '\n' => ['\\', 'n']
  | '\r' => ['\\', 'r']
  | '\t' => ['\\', 't']
  | '\x08' => ['\\', 'b']
  | '\x0c' => ['\\', 'f']
  | c =>
    if c.toNat < 0x20 then
      ['\\', 'u', '0', '0', Nat.digitChar (c.toNat / 16), Nat.digitChar (c.toNat % 16)]
    else [c]

def quoted (s : String) : List Char :=
  '"' :: (s.toList.flatMap escape ++ ['"'])

def infinityWord : List Char := ['I', 'n', 'f', 'i', 'n', 'i', 't', 'y']

def undefinedWord : List Char := ['N', 'a', 'N']

theorem sizeOf_member_lt {members : List (String × Json)} {m : String × Json} (h : m ∈ members) :
    sizeOf m.2 < sizeOf members := by
  have := List.sizeOf_lt_of_mem h
  obtain ⟨name, value⟩ := m
  simp at this ⊢
  omega

def text : Json → List Char
  | .null => ['n', 'u', 'l', 'l']
  | .bool true => ['t', 'r', 'u', 'e']
  | .bool false => ['f', 'a', 'l', 's', 'e']
  | .int n => intText n
  | .real x => x.text reals
  | .infinity negative => (if negative then ['-'] else []) ++ infinityWord
  | .undefined => undefinedWord
  | .string s => quoted s
  | .array items => '[' :: ([',', ' '].intercalate (items.map text) ++ [']'])
  | .object members =>
    '{' :: ([',', ' '].intercalate (members.map fun m => quoted m.1 ++ ':' :: ' ' :: text m.2) ++
      ['}'])
termination_by v => sizeOf v
decreasing_by
  all_goals simp_wf
  · have := List.sizeOf_lt_of_mem ‹_ ∈ items›
    omega
  · have := sizeOf_member_lt ‹_ ∈ members›
    omega

def newLine (depth : Nat) : List Char := '\n' :: List.replicate (2 * depth) ' '

def indented (depth : Nat) : Json → List Char
  | .array [] => ['[', ']']
  | .object [] => ['{', '}']
  | .array items =>
    '[' :: (newLine (depth + 1) ++
      (',' :: newLine (depth + 1)).intercalate (items.map (indented (depth + 1))) ++
      newLine depth ++ [']'])
  | .object members =>
    '{' :: (newLine (depth + 1) ++
      (',' :: newLine (depth + 1)).intercalate
        (members.map fun m => quoted m.1 ++ ':' :: ' ' :: indented (depth + 1) m.2) ++
      newLine depth ++ ['}'])
  | v => text v
termination_by v => sizeOf v
decreasing_by
  all_goals simp_wf
  · have := List.sizeOf_lt_of_mem ‹_ ∈ items›
    omega
  · have := sizeOf_member_lt ‹_ ∈ members›
    omega

end FluentCensus.Json
