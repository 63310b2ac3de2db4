import FluentCensus.Json.Basic

namespace FluentCensus.Json

def skipSpace : List Char → List Char
  | [] => []
  | c :: rest => if c ∈ [' ', '\t', '\n', '\r'] then skipSpace rest else c :: rest

def hexDigit? (c : Char) : Option Nat :=
  if '0' ≤ c ∧ c ≤ '9' then some (c.toNat - '0'.toNat)
  else if 'a' ≤ c ∧ c ≤ 'f' then some (c.toNat - 'a'.toNat + 10)
  else if 'A' ≤ c ∧ c ≤ 'F' then some (c.toNat - 'A'.toNat + 10)
  else none

def hexUnit? (a b c d : Char) : Option Nat := do
  return (((← hexDigit? a) * 16 + (← hexDigit? b)) * 16 + (← hexDigit? c)) * 16 + (← hexDigit? d)

def unescape? (c : Char) : Option Char :=
  match c with
  | '"' | '\\' | '/' => some c
  | 'n' => some '\n'
  | 'r' => some '\r'
  | 't' => some '\t'
  | 'b' => some '\x08'
  | 'f' => some '\x0c'
  | _ => none

def highUnit (u : Nat) : Bool := 0xd800 ≤ u ∧ u < 0xdc00

def lowUnit (u : Nat) : Bool := 0xdc00 ≤ u ∧ u < 0xe000

/-- The rest of a string after its opening quote. The characters read stand newest first, and
    `high` is a first half of a surrogate pair, whose second half has to follow. -/
def readString (read : List Char) (high : Option Nat) : List Char → Option (String × List Char)
  | '\\' :: 'u' :: a :: b :: c :: d :: rest =>
    match hexUnit? a b c d, high with
    | none, _ => none
    | some u, some h =>
      if lowUnit u then
        readString (Char.ofNat (0x10000 + (h - 0xd800) * 0x400 + (u - 0xdc00)) :: read) none rest
      else none
    | some u, none =>
      if highUnit u then readString read (some u) rest
      else if lowUnit u then none
      else readString (Char.ofNat u :: read) none rest
  | '\\' :: c :: rest =>
    match unescape? c, high with
    | some c, none => readString (c :: read) none rest
    | _, _ => none
  | '"' :: rest => if high.isNone then some (String.ofList read.reverse, rest) else none
  | c :: rest =>
    if c.toNat < 0x20 ∨ high.isSome then none else readString (c :: read) none rest
  | [] => none

def isDigit (c : Char) : Bool := '0' ≤ c && c ≤ '9'

def digitValue (digits : List Char) : Nat :=
  digits.foldl (fun n c => 10 * n + (c.toNat - '0'.toNat)) 0

def readFraction : List Char → Option (List Char × List Char)
  | '.' :: rest =>
    match rest.span isDigit with
    | ([], _) => none
    | found => some found
  | rest => some ([], rest)

def readExponent : List Char → Option (Option Int × List Char)
  | c :: rest =>
    if c = 'e' ∨ c = 'E' then
      let (negative, rest) := match rest with
        | '-' :: rest => (true, rest)
        | '+' :: rest => (false, rest)
        | rest => (false, rest)
      match rest.span isDigit with
      | ([], _) => none
      | (digits, rest) =>
        let n : Int := digitValue digits
        some (some (if negative then -n else n), rest)
    else some (none, c :: rest)
  | [] => some (none, [])

def readDigits (negative : Bool) (text : List Char) : Option (Json × List Char) := do
  let (whole, text) := text.span isDigit
  if whole.isEmpty ∨ (whole.length ≠ 1 ∧ whole.head? = some '0') then none
  let (fraction, text) ← readFraction text
  let (exponent, text) ← readExponent text
  if fraction.isEmpty ∧ exponent.isNone then
    let n : Int := digitValue whole
    return (.int (if negative then -n else n), text)
  else
    let d : Decimal :=
      ⟨negative, digitValue (whole ++ fraction), exponent.getD 0 - fraction.length⟩
    return (.real d.trim, text)

def readNumber (text : List Char) : Option (Json × List Char) :=
  let (negative, text) := match text with
    | '-' :: rest => (true, rest)
    | rest => (false, rest)
  match text with
  | 'I' :: 'n' :: 'f' :: 'i' :: 'n' :: 'i' :: 't' :: 'y' :: rest => some (.infinity negative, rest)
  | text => readDigits negative text

mutual

/-- One value at the head of a text, and the text after it. The fuel bounds the number of values
    and brackets. -/
def readValue : Nat → List Char → Option (Json × List Char)
  | 0, _ => none
  | fuel + 1, text =>
    match skipSpace text with
    | '"' :: rest => (readString [] none rest).map fun (s, rest) => (.string s, rest)
    | '[' :: rest =>
      match skipSpace rest with
      | ']' :: rest => some (.array [], rest)
      | rest => readItems fuel [] rest
    | '{' :: rest =>
      match skipSpace rest with
      | '}' :: rest => some (.object [], rest)
      | rest => readMembers fuel [] rest
    | 'n' :: 'u' :: 'l' :: 'l' :: rest => some (.null, rest)
    | 't' :: 'r' :: 'u' :: 'e' :: rest => some (.bool true, rest)
    | 'f' :: 'a' :: 'l' :: 's' :: 'e' :: rest => some (.bool false, rest)
    | 'N' :: 'a' :: 'N' :: rest => some (.undefined, rest)
    | rest => readNumber rest

def readItems : Nat → List Json → List Char → Option (Json × List Char)
  | 0, _, _ => none
  | fuel + 1, read, text =>
    match readValue fuel text with
    | none => none
    | some (v, rest) =>
      match skipSpace rest with
      | ',' :: rest => readItems fuel (v :: read) rest
      | ']' :: rest => some (.array (v :: read).reverse, rest)
      | _ => none

def readMembers : Nat → List (String × Json) → List Char → Option (Json × List Char)
  | 0, _, _ => none
  | fuel + 1, read, text =>
    match skipSpace text with
    | '"' :: rest =>
      match readString [] none rest with
      | none => none
      | some (name, rest) =>
        match skipSpace rest with
        | ':' :: rest =>
          match readValue fuel rest with
          | none => none
          | some (v, rest) =>
            match skipSpace rest with
            | ',' :: rest => readMembers fuel ((name, v) :: read) rest
            | '}' :: rest => some (.object ((name, v) :: read).reverse, rest)
            | _ => none
        | _ => none
    | _ => none

end

def read? (text : List Char) : Option Json :=
  match readValue (text.length + 1) text with
  | some (v, rest) => if (skipSpace rest).isEmpty then some v else none
  | none => none

end FluentCensus.Json
