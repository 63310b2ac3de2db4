namespace FluentCensus.Utf8

/-- What an unfinished sequence still needs: the number of bytes, the range of the next one, and
    the value of the bits so far. -/
structure Unfinished where
  missing : Nat
  low : Nat := 0x80
  high : Nat := 0xbf
  bits : Nat
deriving DecidableEq

/-- What a first byte opens, if it opens a sequence. The ranges leave out overlong sequences,
    surrogates and what lies above U+10FFFF. -/
def opening? (b : Nat) : Option Unfinished :=
  if 0xc2 ≤ b ∧ b ≤ 0xdf then some { missing := 1, bits := b - 0xc0 }
  else if b = 0xe0 then some { missing := 2, low := 0xa0, bits := 0 }
  else if b = 0xed then some { missing := 2, high := 0x9f, bits := 0xd }
  else if 0xe1 ≤ b ∧ b ≤ 0xef then some { missing := 2, bits := b - 0xe0 }
  else if b = 0xf0 then some { missing := 3, low := 0x90, bits := 0 }
  else if 0xf1 ≤ b ∧ b ≤ 0xf3 then some { missing := 3, bits := b - 0xf0 }
  else if b = 0xf4 then some { missing := 3, high := 0x8f, bits := 4 }
  else none

structure Decoding where
  open? : Option Unfinished := none
  read : List Char := []
deriving DecidableEq

def replacement : Char := '\ufffd'

def Decoding.first (read : List Char) (b : Nat) : Decoding :=
  if b < 0x80 then { read := Char.ofNat b :: read }
  else match opening? b with
    | some p => { open? := some p, read }
    | none => { read := replacement :: read }

/-- A byte that cannot go on with the open sequence replaces it as a whole and then begins anew. -/
def Decoding.step (d : Decoding) (byte : UInt8) : Decoding :=
  let b := byte.toNat
  match d.open? with
  | none => first d.read b
  | some p =>
    if p.low ≤ b ∧ b ≤ p.high then
      let bits := p.bits * 0x40 + (b - 0x80)
      if p.missing ≤ 1 then { read := Char.ofNat bits :: d.read }
      else { d with open? := some { missing := p.missing - 1, bits } }
    else first (replacement :: d.read) b

def Decoding.finish (d : Decoding) : List Char :=
  (if d.open?.isSome then replacement :: d.read else d.read).reverse

/-- The text of any bytes, with one replacement character for every longest run of bytes that
    begins a sequence but does not finish it, and for every byte that begins none. -/
def decode (bytes : List UInt8) : List Char :=
  (bytes.foldl Decoding.step {}).finish

def encode (text : List Char) : List UInt8 :=
  text.flatMap String.utf8EncodeChar

end FluentCensus.Utf8
