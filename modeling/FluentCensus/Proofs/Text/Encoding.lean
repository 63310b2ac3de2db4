import FluentCensus.Text.Utf8
import Mathlib

namespace FluentCensus.Utf8

variable {read : List Char} {p : Unfinished} {b v : Nat}

def Scalar (v : Nat) : Prop := v < 0xd800 ∨ 0xdfff < v ∧ v < 0x110000

theorem scalar_toNat (c : Char) : Scalar c.toNat := c.valid

theorem step_opening (byte : b < 256) (high : 0x80 ≤ b) (opened : opening? b = some p) :
    Decoding.step { read } (UInt8.ofNat b) = { open? := some p, read } := by
  have value : (UInt8.ofNat b).toNat = b := Nat.mod_eq_of_lt byte
  rw [Decoding.step, Decoding.first, value, if_neg (Nat.not_lt.mpr high), opened]

theorem step_more {n : Nat} (sum : Nat) (byte : b < 256) (low : p.low ≤ b) (high : b ≤ p.high)
    (missing : p.missing = n + 2) (bits : p.bits * 0x40 + (b - 0x80) = sum) :
    Decoding.step { open? := some p, read } (UInt8.ofNat b) =
      { open? := some { missing := n + 1, bits := sum }, read } := by
  have value : (UInt8.ofNat b).toNat = b := Nat.mod_eq_of_lt byte
  rw [Decoding.step, value]
  dsimp only
  rw [if_pos ⟨low, high⟩, if_neg (by omega), missing, bits]
  rfl

theorem step_last (byte : b < 256) (low : p.low ≤ b) (high : b ≤ p.high) (last : p.missing = 1)
    (bits : p.bits * 0x40 + (b - 0x80) = v) :
    Decoding.step { open? := some p, read } (UInt8.ofNat b) = { read := Char.ofNat v :: read } := by
  have value : (UInt8.ofNat b).toNat = b := Nat.mod_eq_of_lt byte
  rw [Decoding.step, value]
  dsimp only
  rw [if_pos ⟨low, high⟩, if_pos (by omega), bits]

/-- What the first byte of a character opens goes on with its second byte, and holds the bits that
    the first byte carries. -/
structure Opens (p : Unfinished) (missing bits second : Nat) : Prop where
  missing : p.missing = missing
  bits : p.bits = bits
  low : p.low ≤ second
  high : second ≤ p.high

theorem opening?_two (wide : 0x7f < v) (short : v ≤ 0x7ff) :
    ∃ p, opening? (v / 64 % 32 + 192) = some p ∧ Opens p 1 (v / 64) (v % 64 + 128) := by
  unfold opening?
  rw [if_pos (by omega)]
  refine ⟨_, rfl, rfl, ?_, ?_, ?_⟩ <;> dsimp only <;> omega

-- The first bytes 0xe0 and 0xed have ranges of their own, which shut out what is shorter and what
-- is a surrogate.
theorem opening?_three (scalar : Scalar v) (wide : 0x7ff < v) (short : v ≤ 0xffff) :
    ∃ p, opening? (v / 4096 % 16 + 224) = some p ∧ Opens p 2 (v / 4096) (v / 64 % 64 + 128) := by
  unfold Scalar at scalar
  unfold opening?
  rw [if_neg (by omega)]
  split
  · refine ⟨_, rfl, rfl, ?_, ?_, ?_⟩ <;> dsimp only <;> omega
  · split
    · refine ⟨_, rfl, rfl, ?_, ?_, ?_⟩ <;> dsimp only <;> omega
    · rw [if_pos (by omega)]
      refine ⟨_, rfl, rfl, ?_, ?_, ?_⟩ <;> dsimp only <;> omega

theorem opening?_four (scalar : Scalar v) (wide : 0xffff < v) :
    ∃ p, opening? (v / 262144 % 8 + 240) = some p ∧
      Opens p 3 (v / 262144) (v / 4096 % 64 + 128) := by
  unfold Scalar at scalar
  unfold opening?
  rw [if_neg (by omega), if_neg (by omega), if_neg (by omega), if_neg (by omega)]
  split
  · refine ⟨_, rfl, rfl, ?_, ?_, ?_⟩ <;> dsimp only <;> omega
  · split
    · refine ⟨_, rfl, rfl, ?_, ?_, ?_⟩ <;> dsimp only <;> omega
    · rw [if_pos (by omega)]
      refine ⟨_, rfl, rfl, ?_, ?_, ?_⟩ <;> dsimp only <;> omega

theorem tail_bounds (v : Nat) : v % 64 + 128 < 256 ∧ 0x80 ≤ v % 64 + 128 ∧ v % 64 + 128 ≤ 0xbf := by
  omega

theorem foldl_char (read : List Char) (c : Char) :
    (String.utf8EncodeChar c).foldl Decoding.step { read } = { read := c :: read } := by
  have scalar := scalar_toNat c
  have same : c = Char.ofNat c.toNat := (Char.ofNat_toNat c).symm
  have value : c.val.toNat = c.toNat := rfl
  unfold String.utf8EncodeChar
  rw [value]
  generalize c.toNat = v at scalar same
  subst same
  obtain ⟨byte, least, most⟩ := tail_bounds v
  obtain ⟨byte', least', most'⟩ := tail_bounds (v / 64)
  dsimp only
  split
  · rename_i ascii
    have unchanged : (UInt8.ofNat v).toNat = v := Nat.mod_eq_of_lt (by omega)
    rw [List.foldl_cons, List.foldl_nil, Decoding.step, unchanged]
    dsimp only
    rw [Decoding.first, if_pos (by omega)]
  · split
    · rename_i wide short
      obtain ⟨p, opened, missing, bits, low, high⟩ := opening?_two (by omega) short
      simp only [List.foldl_cons, List.foldl_nil]
      rw [step_opening (by omega) (by omega) opened, step_last byte low high missing]
      omega
    · split
      · rename_i wide short
        obtain ⟨p, opened, missing, bits, low, high⟩ := opening?_three scalar (by omega) short
        simp only [List.foldl_cons, List.foldl_nil]
        rw [step_opening (by omega) (by omega) opened,
          step_more (v / 64) byte' low high missing (by omega),
          step_last byte least most rfl]
        dsimp only
        omega
      · rename_i wide
        obtain ⟨p, opened, missing, bits, low, high⟩ := opening?_four scalar (by omega)
        simp only [List.foldl_cons, List.foldl_nil]
        rw [step_opening (by omega) (by omega) opened,
          step_more (v / 4096) (by omega) low high missing (by omega),
          step_more (v / 64) byte' least' most' rfl (by dsimp only; omega),
          step_last byte least most rfl]
        dsimp only
        omega

theorem foldl_encode (read text : List Char) :
    (encode text).foldl Decoding.step { read } = { read := text.reverse ++ read } := by
  induction text generalizing read with
  | nil => rfl
  | cons c rest ih =>
    rw [encode, List.flatMap_cons, List.foldl_append, foldl_char, ← encode, ih,
      List.reverse_cons, List.append_assoc]
    rfl

theorem encode_append (first second : List Char) :
    encode (first ++ second) = encode first ++ encode second :=
  List.flatMap_append

theorem decode_encode (text : List Char) : decode (encode text) = text := by
  rw [decode, foldl_encode, List.append_nil]
  exact List.reverse_reverse text

end FluentCensus.Utf8
