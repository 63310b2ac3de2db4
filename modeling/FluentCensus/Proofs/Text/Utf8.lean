import FluentCensus.Proofs.Source.Blur
import FluentCensus.Project

namespace FluentCensus

def isWide (c : Char) : Bool := 0x80 ≤ c.toNat

theorem isNameChar_wide {c : Char} (wide : isWide c) : Lexeme.isNameChar c := by
  have above : 0x80 ≤ c.toNat := of_decide_eq_true wide
  have unlike (d : Char) (small : d.toNat < 0x80) : c ≠ d := by
    rintro rfl
    omega
  have space : Lexeme.isSpace c = false := by
    simp [Lexeme.isSpace, unlike]
  have punctuation : Lexeme.isPunctuation c = false := by
    simp [Lexeme.isPunctuation, unlike]
  have single : Lexeme.single? c = none := by
    rw [Lexeme.single?] <;> simp [unlike, punctuation]
  simp [Lexeme.isNameChar, space, single]

namespace Utf8

def isAscii (byte : UInt8) : Bool := byte.toNat < 0x80

/-- Every byte as one character: itself if it is ASCII, and else the letter `x`. -/
def mask (bytes : List UInt8) : List Char :=
  bytes.map fun byte => if isAscii byte then Char.ofNat byte.toNat else 'x'

theorem toNat_ofNat {n : Nat} (scalar : n < 0xd800 ∨ 0xdfff < n ∧ n < 0x110000) :
    (Char.ofNat n).toNat = n := by
  have valid : n.isValidChar := scalar
  rw [Char.ofNat, dif_pos valid]
  rfl

theorem isWide_ofNat {n : Nat} (above : 0x80 ≤ n)
    (scalar : n < 0xd800 ∨ 0xdfff < n ∧ n < 0x110000) :
    isWide (Char.ofNat n) := by
  simp [isWide, toNat_ofNat scalar, above]

theorem isWide_replacement : isWide replacement := by decide

/-- Only bytes above ASCII go on with the sequence, and its end stands for a wide character. -/
inductive Unfinished.Wide : Unfinished → Prop where
  | last {p : Unfinished} (above : 0x80 ≤ p.low) (missing : p.missing ≤ 1)
      (wide : ∀ b, p.low ≤ b → b ≤ p.high → isWide (Char.ofNat (p.bits * 0x40 + (b - 0x80)))) :
      Wide p
  | more {p : Unfinished} (above : 0x80 ≤ p.low) (missing : ¬ p.missing ≤ 1)
      (wide : ∀ b, p.low ≤ b → b ≤ p.high →
        Wide { missing := p.missing - 1, bits := p.bits * 0x40 + (b - 0x80) }) :
      Wide p

namespace Unfinished.Wide

theorem above {p : Unfinished} (wide : p.Wide) : 0x80 ≤ p.low := by
  cases wide <;> assumption

theorem one {bits : Nat} (long : 2 ≤ bits)
    (scalar : bits < 0x360 ∨ 0x37f < bits ∧ bits < 0x4400) : Wide { missing := 1, bits } := by
  refine .last (Nat.le_refl _) (Nat.le_refl _) fun b low high => isWide_ofNat ?_ ?_
  · dsimp only at low high ⊢
    omega
  · dsimp only at low high ⊢
    omega

theorem two {low high bits : Nat} (above : 0x80 ≤ low) (below : high ≤ 0xbf)
    (long : 2 ≤ bits * 0x40 + (low - 0x80))
    (scalar : bits * 0x40 + (high - 0x80) < 0x360 ∨
      0x37f < bits * 0x40 + (low - 0x80) ∧ bits < 0x110) :
    Wide { missing := 2, low, high, bits } := by
  refine .more above (show ¬ 2 ≤ 1 by decide) fun b least most => one ?_ ?_
  · dsimp only at least most ⊢
    omega
  · dsimp only at least most ⊢
    omega

theorem three {low high bits : Nat} (above : 0x80 ≤ low) (below : high ≤ 0xbf)
    (long : 0x10 ≤ bits * 0x40 + (low - 0x80)) (short : bits * 0x40 + (high - 0x80) < 0x110) :
    Wide { missing := 3, low, high, bits } := by
  refine .more above (show ¬ 3 ≤ 1 by decide) fun b least most => ?_
  refine two (Nat.le_refl _) (Nat.le_refl _) ?_ ?_
  · dsimp only at least most ⊢
    omega
  · dsimp only at least most ⊢
    omega

end Unfinished.Wide

theorem opening?_wide {b : Nat} {p : Unfinished} (opened : opening? b = some p) : p.Wide := by
  -- The first byte bounds the second one so that neither a surrogate nor a sequence that is too
  -- long or too high can be spelled.
  unfold opening? at opened
  repeat' split at opened
  all_goals cases opened
  · exact .one (by omega) (by omega)
  · exact .two (by decide) (by decide) (by decide) (by decide)
  · exact .two (by decide) (by decide) (by decide) (by decide)
  · exact .two (by decide) (by decide) (by omega) (by omega)
  · exact .three (by decide) (by decide) (by decide) (by decide)
  · exact .three (by decide) (by decide) (by omega) (by omega)
  · exact .three (by decide) (by decide) (by decide) (by decide)

namespace Decoding

def Wide (d : Decoding) : Prop := ∀ p, d.open? = some p → p.Wide

theorem first_ascii (read : List Char) {b : Nat} (ascii : b < 0x80) :
    first read b = { read := Char.ofNat b :: read } :=
  if_pos ascii

theorem first_finish (read : List Char) {b : Nat} (high : ¬ b < 0x80) :
    (first read b).Wide ∧ (first read b).finish = read.reverse ++ [replacement] := by
  rw [first, if_neg high]
  cases opened : opening? b with
  | none => exact ⟨fun _ => nofun, by simp [finish]⟩
  | some p =>
    refine ⟨fun q same => ?_, by simp [finish]⟩
    cases same
    exact opening?_wide opened

theorem step_ascii {d : Decoding} (wide : d.Wide) {byte : UInt8} (ascii : isAscii byte) :
    (d.step byte).Wide ∧ (d.step byte).finish = d.finish ++ [Char.ofNat byte.toNat] := by
  have small : byte.toNat < 0x80 := of_decide_eq_true ascii
  obtain ⟨unfinished, read⟩ := d
  cases unfinished with
  | none =>
    simp only [step, first_ascii read small]
    exact ⟨fun _ => nofun, by simp [finish]⟩
  | some p =>
    have above := (wide p rfl).above
    have outside : ¬ (p.low ≤ byte.toNat ∧ byte.toNat ≤ p.high) := by omega
    simp only [step, if_neg outside, first_ascii _ small]
    exact ⟨fun _ => nofun, by simp [finish]⟩

theorem step_wide {d : Decoding} (wide : d.Wide) {byte : UInt8} (high : ¬ isAscii byte) :
    (d.step byte).Wide ∧ ∃ kept old new, d.finish = kept ++ old ∧
      (d.step byte).finish = kept ++ new ∧ new ≠ [] ∧ (∀ c ∈ old, isWide c) ∧
      ∀ c ∈ new, isWide c := by
  have above : ¬ byte.toNat < 0x80 := fun small => high (decide_eq_true small)
  obtain ⟨unfinished, read⟩ := d
  cases unfinished with
  | none =>
    obtain ⟨proper, finished⟩ := first_finish read above
    refine ⟨proper, read.reverse, [], [replacement], by simp [finish], finished, ?_⟩
    simp [isWide_replacement]
  | some p =>
    by_cases inside : p.low ≤ byte.toNat ∧ byte.toNat ≤ p.high
    · simp only [step, if_pos inside]
      cases wide p rfl with
      | last _ missing ended =>
        rw [if_pos missing]
        refine ⟨fun _ => nofun, read.reverse, [replacement], [_], by simp [finish],
          by simp [finish]; rfl, ?_⟩
        simp [isWide_replacement, ended _ inside.1 inside.2]
      | more _ missing next =>
        rw [if_neg missing]
        refine ⟨fun q same => ?_, read.reverse, [replacement], [replacement], by simp [finish],
          by simp [finish], ?_⟩
        · cases same
          exact next _ inside.1 inside.2
        · simp [isWide_replacement]
    · simp only [step, if_neg inside]
      obtain ⟨proper, finished⟩ := first_finish (replacement :: read) above
      refine ⟨proper, (replacement :: read).reverse, [], [replacement], by simp [finish],
        finished, ?_⟩
      simp [isWide_replacement]

end Decoding

theorem foldl_mask {d : Decoding} (wide : d.Wide) {shown : List Char}
    (blurred : Blurred d.finish shown) (bytes : List UInt8) :
    Blurred (bytes.foldl Decoding.step d).finish (shown ++ mask bytes) := by
  -- The text that would be finished after each byte is compared. A byte above ASCII may take back
  -- the last wide characters of it, but is itself one more name character on the other side.
  induction bytes generalizing d shown with
  | nil => simpa [mask] using blurred
  | cons byte bytes ih =>
    by_cases ascii : isAscii byte
    · obtain ⟨proper, finished⟩ := Decoding.step_ascii wide ascii
      have added : Blurred (d.step byte).finish (shown ++ [Char.ofNat byte.toNat]) := by
        rw [finished]
        exact blurred.append _
      have next := ih proper added
      simpa [mask, ascii] using next
    · obtain ⟨proper, kept, old, new, before, after, filled, wasWide, isWide⟩ :=
        Decoding.step_wide wide ascii
      have exchanged : Blurred (kept ++ new) (kept ++ (old ++ ['x'])) := by
        have names : ∀ c ∈ old ++ ['x'], Lexeme.isNameChar c := by
          intro c member
          rcases List.mem_append.mp member with member | member
          · exact isNameChar_wide (wasWide c member)
          · rw [List.mem_singleton.mp member]
            decide
        have moved := Blur.run kept [] new (old ++ ['x']) filled (by simp)
          (fun c member => isNameChar_wide (isWide c member)) names
        simpa using Relation.EqvGen.rel _ _ moved
      rw [← List.append_assoc, ← before, ← after] at exchanged
      have added : Blurred (d.step byte).finish (shown ++ ['x']) :=
        exchanged.trans _ _ _ (blurred.append ['x'])
      have next := ih proper added
      simpa [mask, ascii] using next

theorem filter_wide {text : List Char} (wide : ∀ c ∈ text, isWide c) :
    text.filter (!isWide ·) = [] := by
  rw [List.filter_eq_nil_iff]
  intro c member
  simp [wide c member]

theorem foldl_ascii {d : Decoding} (wide : d.Wide) (bytes : List UInt8) :
    (bytes.foldl Decoding.step d).finish.filter (!isWide ·) =
      d.finish.filter (!isWide ·) ++
        (bytes.filter isAscii).map fun byte => Char.ofNat byte.toNat := by
  induction bytes generalizing d with
  | nil => simp
  | cons byte bytes ih =>
    by_cases ascii : isAscii byte
    · obtain ⟨proper, finished⟩ := Decoding.step_ascii wide ascii
      have small : byte.toNat < 0x80 := of_decide_eq_true ascii
      have narrow : isWide (Char.ofNat byte.toNat) = false := by
        rw [isWide, toNat_ofNat (by omega), decide_eq_false_iff_not]
        omega
      rw [List.foldl_cons, ih proper, finished]
      simp [ascii, narrow]
    · obtain ⟨proper, kept, old, new, before, after, _, wasWide, isWide⟩ :=
        Decoding.step_wide wide ascii
      rw [List.foldl_cons, ih proper, before, after]
      simp [ascii, filter_wide wasWide, filter_wide isWide]

end Utf8

/-- The chains of a source file are those of the text that has a letter for every byte above ASCII.
    To decode it neither adds ASCII nor loses it, and keeps its order. -/
theorem chainCounts_source (tree : FileTree) (path : Path) (bytes : List UInt8) :
    (tree.source path).map chainCounts = (tree.read path).map (chainCounts ∘ Utf8.mask) ∧
    chainCounts (Utf8.decode bytes) = chainCounts (Utf8.mask bytes) ∧
    (Utf8.decode bytes).filter (!isWide ·) =
      (bytes.filter Utf8.isAscii).map fun byte => Char.ofNat byte.toNat := by
  have wide : Utf8.Decoding.Wide {} := fun _ => nofun
  have masked (bytes : List UInt8) :
      chainCounts (Utf8.decode bytes) = chainCounts (Utf8.mask bytes) := by
    have nothing : Blurred (Utf8.Decoding.finish {}) [] := .refl _
    exact (Utf8.foldl_mask wide nothing bytes).chainCounts
  refine ⟨?_, masked bytes, Utf8.foldl_ascii wide bytes⟩
  rw [FileTree.source]
  cases tree.read path with
  | error fault => rfl
  | ok bytes => exact congrArg Except.ok (masked bytes)

end FluentCensus
