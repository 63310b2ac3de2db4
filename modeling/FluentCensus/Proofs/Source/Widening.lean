import FluentCensus.Proofs.Comment.Piece
import FluentCensus.Proofs.Source.Lexing
import Mathlib.Data.List.Infix

namespace FluentCensus

open Lexeme (isSpace isNameChar single? startsName)

def Gap (text : List Char) : Prop := text ≠ [] ∧ ∀ c ∈ text, isSpace c

theorem gap_one {c : Char} (space : isSpace c) : Gap [c] :=
  ⟨by simp, by simpa using space⟩

theorem Gap.cons {c : Char} (space : isSpace c) {gap : List Char} (isGap : Gap gap) :
    Gap (c :: gap) :=
  ⟨by simp, List.forall_mem_cons.mpr ⟨space, isGap.2⟩⟩

theorem Gap.startsName {gap : List Char} (isGap : Gap gap) (text : List Char) :
    startsName (gap ++ text) = false :=
  Lexeme.startsName_spaces isGap.2 isGap.1 text

namespace Comment

def nameAfter (ps : List Piece) : Bool :=
  match ps.dropWhile Piece.isComment with
  | .code c :: _ => isNameChar c
  | _ => false

theorem nameAfter_comment {p : Piece} (comment : p.isComment) (ps : List Piece) :
    nameAfter (p :: ps) = nameAfter ps := by
  simp [nameAfter, comment]

theorem nameAfter_code (c : Char) (ps : List Piece) :
    nameAfter (.code c :: ps) = isNameChar c :=
  rfl

/-- The pieces begin with a name character, comments of which one is marked, and another name
    character. -/
def joint (marked : Piece → Bool) (ps : List Piece) : Bool :=
  match ps with
  | .code c :: rest =>
    isNameChar c && (rest.takeWhile Piece.isComment).any marked && nameAfter rest
  | _ => false

def joints (marked : Piece → Bool) (ps : List Piece) : Nat := ps.tails.countP (joint marked)

/-- A block of comments, one of them marked, stands directly between two name characters. -/
def Joined (marked : Piece → Bool) (ps : List Piece) : Prop :=
  ∃ left c block d right, ps = left ++ .code c :: (block ++ .code d :: right) ∧
    isNameChar c ∧ isNameChar d ∧ (∀ p ∈ block, p.isComment) ∧ ∃ p ∈ block, marked p

theorem nameAfter_iff (ps : List Piece) : nameAfter ps ↔
    ∃ d right, ps.dropWhile Piece.isComment = .code d :: right ∧ isNameChar d := by
  unfold nameAfter
  split
  · next c rest same => simp [same]
  · next other =>
    simp only [Bool.false_eq_true, false_iff]
    rintro ⟨d, right, same, _⟩
    exact other d right same

theorem joint_iff (marked : Piece → Bool) (ps : List Piece) : joint marked ps ↔
    ∃ c block d right, ps = .code c :: (block ++ .code d :: right) ∧
      isNameChar c ∧ isNameChar d ∧ (∀ p ∈ block, p.isComment) ∧ ∃ p ∈ block, marked p := by
  constructor
  · intro found
    unfold joint at found
    split at found
    · next c rest =>
      simp only [Bool.and_eq_true, List.any_eq_true, nameAfter_iff] at found
      obtain ⟨⟨first, inside⟩, d, right, after, second⟩ := found
      refine ⟨c, rest.takeWhile Piece.isComment, d, right, ?_, first, second, ?_, inside⟩
      · rw [← after, List.takeWhile_append_dropWhile]
      · exact List.all_eq_true.mp List.all_takeWhile
    · cases found
  · rintro ⟨c, block, d, right, rfl, first, second, comments, inside⟩
    have taken : (block ++ .code d :: right).takeWhile Piece.isComment = block := by
      simp [List.takeWhile_append_of_pos comments, Piece.isComment]
    have dropped : (block ++ .code d :: right).dropWhile Piece.isComment = .code d :: right := by
      simp [List.dropWhile_append_of_pos comments, Piece.isComment]
    have after : nameAfter (block ++ .code d :: right) := by
      rw [nameAfter_iff]
      exact ⟨d, right, dropped, second⟩
    simpa [joint, first, taken, after] using inside

theorem joints_eq_zero (marked : Piece → Bool) (ps : List Piece) :
    joints marked ps = 0 ↔ ¬ Joined marked ps := by
  rw [joints, List.countP_eq_zero]
  constructor
  · rintro none ⟨left, c, block, d, right, rfl, found⟩
    refine none (.code c :: (block ++ .code d :: right)) ?_ ?_
    · rw [List.mem_tails]
      exact List.suffix_append ..
    · exact (joint_iff marked _).mpr ⟨c, block, d, right, rfl, found⟩
  · rintro none tail member found
    obtain ⟨left, rfl⟩ := (List.mem_tails _ _).mp member
    obtain ⟨c, block, d, right, rfl, place⟩ := (joint_iff marked _).mp found
    exact none ⟨left, c, block, d, right, rfl, place⟩

theorem joints_cons (marked : Piece → Bool) (p : Piece) (ps : List Piece) :
    joints marked (p :: ps) = joints marked ps + if joint marked (p :: ps) then 1 else 0 := by
  rw [joints, List.tails, List.countP_cons, joints]

theorem joints_comment (marked : Piece → Bool) {p : Piece} (comment : p.isComment)
    (ps : List Piece) : joints marked (p :: ps) = joints marked ps := by
  cases p with
  | code c => cases comment
  | line | block => simp [joints_cons, joint]

/-- A text for every piece: space may be widened, and the marked comments become space. -/
structure Widens (marked : Piece → Bool) (fill : Piece → List Char) : Prop where
  code : ∀ c, isSpace c = false → fill (.code c) = [c]
  space : ∀ c, isSpace c → Gap (fill (.code c))
  gap : ∀ p, p.isComment → marked p → Gap (fill p)
  nothing : ∀ p, p.isComment → marked p = false → fill p = []

theorem startsName_kept (ps : List Piece) :
    startsName (ps.flatMap Piece.kept) = nameAfter ps := by
  induction ps with
  | nil => rfl
  | cons p ps ih =>
    cases p with
    | code c => rfl
    | line | block =>
      rw [nameAfter_comment rfl]
      exact ih

variable {marked : Piece → Bool} {fill : Piece → List Char}

theorem Widens.startsName (widens : Widens marked fill) (ps : List Piece) :
    startsName (ps.flatMap fill) =
      (nameAfter ps && !(ps.takeWhile Piece.isComment).any marked) := by
  induction ps with
  | nil => rfl
  | cons p ps ih =>
    rw [List.flatMap_cons]
    cases comment : p.isComment with
    | true =>
      rw [nameAfter_comment comment, List.takeWhile_cons_of_pos comment, List.any_cons]
      cases isMarked : marked p with
      | true => simp [(widens.gap p comment isMarked).startsName]
      | false => simpa [widens.nothing p comment isMarked] using ih
    | false =>
      cases p with
      | line | block => cases comment
      | code c =>
        rw [nameAfter_code]
        cases space : isSpace c with
        | true => simp [(widens.space c space).startsName, Lexeme.isNameChar_space space]
        | false => simp [widens.code c space, Piece.isComment]

theorem Widens.tokens_comment (widens : Widens marked fill) {p : Piece} (comment : p.isComment)
    (text : List Char) : tokens (fill p ++ text) = tokens text := by
  cases isMarked : marked p with
  | true => exact tokens_spaces (widens.gap p comment isMarked).2 text
  | false => rw [widens.nothing p comment isMarked, List.nil_append]

inductive Further : Nat → List Token → List Token → Prop where
  | nil : Further 0 [] []
  | cons (token : Token) {n : Nat} {first second : List Token} : Further n first second →
      Further n (token :: first) (token :: second)
  | name {n : Nat} {first second : List Token} : Further n first second →
      Further (n + 1) first (.name :: second)

theorem Further.length {n : Nat} {first second : List Token} (further : Further n first second) :
    second.length = first.length + n := by
  induction further with
  | nil => rfl
  | cons token _ ih =>
    rw [List.length_cons, List.length_cons, ih]
    omega
  | name _ ih =>
    rw [List.length_cons, ih]
    omega

theorem Further.same {first second : List Token} (further : Further 0 first second) :
    first = second := by
  generalize none : 0 = n at further
  induction further with
  | nil => rfl
  | cons token _ ih => rw [ih none]
  | name _ _ => cases none

theorem Further.same_iff {n : Nat} {first second : List Token} (further : Further n first second) :
    first = second ↔ n = 0 := by
  constructor
  · rintro rfl
    have length := further.length
    omega
  · rintro rfl
    exact further.same

theorem Widens.further (widens : Widens marked fill) (ps : List Piece) :
    Further (joints marked ps) (tokens (ps.flatMap Piece.kept)) (tokens (ps.flatMap fill)) := by
  induction ps with
  | nil => exact .nil
  | cons p ps ih =>
    rw [List.flatMap_cons, List.flatMap_cons]
    cases p with
    | line body last? =>
      rw [widens.tokens_comment rfl, joints_comment marked rfl]
      exact ih
    | block body =>
      rw [widens.tokens_comment rfl, joints_comment marked rfl]
      exact ih
    | code c =>
      rw [Piece.kept, List.singleton_append, joints_cons]
      cases space : isSpace c with
      | true =>
        rw [tokens_spaces (widens.space c space).2, tokens_space space]
        simpa [joint, Lexeme.isNameChar_space space] using ih
      | false =>
        rw [widens.code c space, List.singleton_append]
        cases single : single? c with
        | some token =>
          rw [tokens_single single, tokens_single single]
          simpa [joint, Lexeme.isNameChar_single single] using ih.cons token
        | none =>
          -- Only here the texts can part: one goes on with the name that the other one ends.
          have name : isNameChar c := by simp [isNameChar, space, single]
          rw [tokens_name name, tokens_name name, startsName_kept, widens.startsName]
          cases after : nameAfter ps with
          | false => simpa [joint, after] using ih.cons .name
          | true =>
            cases between : (ps.takeWhile Piece.isComment).any marked with
            | false => simpa [joint, after, between] using ih
            | true => simpa [joint, name, after, between] using ih.name

end Comment

end FluentCensus
