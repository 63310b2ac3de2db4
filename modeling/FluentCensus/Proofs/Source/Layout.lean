import FluentCensus.Proofs.Source.Lexing
import Mathlib.Data.List.Chain

namespace FluentCensus

open Lexeme (isSpace isPunctuation isNameChar single? startsName text_induction)

namespace Lexeme

def Formed (lexeme : Lexeme) : Prop :=
  match lexeme.token with
  | .name => lexeme.text ≠ [] ∧ ∀ c ∈ lexeme.text,
      ¬ isSpace c ∧ c ∉ ['.', '(', ')', '[', ']'] ∧ ¬ isPunctuation c
  | .punctuation => ∃ c, isPunctuation c ∧ lexeme.text = [c]
  | .dot => lexeme.text = ['.']
  | .openParen => lexeme.text = ['(']
  | .closeParen => lexeme.text = [')']
  | .openBracket => lexeme.text = ['[']
  | .closeBracket => lexeme.text = [']']

theorem isNameChar_iff (c : Char) :
    isNameChar c ↔ ¬ isSpace c ∧ c ∉ ['.', '(', ')', '[', ']'] ∧ ¬ isPunctuation c := by
  unfold isNameChar single?
  split <;> simp_all

theorem formed_name (run : List Char) :
    Formed ⟨.name, run⟩ ↔ run ≠ [] ∧ ∀ c ∈ run, isNameChar c := by
  simp only [Formed, isNameChar_iff]

theorem formed_single {c : Char} {token : Token} (single : single? c = some token) :
    Formed ⟨token, [c]⟩ := by
  unfold single? at single
  split at single
  case h_6 =>
    split at single
    · next punctuation =>
      cases single
      exact ⟨c, punctuation, rfl⟩
    · cases single
  all_goals
    cases single
    rfl

theorem single_punctuation {c : Char} (punctuation : isPunctuation c) :
    single? c = some .punctuation := by
  unfold single?
  split
  case h_6 => exact if_pos punctuation
  all_goals exact absurd punctuation (by decide)

theorem Formed.cases {lexeme : Lexeme} (formed : lexeme.Formed) :
    (∃ run, lexeme = ⟨.name, run⟩ ∧ run ≠ [] ∧ ∀ c ∈ run, isNameChar c) ∨
    ∃ c token, single? c = some token ∧ lexeme = ⟨token, [c]⟩ := by
  obtain ⟨token, text⟩ := lexeme
  cases token with
  | name => exact .inl ⟨text, rfl, (formed_name text).mp formed⟩
  | punctuation =>
    obtain ⟨c, punctuation, rfl⟩ := formed
    exact .inr ⟨c, .punctuation, single_punctuation punctuation, rfl⟩
  | dot => exact .inr ⟨'.', .dot, rfl, congrArg _ formed⟩
  | openParen => exact .inr ⟨'(', .openParen, rfl, congrArg _ formed⟩
  | closeParen => exact .inr ⟨')', .closeParen, rfl, congrArg _ formed⟩
  | openBracket => exact .inr ⟨'[', .openBracket, rfl, congrArg _ formed⟩
  | closeBracket => exact .inr ⟨']', .closeBracket, rfl, congrArg _ formed⟩

end Lexeme

open Lexeme

def Apart (one next : Lexeme × List Char) : Prop :=
  one.1.token = .name → next.1.token = .name → one.2 ≠ []

/-- Lexemes with the space around them. There may be none, unless it has to keep two names apart. -/
structure Layout where
  before : List Char
  /-- Each lexeme with the space after it. -/
  items : List (Lexeme × List Char)
  formed : ∀ item ∈ items, item.1.Formed
  spacesBefore : ∀ c ∈ before, isSpace c
  spacesAfter : ∀ item ∈ items, ∀ c ∈ item.2, isSpace c
  apart : items.IsChain Apart

namespace Layout

def lexemes (layout : Layout) : List Lexeme := layout.items.map Prod.fst

def textOf (items : List (Lexeme × List Char)) : List Char :=
  items.flatMap fun item => item.1.text ++ item.2

def text (layout : Layout) : List Char := layout.before ++ textOf layout.items

theorem textOf_cons (item : Lexeme × List Char) (items : List (Lexeme × List Char)) :
    textOf (item :: items) = item.1.text ++ (item.2 ++ textOf items) := by
  simp [textOf]

theorem startsName_textOf {item : Lexeme × List Char} (formed : item.1.Formed)
    (items : List (Lexeme × List Char)) :
    startsName (textOf (item :: items)) ↔ item.1.token = .name := by
  obtain ⟨lexeme, gap⟩ := item
  rw [textOf_cons]
  obtain ⟨run, rfl, filled, names⟩ | ⟨c, token, single, rfl⟩ := formed.cases
  · obtain ⟨c, run, rfl⟩ := List.exists_cons_of_ne_nil filled
    have name : isNameChar c := names c List.mem_cons_self
    simp [name]
  · simp [isNameChar_single single, single_ne_name single]

theorem startsName_after {lexeme : Lexeme} {gap : List Char} {items : List (Lexeme × List Char)}
    (name : lexeme.token = .name) (formed : ∀ item ∈ items, item.1.Formed)
    (spaces : ∀ c ∈ gap, isSpace c) (apart : ((lexeme, gap) :: items).IsChain Apart) :
    startsName (gap ++ textOf items) = false := by
  by_cases filled : gap = []
  · subst filled
    cases items with
    | nil => rfl
    | cons next items =>
      have different : next.1.token ≠ .name := by
        intro nextName
        exact (List.isChain_cons_cons.mp apart).1 name nextName rfl
      have start := startsName_textOf (formed next List.mem_cons_self) items
      rw [List.nil_append, Bool.eq_false_iff]
      exact mt start.mp different
  · exact startsName_spaces spaces filled _

theorem lexemes_textOf (items : List (Lexeme × List Char)) (formed : ∀ item ∈ items, item.1.Formed)
    (spaces : ∀ item ∈ items, ∀ c ∈ item.2, isSpace c) (apart : items.IsChain Apart) :
    FluentCensus.lexemes (textOf items) = items.map Prod.fst := by
  induction items with
  | nil => rfl
  | cons item items ih =>
    obtain ⟨lexeme, gap⟩ := item
    have formedTail : ∀ item ∈ items, item.1.Formed :=
      fun item member => formed item (List.mem_cons_of_mem _ member)
    have blank : ∀ c ∈ gap, isSpace c := spaces (lexeme, gap) List.mem_cons_self
    have tail : FluentCensus.lexemes (gap ++ textOf items) = items.map Prod.fst := by
      rw [lexemes_spaces blank]
      exact ih formedTail
          (fun item member => spaces item (List.mem_cons_of_mem _ member)) apart.tail
    rw [textOf_cons, List.map_cons, ← tail]
    obtain ⟨run, rfl, filled, names⟩ | ⟨c, token, single, rfl⟩ :=
      (formed (lexeme, gap) List.mem_cons_self).cases
    · exact lexemes_name filled names (startsName_after rfl formedTail blank apart)
    · exact lexemes_single single _

theorem lexemes_text (layout : Layout) : FluentCensus.lexemes layout.text = layout.lexemes := by
  rw [text, lexemes_spaces layout.spacesBefore]
  exact lexemes_textOf layout.items layout.formed layout.spacesAfter layout.apart

def push (layout : Layout) (lexeme : Lexeme) (formed : lexeme.Formed)
    (ends : lexeme.token = .name → startsName layout.text = false) : Layout where
  before := []
  items := (lexeme, layout.before) :: layout.items
  formed := List.forall_mem_cons.mpr ⟨formed, layout.formed⟩
  spacesBefore := by simp
  spacesAfter := List.forall_mem_cons.mpr ⟨layout.spacesBefore, layout.spacesAfter⟩
  apart := by
    refine List.isChain_cons.mpr ⟨fun next member name nextName => ?_, layout.apart⟩
    intro nothing
    obtain ⟨items, shape⟩ : ∃ items, layout.items = next :: items :=
      List.head?_eq_some_iff.mp member
    have starts : startsName layout.text := by
      rw [text, show layout.before = [] from nothing, List.nil_append, shape]
      exact (startsName_textOf (layout.formed next (by simp [shape])) items).mpr nextName
    rw [ends name] at starts
    cases starts

theorem push_text (layout : Layout) (lexeme : Lexeme) (formed : lexeme.Formed)
    (ends : lexeme.token = .name → startsName layout.text = false) :
    (layout.push lexeme formed ends).text = lexeme.text ++ layout.text := by
  simp [push, text, textOf]

theorem exists_layout (source : List Char) : ∃ layout : Layout,
    layout.text = source ∧ layout.lexemes = FluentCensus.lexemes source := by
  have laid : ∃ layout : Layout, layout.text = source := by
    induction source using text_induction with
    | nil =>
      let empty : Layout := ⟨[], [], by simp, by simp, by simp, .nil⟩
      exact ⟨empty, rfl⟩
    | space c source space ih =>
      obtain ⟨layout, rfl⟩ := ih
      have spaces : ∀ d ∈ c :: layout.before, isSpace d :=
        List.forall_mem_cons.mpr ⟨space, layout.spacesBefore⟩
      exact ⟨{ layout with before := c :: layout.before, spacesBefore := spaces }, rfl⟩
    | single c token source single ih =>
      obtain ⟨layout, rfl⟩ := ih
      have other : token = .name → startsName layout.text = false :=
        fun name => absurd name (single_ne_name single)
      exact ⟨layout.push ⟨token, [c]⟩ (formed_single single) other, push_text ..⟩
    | name run source filled names ends ih =>
      obtain ⟨layout, rfl⟩ := ih
      have formed : Formed ⟨.name, run⟩ := (formed_name run).mpr ⟨filled, names⟩
      exact ⟨layout.push ⟨.name, run⟩ formed fun _ => ends, push_text ..⟩
  obtain ⟨layout, rfl⟩ := laid
  exact ⟨layout, rfl, layout.lexemes_text.symm⟩

end Layout

theorem lexemes_filter (text : List Char) :
    (lexemes text).flatMap Lexeme.text = text.filter (!isSpace ·) := by
  induction text using text_induction with
  | nil => rfl
  | space c text space ih => rw [lexemes_space space, ih, List.filter_cons_of_neg (by simp [space])]
  | single c token text single ih =>
    rw [lexemes_single single, List.flatMap_cons, ih,
      List.filter_cons_of_pos (by simp [space_of_single single])]
    rfl
  | name run text filled names ends ih =>
    have kept : run.filter (!isSpace ·) = run := by
      refine List.filter_eq_self.mpr fun c member => ?_
      simp [(isNameChar_cases (names c member)).1]
    rw [lexemes_name filled names ends, List.flatMap_cons, ih, List.filter_append, kept]

def Lexeme.endsName (text : List Char) : Bool := text.getLast?.any isNameChar

theorem Lexeme.endsName_cons {c : Char} (other : isNameChar c = false) (text : List Char) :
    endsName (c :: text) = endsName text := by
  cases text with
  | nil => exact other
  | cons d text => rw [endsName, endsName, List.getLast?_cons_cons]

theorem Lexeme.endsName_append (first : List Char) {second : List Char} (filled : second ≠ []) :
    endsName (first ++ second) = endsName second := by
  rw [endsName, endsName, List.getLast?_append_of_ne_nil first filled]

structure NameAt (text : List Char) (left : List Lexeme) (run : List Char) (right : List Lexeme)
    (before after : List Char) : Prop where
  place : text = before ++ run ++ after
  left : lexemes before = left
  right : lexemes after = right
  filled : run ≠ []
  names : ∀ c ∈ run, isNameChar c
  opens : endsName before = false
  closes : startsName after = false

theorem lexemes_run {text : List Char} {left : List Lexeme} {run : List Char} {right : List Lexeme}
    (found : lexemes text = left ++ ⟨.name, run⟩ :: right) :
    ∃ before after, NameAt text left run right before after := by
  induction text using text_induction generalizing left with
  | nil => simp at found
  | space c text space ih =>
    rw [lexemes_space space] at found
    obtain ⟨before, after, name⟩ := ih found
    have left : lexemes (c :: before) = left := by rw [lexemes_space space, name.left]
    have opens : endsName (c :: before) = false := by
      rw [endsName_cons (isNameChar_space space), name.opens]
    exact ⟨c :: before, after, { name with place := congrArg (c :: ·) name.place, left, opens }⟩
  | single c token text single ih =>
    rw [lexemes_single single] at found
    cases left with
    | nil =>
      have same : token = .name := congrArg Lexeme.token (List.cons.inj found).1
      exact absurd same (single_ne_name single)
    | cons lexeme left =>
      obtain ⟨rfl, later⟩ := List.cons.inj found
      obtain ⟨before, after, name⟩ := ih later
      have left : lexemes (c :: before) = ⟨token, [c]⟩ :: left := by
        rw [lexemes_single single, name.left]
      have opens : endsName (c :: before) = false := by
        rw [endsName_cons (isNameChar_single single), name.opens]
      exact ⟨c :: before, after, { name with place := congrArg (c :: ·) name.place, left, opens }⟩
  | name first text filled names ends ih =>
    rw [lexemes_name filled names ends] at found
    cases left with
    | nil =>
      obtain ⟨same, rfl⟩ := List.cons.inj found
      obtain rfl : first = run := congrArg Lexeme.text same
      exact ⟨[], text, by simp, rfl, rfl, filled, names, rfl, ends⟩
    | cons lexeme left =>
      obtain ⟨rfl, later⟩ := List.cons.inj found
      obtain ⟨before, after, name⟩ := ih later
      -- The name found later does not begin here, since the text does not begin with a name.
      have gap : before ≠ [] := by
        rintro rfl
        obtain ⟨c, run, rfl⟩ := List.exists_cons_of_ne_nil name.filled
        rw [name.place] at ends
        exact absurd (name.names c List.mem_cons_self) (ne_true_of_eq_false ends)
      have apart : startsName before = false := by
        obtain ⟨c, rest, rfl⟩ := List.exists_cons_of_ne_nil gap
        rw [name.place] at ends
        exact ends
      have place : first ++ text = first ++ before ++ run ++ after := by
        rw [name.place]
        simp
      have left : lexemes (first ++ before) = ⟨.name, first⟩ :: left := by
        rw [lexemes_name filled names apart, name.left]
      have opens : endsName (first ++ before) = false := by
        rw [endsName_append first gap, name.opens]
      exact ⟨first ++ before, after, { name with place, left, opens }⟩

/-- The lexer finds the lexemes of every layout, every text is a layout of its lexemes, no
    character but space is lost or found twice, and names are as long as they can be. -/
theorem lexemes_layout :
    (∀ layout : Layout, lexemes layout.text = layout.lexemes) ∧
    (∀ text, ∃ layout : Layout, layout.text = text ∧ layout.lexemes = lexemes text) ∧
    (∀ text, (lexemes text).flatMap Lexeme.text = text.filter (!isSpace ·)) ∧
    (∀ text left run right, lexemes text = left ++ ⟨.name, run⟩ :: right →
      ∃ before after, NameAt text left run right before after) ∧
    (∀ first second, lexemes first = lexemes second ↔ ∃ one other : Layout,
      one.text = first ∧ other.text = second ∧ one.lexemes = other.lexemes) := by
  refine ⟨Layout.lexemes_text, Layout.exists_layout, lexemes_filter, fun _ _ _ _ => lexemes_run,
    fun first second => ⟨fun same => ?_, ?_⟩⟩
  · obtain ⟨one, rfl, oneLexemes⟩ := Layout.exists_layout first
    obtain ⟨other, rfl, otherLexemes⟩ := Layout.exists_layout second
    exact ⟨one, other, rfl, rfl, by rw [oneLexemes, otherLexemes, same]⟩
  · rintro ⟨one, other, rfl, rfl, same⟩
    rw [one.lexemes_text, other.lexemes_text, same]

theorem lexemes_layout_field :
    lexemes ['a', 'b', ' ', '.', 'c'] =
      [⟨.name, ['a', 'b']⟩, ⟨.dot, ['.']⟩] ++ ⟨.name, ['c']⟩ :: [] ∧
    ∃ before after, NameAt ['a', 'b', ' ', '.', 'c'] [⟨.name, ['a', 'b']⟩, ⟨.dot, ['.']⟩] ['c'] []
      before after := by
  have found : lexemes ['a', 'b', ' ', '.', 'c'] =
      [⟨.name, ['a', 'b']⟩, ⟨.dot, ['.']⟩] ++ ⟨.name, ['c']⟩ :: [] := by decide
  obtain ⟨_, _, _, whole, _⟩ := lexemes_layout
  exact ⟨found, whole _ _ _ _ found⟩

end FluentCensus
