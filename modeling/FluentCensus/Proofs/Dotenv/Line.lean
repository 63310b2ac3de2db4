import FluentCensus.Proofs.Dotenv.Loading
import FluentCensus.Proofs.Text.Encoding
import FluentCensus.Proofs.Text.Line
import Mathlib

namespace FluentCensus.Dotenv

open Text

/-- A name that can stand at the head of an assignment line as it is. -/
structure Usable (name : List Char) : Prop where
  filled : name ≠ []
  trimmed : Trimmed name
  unbroken : Unbroken name
  noEquals : '=' ∉ name
  noComment : name.head? ≠ some '#'
  noExport : ¬ ['e', 'x', 'p', 'o', 'r', 't', ' '] <+: name

instance (name : List Char) : Decidable (Usable name) :=
  decidable_of_iff (name ≠ [] ∧ Trimmed name ∧ Unbroken name ∧ '=' ∉ name ∧
      name.head? ≠ some '#' ∧ ¬ ['e', 'x', 'p', 'o', 'r', 't', ' '] <+: name)
    ⟨fun ⟨filled, trimmed, unbroken, noEquals, noComment, noExport⟩ =>
      ⟨filled, trimmed, unbroken, noEquals, noComment, noExport⟩,
    fun usable => ⟨usable.filled, usable.trimmed, usable.unbroken, usable.noEquals,
      usable.noComment, usable.noExport⟩⟩

section Value

theorem beforeComment?_begins {value kept : List Char} (found : beforeComment? value = some kept) :
    kept <+: value := by
  fun_induction beforeComment? value generalizing kept with
  | case1 rest =>
    obtain rfl : [] = kept := Option.some.inj found
    exact List.nil_prefix
  | case2 c rest plain ih =>
    obtain ⟨inner, here, rfl⟩ := Option.map_eq_some_iff.mp found
    exact List.cons_prefix_cons.mpr ⟨rfl, ih here⟩
  | case3 => cases found

theorem dropComment_sublist (value : List Char) : (dropComment value).Sublist value := by
  unfold dropComment
  cases found : beforeComment? value with
  | none => exact .refl value
  | some kept => exact (trimRight_sublist kept).trans (beforeComment?_begins found).sublist

theorem unquote_sublist (value : List Char) : (unquote value).Sublist value := by
  have trimmed := trim_sublist value
  unfold unquote
  cases text : trim value with
  | nil => exact List.nil_sublist value
  | cons first rest =>
    rw [text] at trimmed
    dsimp only
    split
    · exact ((List.dropLast_sublist rest).trans (List.sublist_cons_self first rest)).trans trimmed
    · exact trimmed

theorem valueOf_sublist (text : List Char) : (valueOf text).Sublist text := by
  have trimmed := trim_sublist text
  unfold valueOf
  cases whole : trim text with
  | nil => exact List.nil_sublist text
  | cons first rest =>
    rw [whole] at trimmed
    refine (unquote_sublist _).trans (.trans ?_ trimmed)
    split
    · exact .refl _
    · exact dropComment_sublist _

end Value

section Assignment

variable {name : List Char}

theorem dropExport_usable (usable : Usable name) (rest : List Char) :
    dropExport (name ++ '=' :: rest) = name ++ '=' :: rest := by
  unfold dropExport
  split
  case h_1 after exported =>
    have word : ['e', 'x', 'p', 'o', 'r', 't', ' '] <+: name ++ '=' :: rest :=
      ⟨after, exported.symm⟩
    have named : name ++ ['='] <+: name ++ '=' :: rest := ⟨rest, by simp⟩
    have equals : '=' ∈ name ++ ['='] := by simp
    -- The word has no equals sign, and so it would have to end inside the name.
    rcases List.prefix_or_prefix_of_prefix word named with inside | beyond
    · rcases List.prefix_concat_iff.mp inside with same | inside
      · rw [← same] at equals
        exact absurd equals (by decide)
      · exact absurd inside usable.noExport
    · exact absurd (beyond.mem equals) (by decide)
  case h_2 => rfl

theorem assignment?_usable (usable : Usable name) (rest : List Char) :
    assignment? (name ++ '=' :: rest) = some ⟨name, valueOf (trimRight rest)⟩ := by
  obtain ⟨first, more, rfl⟩ := List.exists_cons_of_ne_nil usable.filled
  have solid : isBlank first = false := usable.trimmed.head
  have kept : trim (first :: more ++ '=' :: rest) = first :: more ++ '=' :: trimRight rest := by
    rw [List.cons_append, trim_solid solid, trimRight_solid (by decide), List.cons_append]
  have named : (first :: more ++ '=' :: trimRight rest).head? ≠ some '#' := usable.noComment
  unfold assignment?
  dsimp only
  rw [kept, if_neg named, dropExport_usable usable, splitAt?_absent usable.noEquals]
  dsimp only
  rw [usable.trimmed.trim]
  rfl

end Assignment

/-- A file with one assignment gives its variable the value that stands behind the equals sign. -/
theorem load_line {host : Host} {path : Path} {name rest ending : List Char} (usable : Usable name)
    (unbroken : Unbroken rest) (ended : ending ∈ lineEnds)
    (provides : Provides host path (Utf8.encode (name ++ '=' :: rest ++ ending)))
    (unset : isSet (host.valueOf? (String.ofList name)) = false) (override : Bool) :
    (load path override).run.run host = (.ok true, { host with
      environment := Host.putVariable (String.ofList name)
        (String.ofList (valueOf (trimRight rest))) host.environment }) := by
  have line : Unbroken (name ++ '=' :: rest) := usable.unbroken.append (unbroken.cons (by decide))
  have parsed : assignments (Utf8.decode (Utf8.encode (name ++ '=' :: rest ++ ending))) =
      [⟨name, valueOf (trimRight rest)⟩] := by
    rw [Utf8.decode_encode, assignments, lines_unbroken line (by simp) ended,
      List.filterMap_cons, assignment?_usable usable]
    rfl
  have plain : ¬ Assignment.HasNul ⟨name, valueOf (trimRight rest)⟩ := by
    rintro (member | member)
    · exact (usable.unbroken _ member).2 rfl
    · have there := ((valueOf_sublist _).trans (trimRight_sublist rest)).mem member
      exact (unbroken _ there).2 rfl
  have free : ¬ (isSet (host.environment.lookup
      (Assignment.key ⟨name, valueOf (trimRight rest)⟩)) && !override) = true := by
    have empty : isSet (host.environment.lookup
      (Assignment.key ⟨name, valueOf (trimRight rest)⟩)) = false := unset
    rw [empty]
    exact Bool.false_ne_true
  rw [run_load provides, parsed]
  dsimp only
  rw [perform, if_neg free, if_neg plain]
  rfl

end FluentCensus.Dotenv
