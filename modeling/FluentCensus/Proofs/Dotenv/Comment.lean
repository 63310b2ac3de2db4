import FluentCensus.Proofs.Dotenv.Line
import Mathlib

namespace FluentCensus.Dotenv

open Text

def trailing : Option (List Char) → List Char
  | none => []
  | some comment => ' ' :: '#' :: comment

theorem trimRight_comment (before comment : List Char) :
    trimRight (before ++ ' ' :: '#' :: comment) = before ++ ' ' :: '#' :: trimRight comment := by
  have hash := trimRight_solid (c := '#') (by decide) (before ++ [' ']) comment
  rwa [List.append_assoc, List.append_assoc] at hash

section Unquoted

variable {value : List Char}

theorem beforeComment?_plain (plain : ¬ [' ', '#'] <:+: value) (rest : List Char) :
    beforeComment? (value ++ ' ' :: '#' :: rest) = some value := by
  induction value with
  | nil => rfl
  | cons c more ih =>
    have later : ¬ [' ', '#'] <:+: more := fun inside =>
      plain (inside.trans (List.suffix_cons c more).isInfix)
    rw [List.cons_append, beforeComment?, ih later]
    · rfl
    · rintro after rfl here
      cases more with
      | nil => cases here
      | cons d more =>
        obtain ⟨rfl, _⟩ := List.cons_eq_cons.mp here
        exact plain ⟨[], more, rfl⟩

def Unquoted (value : List Char) : Prop := value.head? ≠ some '"' ∧ value.head? ≠ some '\''

instance (value : List Char) : Decidable (Unquoted value) := inferInstanceAs (Decidable (_ ∧ _))

theorem Unquoted.not_quote {first : Char} (unquoted : Unquoted value)
    (head : value.head? = some first) : ¬ (first = '"' ∨ first = '\'') := by
  rintro (rfl | rfl)
  · exact unquoted.1 head
  · exact unquoted.2 head

theorem unquote_unquoted (unquoted : Unquoted value) (trimmed : trim value = value) :
    unquote value = value := by
  unfold unquote
  rw [trimmed]
  cases value with
  | nil => rfl
  | cons first rest =>
    dsimp only
    rw [if_neg fun quoted => unquoted.not_quote rfl quoted.1]

theorem valueOf_unquoted (filled : value ≠ []) (trimmed : Trimmed value) (unquoted : Unquoted value)
    (plain : ¬ [' ', '#'] <:+: value) (comment : List Char) :
    valueOf (value ++ ' ' :: '#' :: comment) = value := by
  obtain ⟨first, more, rfl⟩ := List.exists_cons_of_ne_nil filled
  have solid : isBlank first = false := trimmed.head
  have kept : trim (first :: more ++ ' ' :: '#' :: comment) =
      first :: (more ++ ' ' :: '#' :: trimRight comment) := by
    rw [List.cons_append, trim_solid solid, trimRight_comment]
  have cut : dropComment (first :: (more ++ ' ' :: '#' :: trimRight comment)) = first :: more := by
    have found := beforeComment?_plain plain (trimRight comment)
    unfold dropComment
    rw [List.cons_append] at found
    rw [found]
    exact trimmed.trimRight
  unfold valueOf
  rw [kept]
  dsimp only
  rw [if_neg (unquoted.not_quote rfl), cut, unquote_unquoted unquoted trimmed.trim]

theorem dropComment_trimRight {text : List Char} (done : trimRight text = text) :
    trimRight (dropComment text) = dropComment text := by
  unfold dropComment
  split
  · exact trimRight_trimRight _
  · exact done

theorem dropComment_hash (text : List Char) : ∃ rest, dropComment ('#' :: text) = '#' :: rest := by
  have begun : beforeComment? ('#' :: text) = (beforeComment? text).map ('#' :: ·) := rfl
  unfold dropComment
  rw [begun]
  cases beforeComment? text with
  | none => exact ⟨text, rfl⟩
  | some kept => exact ⟨trimRight kept, trimRight_solid (by decide) [] kept⟩

theorem valueOf_comment (comment : List Char) :
    valueOf (' ' :: '#' :: comment) = dropComment ('#' :: trimRight comment) := by
  have solid : isBlank '#' = false := by decide
  have kept : trim (' ' :: '#' :: comment) = '#' :: trimRight comment := trim_solid solid comment
  have done : trimRight ('#' :: trimRight comment) = '#' :: trimRight comment := by
    have again := trimRight_solid solid [] (trimRight comment)
    rwa [trimRight_trimRight] at again
  obtain ⟨rest, begun⟩ := dropComment_hash (trimRight comment)
  have settled := dropComment_trimRight done
  rw [begun] at settled
  have trimmed : trim ('#' :: rest) = '#' :: rest :=
    (trim_solid solid rest).trans ((trimRight_solid solid [] rest).symm.trans settled)
  have unquoted : Unquoted ('#' :: rest) := ⟨by simp, by simp⟩
  unfold valueOf
  rw [kept]
  dsimp only
  rw [if_neg (by decide), begun, unquote_unquoted unquoted trimmed]

end Unquoted

section Quoted

variable {quote : Char} {value : List Char}

/-- What is taken out of a quoted value and what stands behind it: the first and the last character
    go if both are the quote. -/
def remainder (quote : Char) (value after : List Char) : List Char :=
  if (quote :: after).getLast? = some quote then (value ++ quote :: after).dropLast
  else quote :: (value ++ quote :: after)

theorem remainder_closed (quote : Char) (value : List Char) : remainder quote value [] = value := by
  simp [remainder]

theorem remainder_ne (quote : Char) (value : List Char) {after : List Char} (filled : after ≠ []) :
    remainder quote value after ≠ value := by
  have longer := List.length_pos_iff.mpr filled
  unfold remainder
  intro same
  have lengths := congrArg List.length same
  split at lengths
  · rw [List.length_dropLast, List.length_append, List.length_cons] at lengths
    omega
  · rw [List.length_cons, List.length_append, List.length_cons] at lengths
    omega

theorem valueOf_quoted (quoted : quote = '"' ∨ quote = '\'') (value after : List Char) :
    valueOf (quote :: (value ++ quote :: after)) = remainder quote value (trimRight after) := by
  have solid : isBlank quote = false := by rcases quoted with rfl | rfl <;> decide
  have whole (after : List Char) : trim (quote :: (value ++ quote :: after)) =
      quote :: (value ++ quote :: trimRight after) := by
    rw [trim_solid solid, trimRight_solid solid]
  have last : (value ++ quote :: trimRight after).getLast? =
      (quote :: trimRight after).getLast? := by
    rw [List.getLast?_append, List.getLast?_cons]
    rfl
  unfold valueOf
  rw [whole]
  dsimp only
  rw [if_pos quoted]
  unfold unquote
  rw [whole, trimRight_trimRight]
  dsimp only
  rw [last, remainder]
  simp only [quoted, true_and]

end Quoted

def fileHost (text : List Char) : Host where
  tree := { root := .directory [(".env", .file (Utf8.encode text))] }

theorem fileHost_provides (text : List Char) :
    Provides (fileHost text) ⟨.relative, [".env"]⟩ (Utf8.encode text) :=
  ⟨⟨.relative, [".env"]⟩, by cbv, by cbv⟩

/-- An unquoted value with a comment behind it is what its variable gets exactly if it is not
    empty. -/
theorem load_unquoted {host : Host} {path : Path} {name value comment ending : List Char}
    (usable : Usable name) (unset : isSet (host.valueOf? (String.ofList name)) = false)
    (trimmed : Trimmed value) (unbroken : Unbroken value) (unquoted : Unquoted value)
    (plain : ¬ [' ', '#'] <:+: value) (commented : Unbroken comment) (ended : ending ∈ lineEnds)
    (provides : Provides host path
      (Utf8.encode (name ++ '=' :: (value ++ trailing (some comment)) ++ ending)))
    (override : Bool) :
    ∃ given, (load path override).run.run host = (.ok true, { host with
        environment := Host.putVariable (String.ofList name) (String.ofList given)
          host.environment }) ∧
      (given = value ↔ value ≠ []) ∧
      (value = [] → given = dropComment ('#' :: trimRight comment)) := by
  have line : Unbroken (value ++ trailing (some comment)) :=
    unbroken.append (.cons (by decide) (.cons (by decide) commented))
  refine ⟨_, load_line usable line ended provides unset override, ?_⟩
  rw [trailing, trimRight_comment]
  by_cases filled : value = []
  · subst filled
    obtain ⟨rest, begun⟩ := dropComment_hash (trimRight comment)
    rw [List.nil_append, valueOf_comment, trimRight_trimRight]
    refine ⟨⟨fun same => ?_, fun filled => absurd rfl filled⟩, fun _ => rfl⟩
    rw [begun] at same
    cases same
  · rw [valueOf_unquoted filled trimmed unquoted plain]
    exact ⟨⟨fun _ => filled, fun _ => rfl⟩, fun empty => absurd empty filled⟩

theorem load_unquoted_equals :
    Usable ['A'] ∧ (Trimmed ['x', '=', '#'] ∧ ¬ [' ', '#'] <:+: ['x', '=', '#']) ∧
    (load ⟨.relative, [".env"]⟩).run.run (fileHost ['A', '=', 'x', '=', '#', ' ', '#', '"', '\n']) =
      (.ok true, { fileHost ['A', '=', 'x', '=', '#', ' ', '#', '"', '\n'] with
        environment := [("A", "x=#")] }) := by
  have usable : Usable ['A'] := by decide
  have trimmed : Trimmed ['x', '=', '#'] := by decide
  have plain : ¬ [' ', '#'] <:+: ['x', '=', '#'] := by decide
  have comment : Unbroken ['"'] := by decide
  have ended : ['\n'] ∈ lineEnds := by decide
  have provides := fileHost_provides
    (['A'] ++ '=' :: (['x', '=', '#'] ++ trailing (some ['"'])) ++ ['\n'])
  obtain ⟨given, ran, same, _⟩ := load_unquoted usable rfl trimmed (by decide) (by decide) plain
    comment ended provides false
  obtain rfl := same.mpr (by decide)
  exact ⟨usable, ⟨trimmed, plain⟩, ran⟩

/-- The value is trimmed before the comment is looked for. -/
theorem load_only_comment :
    (load ⟨.relative, [".env"]⟩).run.run (fileHost ['A', '=', ' ', '#', 'c']) =
      (.ok true, { fileHost ['A', '=', ' ', '#', 'c'] with environment := [("A", "#c")] }) := by
  cbv

/-- A quoted value is what its variable gets exactly if no comment stands behind it. -/
theorem load_quoted {host : Host} {path : Path} {name value ending : List Char} {quote : Char}
    {comment : Option (List Char)}
    (usable : Usable name) (unset : isSet (host.valueOf? (String.ofList name)) = false)
    (quoted : quote = '"' ∨ quote = '\'') (unbroken : Unbroken value)
    (commented : Unbroken (trailing comment)) (ended : ending ∈ lineEnds)
    (provides : Provides host path
      (Utf8.encode (name ++ '=' :: (quote :: (value ++ quote :: trailing comment)) ++ ending)))
    (override : Bool) :
    ∃ given, (load path override).run.run host = (.ok true, { host with
        environment := Host.putVariable (String.ofList name) (String.ofList given)
          host.environment }) ∧
      (given = value ↔ comment = none) ∧
      given = remainder quote value (trimRight (trailing comment)) := by
  have mark : isLineEnd quote = false ∧ quote ≠ '\x00' := by
    rcases quoted with rfl | rfl <;> decide
  have solid : isBlank quote = false := by rcases quoted with rfl | rfl <;> decide
  have line : Unbroken (quote :: (value ++ quote :: trailing comment)) :=
    .cons mark (unbroken.append (.cons mark commented))
  refine ⟨_, load_line usable line ended provides unset override, ?_⟩
  have whole : trimRight (quote :: (value ++ quote :: trailing comment)) =
      quote :: (value ++ quote :: trimRight (trailing comment)) :=
    trimRight_solid solid (quote :: value) (trailing comment)
  rw [whole, valueOf_quoted quoted, trimRight_trimRight]
  refine ⟨?_, rfl⟩
  cases comment with
  | none => exact ⟨fun _ => rfl, fun _ => remainder_closed quote value⟩
  | some comment =>
    have filled : trimRight (trailing (some comment)) ≠ [] := by
      rw [trailing, ← List.nil_append (' ' :: '#' :: comment), trimRight_comment]
      exact List.cons_ne_nil _ _
    exact ⟨fun same => absurd same (remainder_ne quote value filled), nofun⟩

theorem load_quoted_blanks :
    Usable ['A'] ∧
    (load ⟨.relative, [".env"]⟩).run.run (fileHost ['A', '=', '"', ' ', '#', '\'', ' ', '"']) =
      (.ok true, { fileHost ['A', '=', '"', ' ', '#', '\'', ' ', '"'] with
        environment := [("A", " #' ")] }) := by
  have usable : Usable ['A'] := by decide
  have value : Unbroken [' ', '#', '\'', ' '] := by decide
  have uncommented : Unbroken (trailing none) := by decide
  have ended : [] ∈ lineEnds := by decide
  have provides := fileHost_provides
    (['A'] ++ '=' :: ('"' :: ([' ', '#', '\'', ' '] ++ '"' :: trailing none)) ++ [])
  obtain ⟨given, ran, same, _⟩ := load_quoted usable rfl (.inl rfl) value uncommented ended provides
    false
  obtain rfl := same.mpr rfl
  exact ⟨usable, ran⟩

/-- The quotes stay, and so does the comment. -/
theorem load_quoted_comment :
    (load ⟨.relative, [".env"]⟩).run.run (fileHost ['A', '=', '"', 'x', '"', ' ', '#', 'c']) =
      (.ok true, { fileHost ['A', '=', '"', 'x', '"', ' ', '#', 'c'] with
        environment := [("A", "\"x\" #c")] }) := by
  cbv

end FluentCensus.Dotenv
