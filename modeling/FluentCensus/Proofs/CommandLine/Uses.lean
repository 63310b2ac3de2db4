import FluentCensus.CommandLine.Run
import FluentCensus.Proofs.Tree.Opening
import Mathlib

namespace FluentCensus

namespace CommandLine

/-- The flags that arguments use, in their order, each with its value. A flag that takes none has an
    empty one. -/
inductive Spells : List Argument → List (Flag × String) → Prop
  | nil : Spells [] []
  | attached {flag last : Flag} {long : Bool} {text : Option (List Char)} {before : List Flag}
      {value : String} {more : List Argument} {uses : List (Flag × String)}
      (flags : flagsOf flag long text = .ok (before, last, some value))
      (rest : Spells more uses) :
      Spells (.named flag long text :: more) (before.map (·, "") ++ (last, value) :: uses)
  | alone {flag last : Flag} {long : Bool} {text : Option (List Char)} {before : List Flag}
      {more : List Argument} {uses : List (Flag × String)}
      (flags : flagsOf flag long text = .ok (before, last, none))
      (bare : last.value?.isNone = true) (rest : Spells more uses) :
      Spells (.named flag long text :: more) (before.map (·, "") ++ (last, "") :: uses)
  | separate {flag last : Flag} {long : Bool} {text : Option (List Char)} {before : List Flag}
      {value : String} {more : List Argument} {uses : List (Flag × String)}
      (flags : flagsOf flag long text = .ok (before, last, none))
      (valued : last.value?.isNone = false) (rest : Spells more uses) :
      Spells (.named flag long text :: .plain value :: more)
        (before.map (·, "") ++ (last, value) :: uses)

section Forms

variable {flag : Flag} {long : Bool} {more : List Argument} {uses : List (Flag × String)}

theorem Spells.apart {value : String} (valued : flag.value?.isSome = true)
    (rest : Spells more uses) :
    Spells (.named flag long none :: .plain value :: more) ((flag, value) :: uses) := by
  have flags : flagsOf flag long none = .ok ([], flag, none) := rfl
  have present : flag.value?.isNone = false := by rw [Option.isNone_eq_false_iff, valued]
  exact .separate flags present rest

theorem Spells.together {text : List Char} (valued : flag.value?.isSome = true)
    (rest : Spells more uses) :
    Spells (.named flag long (some text) :: more) ((flag, String.ofList text) :: uses) := by
  have flags : flagsOf flag long (some text) = .ok ([], flag, some (String.ofList text)) :=
    if_pos valued
  exact .attached flags rest

end Forms

/-- The arguments use these flags and nothing else, and do not ask for the help. -/
structure Accepts (arguments : List String) (uses : List (Flag × String)) : Prop where
  spelled : ∃ spelled, Argument.ofStrings arguments = .ok spelled ∧ Spells spelled uses
  unhelped : ∀ use ∈ uses, use.1 ≠ .help

def putUses (line : CommandLine) (uses : List (Flag × String)) : CommandLine :=
  uses.foldl (fun line use => line.put use.1 use.2) line

theorem putUses_append (line : CommandLine) (first second : List (Flag × String)) :
    line.putUses (first ++ second) = (line.putUses first).putUses second :=
  List.foldl_append

theorem putUses_flags (line : CommandLine) (before : List Flag) (last : Flag) (value : String)
    (uses : List (Flag × String)) :
    line.putUses (before.map (·, "") ++ (last, value) :: uses) =
      ((before.foldl (put · · "") line).put last value).putUses uses := by
  rw [putUses_append, putUses, putUses, putUses, List.foldl_map]
  rfl

theorem unhelped_flags (before : List Flag) (last : Flag) (value : String)
    (uses : List (Flag × String)) :
    (∀ use ∈ before.map (·, "") ++ (last, value) :: uses, use.1 ≠ Flag.help) ↔
      Flag.help ∉ last :: before ∧ ∀ use ∈ uses, use.1 ≠ Flag.help := by
  rw [List.forall_mem_append, List.forall_mem_map, List.forall_mem_cons, List.mem_cons, not_or]
  have listed : (∀ flag ∈ before, flag ≠ Flag.help) ↔ Flag.help ∉ before :=
    ⟨fun all member => all _ member rfl, fun none flag member same => none (same ▸ member)⟩
  constructor
  · rintro ⟨first, second, third⟩
    exact ⟨⟨Ne.symm second, listed.mp first⟩, third⟩
  · rintro ⟨⟨first, second⟩, third⟩
    exact ⟨listed.mpr second, Ne.symm first, third⟩

end CommandLine

namespace Argument

theorem spelled?_named {text : List Char} {argument : Argument}
    (spelled : spelled? text = some argument) :
    ∃ flag long attached, argument = .named flag long attached := by
  unfold spelled? at spelled
  split at spelled
  · exact ⟨_, _, _, (Option.some.inj spelled).symm⟩
  · obtain ⟨flag, _, rfl⟩ := Option.map_eq_some_iff.mp spelled
    exact ⟨_, _, _, rfl⟩
  · cases spelled

theorem candidates_named {text : List Char} {entry : String × Argument}
    (member : entry ∈ candidates text) :
    ∃ flag long attached, entry.2 = .named flag long attached := by
  unfold candidates at member
  split at member <;>
  · obtain ⟨_, _, rfl⟩ := List.mem_map.mp member
    exact ⟨_, _, _, rfl⟩

theorem ofString_remainder {text : String} {arguments : List String} :
    ofString text ≠ .ok (.remainder arguments) := by
  intro ok
  unfold ofString at ok
  dsimp only at ok
  split at ok
  · cases ok
  · split at ok
    · rename_i spelled
      cases ok
      obtain ⟨_, _, _, named⟩ := spelled?_named spelled
      cases named
    · rename_i only
      cases ok
      obtain ⟨_, _, _, named⟩ := candidates_named (only ▸ List.mem_singleton_self _)
      cases named
    · split at ok <;> cases ok
    · cases ok

theorem ofStrings_remainder {arguments : List String} {spelled : List Argument}
    (ok : ofStrings arguments = .ok spelled) : remainder [] ∉ spelled := by
  induction arguments generalizing spelled with
  | nil =>
    cases ok
    exact List.not_mem_nil
  | cons text more ih =>
    rw [ofStrings] at ok
    split at ok
    · cases ok
      simp
    · obtain ⟨first, read, ok⟩ := bind_ok ok
      obtain ⟨rest, others, ok⟩ := bind_ok ok
      cases ok
      refine List.not_mem_cons_of_ne_of_not_mem ?_ (ih others)
      rintro rfl
      exact ofString_remainder read

end Argument

namespace CommandLine

theorem putAll?_some {line after : CommandLine} {before : List Flag} {last : Flag}
    {value : String} :
    line.putAll? before last value = some after ↔
      Flag.help ∉ last :: before ∧ after = (before.foldl (put · · "") line).put last value := by
  unfold putAll?
  by_cases asked : Flag.help ∈ last :: before
  · rw [if_pos asked]
    exact ⟨nofun, fun both => absurd asked both.1⟩
  · rw [if_neg asked]
    exact ⟨fun same => ⟨asked, (Option.some.inj same).symm⟩, fun both => congrArg some both.2.symm⟩

def Takes (line : CommandLine) (arguments : List Argument) (after : CommandLine) : Prop :=
  ∃ uses, Spells arguments uses ∧ (∀ use ∈ uses, use.1 ≠ Flag.help) ∧ after = line.putUses uses

theorem Takes.flags {line middle after : CommandLine} {arguments more : List Argument}
    {before : List Flag} {last : Flag} {value : String}
    (placed : line.putAll? before last value = some middle) (rest : middle.Takes more after)
    (spells : ∀ {uses}, Spells more uses →
      Spells arguments (before.map (·, "") ++ (last, value) :: uses)) :
    line.Takes arguments after := by
  obtain ⟨unhelped, rfl⟩ := putAll?_some.mp placed
  obtain ⟨uses, others, unasked, rfl⟩ := rest
  exact ⟨_, spells others, (unhelped_flags before last value uses).mpr ⟨unhelped, unasked⟩,
    (putUses_flags line before last value uses).symm⟩

theorem take_takes {line after : CommandLine} {extras : List String} {arguments : List Argument}
    (ended : Argument.remainder [] ∉ arguments)
    (taken : line.take extras arguments = .ok (some after)) :
    extras = [] ∧ line.Takes arguments after := by
  -- Extras are only ever collected, so arguments whose rest has none have none themselves.
  fun_induction take line extras arguments with
  | case1 line extras none =>
    cases taken
    exact ⟨List.isEmpty_iff.mp none, [], .nil, nofun, rfl⟩
  | case2 line extras others => cases taken
  | case3 line extras text more ih => cases (ih (List.not_mem_of_not_mem_cons ended) taken).1
  | case4 line extras text more ih => cases (ih (List.not_mem_of_not_mem_cons ended) taken).1
  | case5 line extras arguments more ih =>
    have nothing := (ih (List.not_mem_of_not_mem_cons ended) taken).1
    have empty : arguments = [] := List.reverse_eq_nil_iff.mp (List.append_eq_nil_iff.mp nothing).1
    exact absurd (empty ▸ List.mem_cons_self) ended
  | case6 line extras flag long attached more e flags => cases taken
  | case7 line extras flag long attached more before last value flags middle placed ih =>
    obtain ⟨nothing, rest⟩ := ih (List.not_mem_of_not_mem_cons ended) taken
    exact ⟨nothing, rest.flags placed (.attached flags)⟩
  | case8 => cases taken
  | case9 line extras flag long attached more before last flags bare middle placed ih =>
    obtain ⟨nothing, rest⟩ := ih (List.not_mem_of_not_mem_cons ended) taken
    exact ⟨nothing, rest.flags placed (.alone flags bare)⟩
  | case10 => cases taken
  | case11 line extras flag long attached before last flags valued value more middle placed ih =>
    have ended := List.not_mem_of_not_mem_cons (List.not_mem_of_not_mem_cons ended)
    obtain ⟨nothing, rest⟩ := ih ended taken
    exact ⟨nothing, rest.flags placed (.separate flags (eq_false_of_ne_true valued))⟩
  | case12 => cases taken
  | case13 => cases taken

theorem Spells.take {arguments : List Argument} {uses : List (Flag × String)}
    (spells : Spells arguments uses) (unhelped : ∀ use ∈ uses, use.1 ≠ Flag.help)
    (line : CommandLine) : line.take [] arguments = .ok (some (line.putUses uses)) := by
  induction spells generalizing line with
  | nil => rfl
  | attached flags rest ih =>
    obtain ⟨unasked, others⟩ := (unhelped_flags _ _ _ _).mp unhelped
    rw [putUses_flags, CommandLine.take, flags]
    dsimp only
    rw [putAll?_some.mpr ⟨unasked, rfl⟩]
    exact ih others _
  | alone flags bare rest ih =>
    obtain ⟨unasked, others⟩ := (unhelped_flags _ _ _ _).mp unhelped
    rw [putUses_flags, CommandLine.take, flags]
    dsimp only
    rw [if_pos bare, putAll?_some.mpr ⟨unasked, rfl⟩]
    exact ih others _
  | separate flags valued rest ih =>
    obtain ⟨unasked, others⟩ := (unhelped_flags _ _ _ _).mp unhelped
    rw [putUses_flags, CommandLine.take, flags]
    dsimp only
    rw [if_neg (ne_true_of_eq_false valued), putAll?_some.mpr ⟨unasked, rfl⟩]
    exact ih others _

theorem Accepts.parse {arguments : List String} {uses : List (Flag × String)}
    (accepts : Accepts arguments uses) :
    CommandLine.parse arguments = .ok (some (putUses {} uses)) := by
  obtain ⟨⟨spelled, read, spells⟩, unhelped⟩ := accepts
  rw [CommandLine.parse, read]
  exact spells.take unhelped {}

/-- Just what is accepted is understood, and comes to its uses of flags. -/
theorem parse_accepts {arguments : List String} {line : CommandLine} :
    parse arguments = .ok (some line) ↔
      ∃ uses, Accepts arguments uses ∧ line = putUses {} uses := by
  constructor
  · intro parsed
    obtain ⟨spelled, read, taken⟩ := bind_ok parsed
    obtain ⟨_, uses, spells, unhelped, placed⟩ :=
      take_takes (Argument.ofStrings_remainder read) taken
    exact ⟨uses, ⟨⟨spelled, read, spells⟩, unhelped⟩, placed⟩
  · rintro ⟨uses, accepts, rfl⟩
    exact accepts.parse

def valuesOf (flag : Flag) (uses : List (Flag × String)) : List String :=
  (uses.filter (·.1 = flag)).map Prod.snd

def valueOf? (flag : Flag) (uses : List (Flag × String)) : Option String :=
  (valuesOf flag uses).getLast?

theorem valuesOf_concat (flag other : Flag) (value : String) (uses : List (Flag × String)) :
    valuesOf flag (uses ++ [(other, value)]) =
      if other = flag then valuesOf flag uses ++ [value] else valuesOf flag uses := by
  by_cases same : other = flag <;> simp [valuesOf, same]

theorem valueOf?_concat (flag other : Flag) (value : String) (uses : List (Flag × String)) :
    valueOf? flag (uses ++ [(other, value)]) =
      if other = flag then some value else valueOf? flag uses := by
  rw [valueOf?, valuesOf_concat]
  by_cases same : other = flag
  · rw [if_pos same, if_pos same, List.getLast?_concat]
  · rw [if_neg same, if_neg same, valueOf?]

def ofUses (uses : List (Flag × String)) : CommandLine where
  dotenv := some ((valueOf? .dotenv uses).getD ".env")
  projectDir := (valueOf? .projectDir uses).map Path.ofString
  outputPath := (valueOf? .outputPath uses).map Path.ofString
  single := (valueOf? .single uses).isSome
  ignored := (valuesOf .ignoreDir uses).map some
  skipBuild := (valueOf? .skipBuild uses).isSome
  summary := (valueOf? .summary uses).elim .nowhere (.file ∘ Path.ofString)
  trace := (valueOf? .trace uses).map Path.ofString
  quiet := (valueOf? .quiet uses).isSome

theorem ofUses_concat (uses : List (Flag × String)) (flag : Flag) {value : String}
    (valued : value ≠ "--") : ofUses (uses ++ [(flag, value)]) = (ofUses uses).put flag value := by
  cases flag <;> simp [ofUses, put, valued, valuesOf_concat, valueOf?_concat]

theorem putUses_ofUses {uses : List (Flag × String)} (valued : ∀ use ∈ uses, use.2 ≠ "--") :
    putUses {} uses = ofUses uses := by
  induction uses using List.reverseRecOn with
  | nil => rfl
  | append_singleton uses use ih =>
    obtain ⟨earlier, last⟩ := List.forall_mem_append.mp valued
    rw [putUses_append, ih earlier]
    exact (ofUses_concat uses use.1 (last use (List.mem_singleton_self use))).symm

theorem Accepts.parse_ofUses {arguments : List String} {uses : List (Flag × String)}
    (accepts : Accepts arguments uses) (valued : ∀ use ∈ uses, use.2 ≠ "--") :
    CommandLine.parse arguments = .ok (some (ofUses uses)) := by
  rw [accepts.parse, putUses_ofUses valued]

end CommandLine

end FluentCensus
