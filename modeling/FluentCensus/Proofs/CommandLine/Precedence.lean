import FluentCensus.Proofs.CommandLine.Uses
import FluentCensus.Proofs.Dotenv.Nearest

namespace FluentCensus

open Dotenv (candidates consulted loaded settled Searchable)

namespace Settings

theorem mem_namesOf (value name : String) :
    name ∈ namesOf value ↔
      name ≠ "" ∧ ∃ part ∈ Text.split ',' value.toList, Text.trim part = name.toList := by
  rw [namesOf, List.mem_eraseDups, List.mem_map]
  constructor
  · rintro ⟨text, member, rfl⟩
    obtain ⟨member, filled⟩ := List.mem_filter.mp member
    obtain ⟨part, among, rfl⟩ := List.mem_map.mp member
    refine ⟨?_, part, among, by simp⟩
    intro empty
    simp_all
  · rintro ⟨filled, part, among, same⟩
    refine ⟨name.toList, List.mem_filter.mpr ⟨List.mem_map.mpr ⟨part, among, same⟩, ?_⟩, by simp⟩
    simpa using filled

def textOf? (host : Host) (name : String) : Option String := host.valueOf? (variableName name)

theorem read_ok {host : Host} {project? output? trace? : Option Path}
    (project : pathOf host (textOf? host "PROJECT_DIR") = .ok project?)
    (output : pathOf host (textOf? host "OUTPUT_PATH") = .ok output?)
    (trace : pathOf host (textOf? host "TRACE_PATH") = .ok trace?) :
    read host host.environment = .ok {
      projectDir := project?, outputPath := output?, tracePath := trace?
      ignored := namesOf ((textOf? host "IGNORE_DIRS").getD "") } := by
  unfold textOf? Host.valueOf? at project output trace
  unfold read
  dsimp only
  rw [project, output, trace]
  rfl

end Settings

theorem Argument.ofString_repeated (n : Nat) :
    Argument.ofString (String.ofList (List.replicate n 'a')) =
      .ok (.plain (String.ofList (List.replicate n 'a'))) := by
  have head : (String.ofList (List.replicate n 'a')).toList.head? ≠ some '-' := by
    rw [String.toList_ofList, List.head?_replicate]
    split <;> simp
  unfold Argument.ofString
  exact if_pos (.inl head)

def Host.told (host : Host) (e : UsageError) : Host :=
  { host with errors := host.errors ++ (Usage.usage (Usage.widthOf (host.valueOf? "COLUMNS")) ++
      s!"{Usage.program}: error: {e.message}\n") }

namespace CommandLine

theorem run_parsed {arguments : List String} {line : CommandLine} {settings : Settings}
    {host after : Host} {found : Option Path} (parsed : parse arguments = .ok (some line))
    (ran : (Dotenv.loadNearest line.dotenv).run.run host = (.ok found, after))
    (read : Settings.read after after.environment = .ok settings) :
    (run arguments).run.run host =
      match line.plan settings with
      | .error e => (.error (.exit 2), after.told e)
      | .ok plan =>
        if none ∈ line.ignored then (.error .noName, after)
        else ((plan.run.run.run after).1.map fun _ => (), (plan.run.run.run after).2) := by
  rw [run, parsed]
  dsimp only
  rw [Host.Ends.run_bind, ran]
  dsimp only
  have get : (MonadState.get : HostM Host).run.run after = (.ok after, after) := rfl
  rw [Host.Ends.run_bind, get]
  dsimp only
  rw [read]
  dsimp only
  cases line.plan settings with
  | error e => rfl
  | ok plan =>
    dsimp only
    by_cases unnamed : none ∈ line.ignored
    · rw [if_pos unnamed, if_pos unnamed]
      rfl
    · rw [if_neg unnamed, if_neg unnamed]
      change (plan.run >>= fun _ => pure ()).run.run after = _
      rw [Host.Ends.run_bind]
      rcases (plan.run.run.run after) with ⟨_ | _, _⟩ <;> rfl

/-- The path that a flag gives, and else a variable does, unless it is blank. -/
inductive Chosen (uses : List (Flag × String)) (host : Host) (flag : Flag) (name : String) :
    Option Path → Prop
  | flag {text : String} (given : valueOf? flag uses = some text) :
      Chosen uses host flag name (some (Path.ofString text))
  | unflagged {path? : Option Path} (left : valueOf? flag uses = none)
      (read : Settings.pathOf host (Settings.textOf? host name) = .ok path?) :
      Chosen uses host flag name path?

/-- The plan that is made of flags and variables: a path is chosen between the two, and names come
    from both. -/
structure Configured (uses : List (Flag × String)) (host : Host) (plan : Plan) : Prop where
  projectDir : Chosen uses host .projectDir "PROJECT_DIR" (some plan.projectDir)
  outputPath : Chosen uses host .outputPath "OUTPUT_PATH" (some plan.outputPath)
  trace : Chosen uses host .trace "TRACE_PATH" plan.tracePath
  ignored : ∀ name, name ∈ plan.ignored ↔
    (name ≠ "" ∧ ∃ part ∈ Text.split ',' ((Settings.textOf? host "IGNORE_DIRS").getD "").toList,
      Text.trim part = name.toList) ∨
    name ∈ valuesOf .ignoreDir uses ∨
    (valueOf? .skipBuild uses).isSome = true ∧ name ∈ Project.buildDirectories
  single : plan.single = (valueOf? .single uses).isSome
  summary : plan.summary = (valueOf? .summary uses).elim .nowhere (.file ∘ Path.ofString)
  quiet : plan.quiet = (valueOf? .quiet uses).isSome

theorem Chosen.unique {uses : List (Flag × String)} {host : Host} {flag : Flag} {name : String}
    {path? other? : Option Path} (first : Chosen uses host flag name path?)
    (second : Chosen uses host flag name other?) : path? = other? := by
  cases first with
  | flag given =>
    cases second with
    | flag also => cases given.symm.trans also; rfl
    | unflagged left => cases given.symm.trans left
  | unflagged left read =>
    cases second with
    | flag given => cases given.symm.trans left
    | unflagged _ also => exact Except.ok.inj (read.symm.trans also)

theorem Chosen.of_read {uses : List (Flag × String)} {host : Host} {flag : Flag} {name : String}
    {path? : Option Path} (read : Settings.pathOf host (Settings.textOf? host name) = .ok path?) :
    Chosen uses host flag name ((valueOf? flag uses).map Path.ofString <|> path?) := by
  cases given : valueOf? flag uses with
  | none => exact .unflagged given read
  | some text => exact .flag given

theorem plan_ofUses (uses : List (Flag × String)) {host : Host} {settings : Settings}
    (projectDir : Settings.pathOf host (Settings.textOf? host "PROJECT_DIR") =
      .ok settings.projectDir)
    (outputPath : Settings.pathOf host (Settings.textOf? host "OUTPUT_PATH") =
      .ok settings.outputPath)
    (trace : Settings.pathOf host (Settings.textOf? host "TRACE_PATH") = .ok settings.tracePath)
    (ignored : settings.ignored =
      Settings.namesOf ((Settings.textOf? host "IGNORE_DIRS").getD "")) :
    match (ofUses uses).plan settings with
    | .error e =>
      Chosen uses host .projectDir "PROJECT_DIR" none ∧ e = .noProjectDir ∨
      (∃ projectDir, Chosen uses host .projectDir "PROJECT_DIR" (some projectDir)) ∧
        Chosen uses host .outputPath "OUTPUT_PATH" none ∧ e = .noOutputPath
    | .ok plan => Configured uses host plan := by
  have project : Chosen uses host .projectDir "PROJECT_DIR"
    ((ofUses uses).projectDir <|> settings.projectDir) := .of_read projectDir
  have output : Chosen uses host .outputPath "OUTPUT_PATH"
    ((ofUses uses).outputPath <|> settings.outputPath) := .of_read outputPath
  unfold plan
  cases there : ((ofUses uses).projectDir <|> settings.projectDir) with
  | none =>
    rw [there] at project
    exact .inl ⟨project, rfl⟩
  | some projectDir =>
    rw [there] at project
    cases here : ((ofUses uses).outputPath <|> settings.outputPath) with
    | none =>
      rw [here] at output
      exact .inr ⟨⟨projectDir, project⟩, output, rfl⟩
    | some outputPath =>
      rw [here] at output
      refine ⟨project, output, .of_read trace, fun name => ?_, rfl, rfl, rfl⟩
      have given : (ofUses uses).ignored.filterMap id = valuesOf .ignoreDir uses := by
        simp [ofUses]
      change name ∈ settings.ignored ++ (ofUses uses).ignored.filterMap id ++
        (if (valueOf? .skipBuild uses).isSome then Project.buildDirectories else []) ↔ _
      rw [given, ignored, List.append_assoc, List.mem_append, List.mem_append,
        Settings.mem_namesOf, List.mem_ite_nil_right]

/-- Accepted arguments run the plan that flags and variables configure, once the first `.env` file
    has given variables that are unset or empty their values. Without a project directory or an
    output path they end with the usage and exit code 2 instead, and nothing is run. -/
theorem run_configured {arguments : List String} {uses : List (Flag × String)} {host : Host}
    {paths : List Path} (accepts : Accepts arguments uses) (valued : ∀ use ∈ uses, use.2 ≠ "--")
    (listed : candidates ((valueOf? .dotenv uses).getD ".env") host.tree.cwd = paths)
    (searchable : Searchable host paths) (plain : ∀ a ∈ consulted host paths, ¬ a.HasNul)
    (expands : ∀ name ∈ ["PROJECT_DIR", "OUTPUT_PATH", "TRACE_PATH"], ∃ path?,
      Settings.pathOf (loaded host paths) (Settings.textOf? (loaded host paths) name) =
        .ok path?) :
    let after := loaded host paths
    let outcome := (run arguments).run.run host
    (∀ name, after.valueOf? name =
      settled false (consulted host paths) name (host.valueOf? name)) ∧
    (Chosen uses after .projectDir "PROJECT_DIR" none ∧
        outcome = (.error (.exit 2), after.told .noProjectDir) ∨
      (∃ projectDir, Chosen uses after .projectDir "PROJECT_DIR" (some projectDir)) ∧
        Chosen uses after .outputPath "OUTPUT_PATH" none ∧
        outcome = (.error (.exit 2), after.told .noOutputPath) ∨
      ∃ plan, Configured uses after plan ∧
        outcome = ((plan.run.run.run after).1.map fun _ => (), (plan.run.run.run after).2)) := by
  obtain ⟨⟨project?, project⟩, ⟨output?, output⟩, ⟨trace?, trace⟩, _⟩ : _ ∧ _ ∧ _ ∧ _ := by
    simpa only [List.forall_mem_cons] using expands
  obtain ⟨⟨found, ran⟩, values⟩ := Dotenv.run_loadNearest
    (show candidates ((some ((valueOf? .dotenv uses).getD ".env")).getD "") host.tree.cwd = paths
      from listed) searchable plain
  refine ⟨values, ?_⟩
  let settings : Settings := {
    projectDir := project?, outputPath := output?, tracePath := trace?
    ignored := Settings.namesOf ((Settings.textOf? (loaded host paths) "IGNORE_DIRS").getD "") }
  have outcome :=
    run_parsed (accepts.parse_ofUses valued) ran (Settings.read_ok project output trace)
  have named : none ∉ (ofUses uses).ignored := by simp [ofUses]
  have planned : match (ofUses uses).plan settings with | .error _ => _ | .ok _ => _ :=
    plan_ofUses uses project output trace rfl
  rw [outcome]
  cases told : (ofUses uses).plan settings with
  | error e =>
    rw [told] at planned
    rcases planned with ⟨project, rfl⟩ | ⟨project, output, rfl⟩
    · exact .inl ⟨project, rfl⟩
    · exact .inr (.inl ⟨project, output, rfl⟩)
  | ok plan =>
    rw [told] at planned
    dsimp only
    rw [if_neg named]
    exact .inr (.inr ⟨plan, planned, rfl⟩)

def layeredHost : Host where
  tree := {
    root := .directory [("w", .directory [
      ("e", .file (Utf8.encode ("METHOD_CHAINS_PROJECT_DIR= ~/c # corpus\n" ++
        "METHOD_CHAINS_OUTPUT_PATH=p\nMETHOD_CHAINS_IGNORE_DIRS=build, .git\n").toList)),
      (".env", .file (Utf8.encode "METHOD_CHAINS_TRACE_PATH=t\n".toList))])]
    cwd := ["w"] }
  environment := [("METHOD_CHAINS_PROJECT_DIR", ""), ("METHOD_CHAINS_IGNORE_DIRS", "gen,, out")]
  login := some "/h"

def layeredArguments : List String := ["--dotenv=e", "-qo", "o", "--ignore-dir", "x"]

def layeredUses : List (Flag × String) :=
  [(.dotenv, "e"), (.quiet, ""), (.outputPath, "o"), (.ignoreDir, "x")]

def layeredPaths : List Path := candidates "e" ["w"]

def layeredAfter : Host :=
  { layeredHost with
    environment := [("METHOD_CHAINS_PROJECT_DIR", "~/c"),
      ("METHOD_CHAINS_IGNORE_DIRS", "gen,, out"), ("METHOD_CHAINS_OUTPUT_PATH", "p")] }

theorem layered_accepts : Accepts layeredArguments layeredUses where
  spelled := by
    refine ⟨[.named .dotenv true (some ['e']), .named .quiet false (some ['o']), .plain "o",
      .named .ignoreDir true none, .plain "x"], by cbv, ?_⟩
    have ignored : Spells [.named .ignoreDir true none, .plain "x"] [(.ignoreDir, "x")] :=
      .apart rfl .nil
    have output : Spells (.named .quiet false (some ['o']) :: .plain "o" :: _)
        ([.quiet].map (·, "") ++ (.outputPath, "o") :: _) := .separate (by cbv) rfl ignored
    exact .together rfl output
  unhelped := by decide

theorem layered_consulted : consulted layeredHost layeredPaths = [
    ⟨"METHOD_CHAINS_PROJECT_DIR".toList, "~/c".toList⟩,
    ⟨"METHOD_CHAINS_OUTPUT_PATH".toList, "p".toList⟩,
    ⟨"METHOD_CHAINS_IGNORE_DIRS".toList, "build, .git".toList⟩] := by
  cbv

theorem layered_loaded : loaded layeredHost layeredPaths = layeredAfter := by
  have environment : (Dotenv.perform false layeredHost.environment
      (consulted layeredHost layeredPaths)).2 = layeredAfter.environment := by
    rw [layered_consulted]
    decide +kernel
  exact congrArg (fun environment => { layeredHost with environment }) environment

theorem run_configured_layered :
    ∃ plan : Plan, (run layeredArguments).run.run layeredHost =
        ((plan.run.run.run layeredAfter).1.map fun _ => (), (plan.run.run.run layeredAfter).2) ∧
      plan.projectDir = ⟨.root, ["h", "c"]⟩ ∧ plan.outputPath = ⟨.relative, ["o"]⟩ ∧
      plan.tracePath = none ∧ plan.quiet = true ∧
      ∀ name, name ∈ plan.ignored ↔ name ∈ ["gen", "out", "x"] := by
  have project : Settings.pathOf layeredAfter (Settings.textOf? layeredAfter "PROJECT_DIR") =
      .ok (some ⟨.root, ["h", "c"]⟩) := by cbv
  have output : Settings.pathOf layeredAfter (Settings.textOf? layeredAfter "OUTPUT_PATH") =
      .ok (some ⟨.relative, ["p"]⟩) := by cbv
  have trace : Settings.pathOf layeredAfter (Settings.textOf? layeredAfter "TRACE_PATH") =
      .ok none := by cbv
  have searchable : Searchable layeredHost layeredPaths :=
    ⟨⟨.relative, ["e"]⟩, by cbv, .inl ⟨_, by cbv⟩⟩
  have plain : ∀ a ∈ consulted layeredHost layeredPaths, ¬ a.HasNul := by
    rw [layered_consulted]
    decide
  have expands : ∀ name ∈ ["PROJECT_DIR", "OUTPUT_PATH", "TRACE_PATH"], ∃ path?,
      Settings.pathOf (loaded layeredHost layeredPaths)
        (Settings.textOf? (loaded layeredHost layeredPaths) name) = .ok path? := by
    rw [layered_loaded]
    simp only [List.forall_mem_cons]
    exact ⟨⟨_, project⟩, ⟨_, output⟩, ⟨_, trace⟩, List.forall_mem_nil _⟩
  have named : candidates ((valueOf? .dotenv layeredUses).getD ".env") layeredHost.tree.cwd =
    layeredPaths := rfl
  obtain ⟨_, outcome⟩ := run_configured layered_accepts (by decide) named searchable plain expands
  rw [layered_loaded] at outcome
  have given : valueOf? .outputPath layeredUses = some "o" := rfl
  have first : Chosen layeredUses layeredAfter .projectDir "PROJECT_DIR" _ := .unflagged rfl project
  have second : Chosen layeredUses layeredAfter .outputPath "OUTPUT_PATH" _ := .flag given
  have third : Chosen layeredUses layeredAfter .trace "TRACE_PATH" _ := .unflagged rfl trace
  rcases outcome with ⟨missing, _⟩ | ⟨_, missing, _⟩ | ⟨plan, configured, ran⟩
  · cases missing.unique first
  · cases missing.unique second
  · refine ⟨plan, ran, Option.some.inj (configured.projectDir.unique first), ?_,
      configured.trace.unique third, configured.quiet, fun name => ?_⟩
    · exact (Option.some.inj (configured.outputPath.unique second)).trans (by cbv)
    · have text : (Settings.textOf? layeredAfter "IGNORE_DIRS").getD "" = "gen,, out" := by cbv
      have names : Settings.namesOf "gen,, out" = ["gen", "out"] := by cbv
      have given : valuesOf .ignoreDir layeredUses = ["x"] := rfl
      have kept : (valueOf? .skipBuild layeredUses).isSome = false := rfl
      rw [configured.ignored, text, ← Settings.mem_namesOf, names, given, kept]
      simp [or_assoc]

theorem run_endless {arguments : List String} {uses : List (Flag × String)} {name : String}
    (accepts : Accepts arguments uses) (valued : ∀ use ∈ uses, use.2 ≠ "--")
    (given : valueOf? .dotenv uses = some name) (endless : Endless name) {host : Host}
    (allowed : host.tree.machine.bars .look ⟨.relative, [name]⟩ = none) :
    (run arguments).run.run host = (.error (.refused .nameTooLong ⟨.relative, [name]⟩), host) := by
  have loaded : (Dotenv.loadNearest (ofUses uses).dotenv).run.run host =
      (.error (.refused .nameTooLong ⟨.relative, [name]⟩), host) := by
    have filled : name ≠ "" := endless.ne_short "" (by decide)
    have first : (ofUses uses).dotenv.getD "" = name := by simp [ofUses, given]
    rw [Dotenv.loadNearest_candidates, first, Dotenv.candidates, if_neg filled, endless.ofString]
    exact Dotenv.run_loadFirst_refused (endless.expandHome host) (endless.isFile allowed) _
  rw [run, accepts.parse_ofUses valued]
  dsimp only
  rw [Host.Ends.run_bind, loaded]

def hyphenArguments : List String := ["-p", "c", "-o", "o", "--ignore-dir=--"]

def hyphenHost : Host where
  tree := { root := .directory [("c", .directory [])] }

theorem hyphen_accepts :
    Accepts hyphenArguments [(.projectDir, "c"), (.outputPath, "o"), (.ignoreDir, "--")] where
  spelled := by
    refine ⟨[.named .projectDir false none, .plain "c", .named .outputPath false none, .plain "o",
      .named .ignoreDir true (some ['-', '-'])], by cbv, ?_⟩
    exact .apart rfl (.apart rfl (.together rfl .nil))
  unhelped := by decide

theorem accepts_dotenv {name : String} (plain : Argument.ofString name = .ok (.plain name))
    (apart : name ≠ "--") :
    Accepts ["-p", "c", "-o", "o", "--dotenv", name]
      [(.projectDir, "c"), (.outputPath, "o"), (.dotenv, name)] where
  spelled := by
    have known : Argument.ofString "-p" = .ok (.named .projectDir false none) ∧
        Argument.ofString "c" = .ok (.plain "c") ∧
        Argument.ofString "-o" = .ok (.named .outputPath false none) ∧
        Argument.ofString "o" = .ok (.plain "o") ∧
        Argument.ofString "--dotenv" = .ok (.named .dotenv true none) :=
      ⟨by cbv, by cbv, by cbv, by cbv, by cbv⟩
    refine ⟨[.named .projectDir false none, .plain "c", .named .outputPath false none, .plain "o",
      .named .dotenv true none, .plain name], by simp [Argument.ofStrings, known, plain, apart], ?_⟩
    exact .apart rfl (.apart rfl (.apart rfl .nil))
  unhelped := by simp

def endlessName : String := String.ofList (List.replicate 256 'a')

def barredHost : Host where
  tree := {
    root := .directory [("c", .directory []), (".env", .file [])]
    machine := { bars := fun access _ => if access = .read then some .denied else none } }

theorem plain_accepts :
    Accepts ["-p", "c", "-o", "o"] [(.projectDir, "c"), (.outputPath, "o")] where
  spelled := ⟨
    [.named .projectDir false none, .plain "c", .named .outputPath false none, .plain "o"],
    by cbv, .apart rfl (.apart rfl .nil)⟩
  unhelped := by decide

/-- None of these accepted command lines surveys the project that it names. -/
theorem run_unconfigured :
    (Accepts hyphenArguments [(.projectDir, "c"), (.outputPath, "o"), (.ignoreDir, "--")] ∧
      ((run hyphenArguments).run.run hyphenHost).1 = .error .noName) ∧
    Accepts ["-p", "c", "-o", "o", "--dotenv", endlessName]
      [(.projectDir, "c"), (.outputPath, "o"), (.dotenv, endlessName)] ∧
    ((run ["-p", "c", "-o", "o", "--dotenv", endlessName]).run.run hyphenHost).1 =
      .error (.refused .nameTooLong ⟨.relative, [endlessName]⟩) ∧
    Accepts ["-p", "c", "-o", "o"] [(.projectDir, "c"), (.outputPath, "o")] ∧
    ((run ["-p", "c", "-o", "o"]).run.run barredHost).1 =
      .error (.refused .denied ⟨.relative, [".env"]⟩) := by
  have endless : Endless endlessName := .repeated (by decide) (by decide)
  have apart : endlessName ≠ "--" := endless.ne_short "--" (by decide)
  have plain : Argument.ofString endlessName = .ok (.plain endlessName) :=
    Argument.ofString_repeated 256
  have accepts := accepts_dotenv plain apart
  have refused : (run _).run.run hyphenHost = _ :=
    run_endless accepts (by simpa using apart) rfl endless rfl
  exact ⟨⟨hyphen_accepts, by cbv⟩, accepts, congrArg Prod.fst refused, plain_accepts, by cbv⟩

end CommandLine

end FluentCensus
