import FluentCensus.Proofs.Plan.Run

namespace FluentCensus

theorem Stage.projectRecord_proper (stage : Stage) (index : Nat) (project : Path)
    (measures : Measures) (counted : ∀ h, measures.histogram = some h → h.lengths.Nodup)
    (error : Option String) : (stage.projectRecord index project measures error).Proper where
  extra := stage.plan.extra_proper
  histogram := counted

theorem Stage.records_recorded (stage : Stage) (total : Nat) (found : List Finding)
    (halt : Option Halt) :
    Recorded (Utf8.encode ((stage.records found halt ++
        [stage.total total found halt]).flatMap Record.line))
      (stage.records found halt ++ [stage.total total found halt]) := by
  have projects : ∀ record ∈ found.mapIdx stage.foundRecord, record.Proper := by
    intro record member
    obtain ⟨index, inside, rfl⟩ := List.mem_mapIdx.mp member
    refine stage.projectRecord_proper index _ _ (fun h measured => ?_) none
    cases measured
    exact (Histogram.ofLengths_ascending _).nodup
  refine recorded_lines (List.forall_mem_append.mpr ⟨?_, List.forall_mem_singleton.mpr ?_⟩)
  · cases halt with
    | none => exact projects
    | some halt =>
      cases halt with
      | untold error => exact projects
      | unread project fault =>
        exact List.forall_mem_append.mpr ⟨projects, List.forall_mem_singleton.mpr
          (stage.projectRecord_proper _ _ {} (fun _ => nofun) _)⟩
  · cases halt with
    | none => exact stage.plan.totalRecord_proper _ _ _ rfl _
    | some halt => exact stage.plan.totalRecord_proper _ _ _ rfl _

namespace Plan

/-- The projects are recorded and their rows written in order, and the record of the run comes last.
    Where a project cannot be read, the run stops: that project and the run are recorded as failed,
    there are rows of the projects before it alone, and no file but these two is made or changed. -/
theorem run_protocol {plan : Plan} {host : Host} {path : Path} {projects : List Path}
    {stage : Stage} {found : List Finding} {halt : Option Halt}
    (rooted : host.tree.Rooted) (several : plan.single = false)
    (traced : plan.tracePath = some path)
    (listed : host.tree.subdirectories plan.projectDir = .ok projects)
    (staged : plan.stage path host = .ok stage) (usable : stage.Usable)
    (textual : stage.Textual projects)
    (measured : stage.measure [] projects = (found, halt)) :
    ∃ result after, plan.run.run.run host = (result, after) ∧
      after.tree.bytesAt stage.csv = Utf8.encode (Csv.document (found.map Finding.survey)) ∧
      (halt = none →
        result = .ok (found.map Finding.survey) ∧
        found.map Finding.project = projects ∧
        ∃ added, after.tree.bytesAt stage.trace = host.tree.bytesAt stage.trace ++ added ∧
          Recorded added (found.mapIdx stage.foundRecord ++
            [stage.totalRecord projects.length found.length {
              files := some (sumOf ((found.map Finding.survey).map Survey.files))
              chains := some (sumOf ((found.map Finding.survey).map Survey.chains)) } none])) ∧
      ∀ project fault, halt = some (.unread project fault) → fault.ofFiles = true →
        result = .error (.stop s!"❌ Failed to process project {project.name}: {fault.message}") ∧
        (∃ later, projects = found.map Finding.project ++ project :: later) ∧
        (∃ added, after.tree.bytesAt stage.trace = host.tree.bytesAt stage.trace ++ added ∧
          Recorded added (found.mapIdx stage.foundRecord ++
            [stage.failedRecord found.length project fault,
              stage.totalRecord projects.length (found.length + 1) {} (some "SystemExit")])) ∧
        ∀ place, place ≠ stage.csv → place ≠ stage.trace → ∀ bytes,
          after.tree.root.at? place = some (.file bytes) ↔
            host.tree.root.at? place = some (.file bytes) := by
  obtain ⟨_, rfl, reached, stuck⟩ := Stage.measure_cases measured
  have recorded := stage.records_recorded projects.length found halt
  cases halt with
  | none =>
    obtain ⟨after, ends, left⟩ :=
      run_complete rooted several traced listed staged usable textual measured
    obtain ⟨errors, ran⟩ := ends host.errors
    rw [Stage.total, Stage.records, List.length_mapIdx] at left recorded
    refine ⟨_, _, ran, left.csv, fun _ => ⟨rfl, (reached rfl).1, _, left.trace, recorded⟩, ?_⟩
    rintro project fault ⟨⟩
  | some halt =>
    obtain ⟨after, ends, left, others⟩ :=
      run_halted rooted several traced listed staged usable textual measured
    obtain ⟨errors, ran⟩ := ends host.errors
    refine ⟨_, _, ran, left.csv, by rintro ⟨⟩, ?_⟩
    rintro project fault ⟨⟩ ofFiles
    have raised : (Halt.unread project fault).raised =
        .stop s!"❌ Failed to process project {project.name}: {fault.message}" := if_pos ofFiles
    rw [Stage.total, raised, Stage.records, List.length_append, List.length_mapIdx,
      List.append_assoc] at left recorded
    exact ⟨congrArg _ raised, stuck project fault rfl, ⟨_, left.trace, recorded⟩, others⟩

/-- The second one of three projects has a link to a file that is not there. -/
def corpus : FileTree where
  root := .directory [("c", .directory [
    ("b", .directory [("B.java", .link "gone")]),
    ("a", .directory [("A.java", .file (Utf8.encode "f().g();".toList))]),
    ("d", .directory [])])]

def corpusPlan : Plan where
  projectDir := ⟨.relative, ["c"]⟩
  outputPath := ⟨.relative, ["o"]⟩
  summary := .file ⟨.relative, ["s"]⟩
  tracePath := some ⟨.relative, ["t"]⟩

def corpusStage : Stage where
  plan := corpusPlan
  path := ⟨.relative, ["t"]⟩
  runId := ""
  clock := fun _ => 0
  readings := 0
  csv := ["o"]
  trace := ["t"]
  begun := corpus.putBytes ["o"] []
  opened := (corpus.putBytes ["o"] []).putBytes ["t"] []

def corpusFinding : Finding where
  project := ⟨.relative, ["c", "a"]⟩
  files := [⟨.relative, ["c", "a", "A.java"]⟩]
  lengths := [2]

def corpusFault : Fault := .refused .missing ⟨.relative, ["c", "b", "B.java"]⟩

theorem corpus_usable : corpusStage.Usable where
  apart := by decide
  csv _ _ := rfl
  trace _ _ := rfl
  summary := ⟨corpusStage.opened, ["s"], corpusStage.opened.putBytes ["s"] [], by cbv, by cbv,
    by decide, by decide, fun _ _ => rfl⟩

theorem corpus_textual (projects : List Path) : corpusStage.Textual projects :=
  have plain := Machine.encodable_all (m := corpusStage.begun.machine) rfl
  ⟨⟨plain _, plain _, plain _⟩, fun _ _ => plain _⟩

theorem corpus_found :
    corpusStage.begun.finding [] ⟨.relative, ["c", "a"]⟩ = .ok corpusFinding := by
  have found : corpusStage.begun.find ⟨.relative, ["c", "a"]⟩ = .ok (["c", "a"],
      .directory [("A.java", .file (Utf8.encode "f().g();".toList))]) := by cbv
  have text : corpusStage.begun.source (Path.child ⟨.relative, ["c", "a"]⟩ "A.java") =
      .ok "f().g();".toList := by cbv
  rw [FileTree.finding_single found rfl (by decide) (by cbv), if_pos ⟨by decide, rfl⟩, text]
  cbv

theorem corpus_failed (csv trace : List UInt8) :
    ((corpusStage.opened.putBytes ["o"] csv).putBytes ["t"] trace).finding []
      ⟨.relative, ["c", "b"]⟩ = .error corpusFault := by
  have found : ((corpusStage.opened.putBytes ["o"] csv).putBytes ["t"] trace).find
      ⟨.relative, ["c", "b"]⟩ = .ok (["c", "b"], .directory [("B.java", .link "gone")]) := by cbv
  have lost : ((corpusStage.opened.putBytes ["o"] csv).putBytes ["t"] trace).source
      (Path.child ⟨.relative, ["c", "b"]⟩ "B.java") = .error corpusFault := by cbv
  have entered : corpusStage.opened.machine.nesting ≠ 0 := by decide
  rw [FileTree.finding_single found rfl entered (by cbv), if_pos ⟨by decide, by cbv⟩, lost,
    Except.map]

theorem corpus_measured :
    corpusStage.measure []
        [⟨.relative, ["c", "a"]⟩, ⟨.relative, ["c", "b"]⟩, ⟨.relative, ["c", "d"]⟩] =
      ([corpusFinding], some (.unread ⟨.relative, ["c", "b"]⟩ corpusFault)) := by
  have ignored : corpusStage.plan.ignored = [] := rfl
  have first : (corpusStage.after []).finding [] _ = _ := corpus_found
  have second : (corpusStage.after [corpusFinding]).finding [] _ = _ := corpus_failed _ _
  have histogram : corpusFinding.survey.histogram = ⟨[(2, 1)]⟩ := by cbv
  obtain ⟨figures, stats⟩ : ∃ figures,
      corpusFinding.survey.stats corpusStage.begun.machine.memory = .ok figures := by
    rw [Survey.stats, histogram]
    exact ⟨_, rfl⟩
  rw [Stage.measure, ignored, first]
  dsimp only [List.nil_append]
  rw [stats]
  dsimp only
  rw [Stage.measure, ignored, second]

theorem run_protocol_corpus :
    ∃ after added, corpusPlan.run.run.run { tree := corpus } =
        (.error (.stop s!"❌ Failed to process project b: {corpusFault.message}"), after) ∧
      after.tree.bytesAt ["o"] =
        Utf8.encode "project, chain length, frequency\na, 2, 1\n".toList ∧
      after.tree.bytesAt ["t"] = added ∧ Recorded added [
        corpusStage.foundRecord 0 corpusFinding,
        corpusStage.failedRecord 1 ⟨.relative, ["c", "b"]⟩ corpusFault,
        corpusStage.totalRecord 3 2 {} (some "SystemExit")] := by
  have rooted : ({ tree := corpus } : Host).tree.Rooted := ⟨_, rfl⟩
  have several : corpusPlan.single = false := rfl
  have listed : corpus.subdirectories corpusPlan.projectDir =
      .ok [⟨.relative, ["c", "a"]⟩, ⟨.relative, ["c", "b"]⟩, ⟨.relative, ["c", "d"]⟩] := by cbv
  have staged : corpusPlan.stage ⟨.relative, ["t"]⟩ { tree := corpus } = .ok corpusStage := by cbv
  obtain ⟨_, after, ran, csv, _, stopped⟩ := run_protocol rooted several rfl listed staged
    corpus_usable (corpus_textual _) corpus_measured
  obtain ⟨rfl, _, ⟨added, trace, recorded⟩, _⟩ := stopped _ _ rfl rfl
  have before : ({ tree := corpus } : Host).tree.bytesAt corpusStage.trace = [] := by cbv
  rw [before, List.nil_append] at trace
  refine ⟨after, added, ran, csv.trans ?_, trace, recorded⟩
  cbv

def tracePlan : Plan := { corpusPlan with quiet := true, summary := .nowhere }

structure Fails (tree : FileTree) (fault : Fault) (project run : Option String) : Prop where
  recorded : ∃ after first total, tracePlan.run.run.run { tree } = (.error fault, after) ∧
    Recorded (after.tree.bytesAt ["t"]) [first, total] ∧ first.error = project ∧ total.error = run

def linkedTree : FileTree where
  root := .directory [("c", .directory []), ("t", .link "o")]

def deepTree : FileTree where
  root := .directory [("c", .directory [("a", .directory [("b", .directory [])])])]
  machine := { nesting := 1 }

def crowdedTree : FileTree where
  root := .directory [("c", .directory [("a", .directory [
    ("A.java", .file (Utf8.encode "f();".toList))])])]
  machine := { memory := fun _ => false }

def garbledTree : FileTree where
  root := .directory [("c", .directory [("pÿ", .directory [])]), ("t", .file [])]
  machine := { byte? := fun c => if c = 'ÿ' then some 0xff else none }

def traceStage (tree : FileTree) : Stage :=
  { corpusStage with
    plan := tracePlan
    begun := tree.putBytes ["o"] []
    opened := (tree.putBytes ["o"] []).putBytes ["t"] [] }

theorem fails_halted {tree : FileTree} {found : List Finding} {halt : Halt} {first : Record}
    (rooted : ({ tree } : Host).tree.Rooted)
    (listed : tree.subdirectories tracePlan.projectDir = .ok [⟨.relative, ["c", "a"]⟩])
    (staged : tracePlan.stage ⟨.relative, ["t"]⟩ { tree } = .ok (traceStage tree))
    (takes : ∀ place, tree.machine.Takes place)
    (plain : (traceStage tree).begun.machine.byte? = fun _ => none)
    (fresh : ({ tree } : Host).tree.bytesAt (traceStage tree).trace = [])
    (measured : (traceStage tree).measure [] [⟨.relative, ["c", "a"]⟩] = (found, some halt))
    (single : (traceStage tree).records found (some halt) = [first]) :
    Fails tree halt.raised first.error (some halt.raised.label) := by
  have apart : (["o"] : Location) ≠ ["t"] := by decide
  have usable : (traceStage tree).Usable := ⟨apart, takes ["o"], takes ["t"], trivial⟩
  have plain := Machine.encodable_all (m := (traceStage tree).begun.machine) plain
  obtain ⟨after, ends, left, _⟩ := run_halted rooted rfl rfl listed staged usable
    ⟨⟨plain _, plain _, plain _⟩, fun _ _ => plain _⟩ measured
  obtain ⟨errors, ran⟩ := ends ""
  have trace := left.trace
  rw [fresh, List.nil_append] at trace
  have recorded := trace ▸ (traceStage tree).records_recorded _ found (some halt)
  rw [single] at recorded
  exact ⟨_, first, _, ran, recorded, rfl, rfl⟩

theorem deep_fails : Fails deepTree .tooDeep (some "RecursionError") (some "RecursionError") := by
  have measured : (traceStage deepTree).measure [] [⟨.relative, ["c", "a"]⟩] =
    ([], some (.unread ⟨.relative, ["c", "a"]⟩ .tooDeep)) := by cbv
  exact fails_halted ⟨_, rfl⟩ (by cbv) (by cbv) (fun _ _ _ => rfl) rfl (by cbv) measured rfl

theorem crowded_fails : Fails crowdedTree (.stats (.outOfMemory 1)) none (some "MemoryError") := by
  have ignored : (traceStage crowdedTree).plan.ignored = [] := rfl
  have found : (traceStage crowdedTree).begun.find ⟨.relative, ["c", "a"]⟩ = .ok (["c", "a"],
      .directory [("A.java", .file (Utf8.encode "f();".toList))]) := by cbv
  have text : (traceStage crowdedTree).begun.source
      (Path.child ⟨.relative, ["c", "a"]⟩ "A.java") = .ok "f();".toList := by cbv
  have finding : (traceStage crowdedTree).begun.finding [] ⟨.relative, ["c", "a"]⟩ =
      .ok { corpusFinding with lengths := [1] } := by
    rw [FileTree.finding_single found rfl (by decide) (by cbv), if_pos ⟨by decide, rfl⟩, text]
    cbv
  have first : ((traceStage crowdedTree).after []).finding [] _ = _ := finding
  have measured : (traceStage crowdedTree).measure [] [⟨.relative, ["c", "a"]⟩] =
      ([{ corpusFinding with lengths := [1] }], some (.untold (.outOfMemory 1))) := by
    rw [Stage.measure, ignored, first]
    cbv
  exact fails_halted ⟨_, rfl⟩ (by cbv) (by cbv) (fun _ _ _ => rfl) rfl (by cbv) measured rfl

set_option maxRecDepth 10000 in
/-- A run whose trace leads to the CSV file leaves more than rows in it. Where a project lies too
    deep, has no figures or has a name that is no text, a run ends in an error that is none of the
    file system's: it is recorded, but for the name there is no record of the project. -/
theorem run_departs :
    (∃ after, tracePlan.run.run.run { tree := linkedTree } = (.ok [], after) ∧
      (Csv.document []).length < (after.tree.bytesAt ["o"]).length) ∧
    Fails deepTree .tooDeep (some "RecursionError") (some "RecursionError") ∧
    Fails crowdedTree (.stats (.outOfMemory 1)) none (some "MemoryError") ∧
    ∃ after,
      tracePlan.run.run.run { tree := garbledTree } = (.error (.unencodable 0xff 48 48), after) ∧
      ((Utf8.decode (after.tree.bytesAt ["t"])).splitOn '\n').length = 2 :=
  ⟨⟨_, by cbv, by cbv⟩, deep_fails, crowded_fails, ⟨_, by cbv, by cbv⟩⟩

end Plan

end FluentCensus
