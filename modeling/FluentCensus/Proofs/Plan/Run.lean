import FluentCensus.Proofs.Histogram.Count
import FluentCensus.Proofs.Plan.Summary
import FluentCensus.Proofs.Plan.Survey
import FluentCensus.Proofs.Tree.Built

namespace FluentCensus

namespace Host.Ends

variable {host : Host} {path : Path} {tree : FileTree} {place : Location}

theorem makeTracer {runId : String} {extra : List (String × Json)}
    (made : host.tree.withDirectories path.parent = .ok tree) :
    Ends (Tracer.make runId path extra) host (.ok { serial := host.made, runId, path, extra })
      { host with tree, made := host.made + 1 } := by
  refine bind (ensureDirectories made) (get (fun _ => rfl) ?_)
  exact bind (fun errors => ⟨errors, rfl⟩) (pure _ _)

theorem startWriter {housed made : FileTree}
    (directory : host.tree.withDirectories path.parent = .ok housed)
    (created : housed.openForWriting path = .ok (place, made)) :
    Ends (Csv.Writer.start { path }) host
      (.ok {
        path
        handle := some { place, pending := Utf8.encode (Csv.endLine Csv.header) } })
      { host with tree := made.putBytes place [] } := by
  refine bind (ensureDirectories directory) (bind (openWrite created) ?_)
  exact bind (tryCatch (bind (pure _ _) (pure _ _)))
    (bind (write _ (Machine.encodable_ascii rfl)) (pure _ _))

theorem writeSummary {surveys : List Survey} {value : Json} {made : FileTree}
    (rooted : host.tree.Rooted) (able : host.tree.withFile path = .ok (place, made))
    (takes : host.tree.machine.Takes place)
    (described : Summary.json host.tree.machine.memory surveys = .ok value)
    (plain : host.tree.machine.encodable (value.indented 0) = true) :
    ∃ tree, Ends (Summary.write surveys path) host (.ok ()) { host with tree } ∧
      FileTree.Built [place] host.tree tree := by
  obtain ⟨above, directory, opened⟩ := FileTree.withFile_ok able
  obtain ⟨built, file⟩ := FileTree.Built.withFile rooted able
  have grown := FileTree.withDirectories_grown rooted directory []
  refine ⟨made.putBytes place (Utf8.encode (value.indented 0)),
    bind (ensureDirectories directory) (get (fun _ => rfl) ?_),
    built.trans (.putBytes built.rooted file (List.mem_singleton_self place) _)⟩
  dsimp only
  rw [grown.machine, described]
  rw [← grown.machine] at takes plain
  have housed : ({ host with tree := above } : Host).tree.Rooted := grown.rooted rooted
  exact writeText housed opened takes plain

end Host.Ends

namespace Plan

def span (plan : Plan) (tracer : Tracer) (start projects : Nat) (measures : Measures) : Span where
  tracer
  stage := "run_total"
  start
  measures
  extra := Json.putMembers [] [("projects", .int projects), ("single_project", .bool plan.single)]

theorem ended_span (plan : Plan) {tracer : Tracer} (extra : tracer.extra = plan.extra)
    (start projects : Nat) (measures : Measures) (stop : Nat) (error : Option String) :
    (plan.span tracer start projects measures).ended stop error =
      plan.totalRecord tracer.runId (stop - start) projects measures error := by
  rw [Span.ended, span, totalRecord, extra]
  rfl

end Plan

namespace Stage

def total (stage : Stage) (projects : Nat) (found : List Finding)
    (halt : Option Halt) : Record :=
  let begun := (stage.records found halt).length
  match halt with
  | none =>
    stage.totalRecord projects begun {
      files := some (sumOf ((found.map Finding.survey).map Survey.files))
      chains := some (sumOf ((found.map Finding.survey).map Survey.chains)) } none
  | some halt => stage.totalRecord projects begun {} (some halt.raised.label)

def outcome (found : List Finding) : Option Halt → Except Fault (List Survey)
  | none => .ok (found.map Finding.survey)
  | some halt => .error halt.raised

def span (stage : Stage) (serial projects : Nat) (measures : Measures) : Span :=
  stage.plan.span (stage.tracer serial) (stage.clock stage.readings) projects measures

namespace Sound

variable {stage : Stage} (sound : stage.Sound) {host : Host} {projects : List Path}
    {found : List Finding} {halt : Option Halt}

include sound

theorem surveyInto (several : stage.plan.single = false) (textual : stage.Textual projects)
    {housed made : FileTree}
    (directory : host.tree.withDirectories stage.plan.outputPath.parent = .ok housed)
    (created : housed.openForWriting stage.plan.outputPath = .ok (stage.csv, made))
    (begun : stage.begun = made.putBytes stage.csv [])
    (measured : stage.measure [] projects = (found, halt))
    (tracing : ∃ serial, host.tracer? = some (stage.tracer serial))
    (clock : host.clock = stage.clock) (readings : host.readings = stage.reading 0) :
    Host.Ends (stage.plan.surveyInto projects) host (stage.verdict found found halt)
      { host with
        readings := stage.reading (stage.records found halt).length
        tree := stage.surveyed found halt } := by
  have standing : made.putBytes stage.csv [] = stage.after [] := by
    change _ = stage.begun.putBytes stage.csv []
    rw [begun, FileTree.putBytes_putBytes]
  have stands : stage.Stands { host with tree := made.putBytes stage.csv [] } [] :=
    ⟨tracing, standing, clock, readings⟩
  have surveyed := sound.surveyEach several projects.length textual (List.Subset.refl projects)
    (show stage.measure [] projects = ([] ++ found, halt) from measured) stands 0
  exact .bind (.orStop _ (.startWriter directory created)) surveyed

theorem finishRun (textual : stage.Textual projects) (serial : Nat) {begun : Nat}
    {bytes : List UInt8} {records : List Record} (standing : host.tree = stage.tree bytes records)
    (clock : host.clock = stage.clock) (read : host.readings = stage.reading begun)
    (total : Nat) (measures : Measures) (error : Option Fault) :
    Host.Ends ((stage.span serial total measures).finish (error.map Fault.label)) host (.ok ())
      { host with
        readings := stage.reading begun + 1
        tree := stage.tree bytes (records ++
          [stage.totalRecord total begun measures (error.map Fault.label)]) } := by
  have ended : (stage.span serial total measures).ended (host.clock host.readings)
      (error.map Fault.label) =
        stage.totalRecord total begun measures (error.map Fault.label) := by
    rw [clock, read]
    exact stage.plan.ended_span rfl _ _ _ _ _
  have plain : stage.begun.machine.encodable
      (stage.totalRecord total begun measures (error.map Fault.label)).line = true :=
    (textual.toTextual.total _ total measures error).line
  have ends : Host.Ends ((stage.span serial total measures).finish _) host _ _ :=
    sound.finish standing rfl (ended ▸ plain)
  rwa [ended, read] at ends

/-- The record of the run comes last, after the one of the project that it did not get past. -/
theorem surveyTraced (several : stage.plan.single = false) (textual : stage.Textual projects)
    {above housed made : FileTree} (staged : Plan.Staged stage host.tree above housed made)
    (runId : host.runId = stage.runId) (clock : host.clock = stage.clock)
    (readings : host.readings = stage.readings)
    (measured : stage.measure [] projects = (found, halt)) :
    Host.Ends (stage.plan.surveyTraced projects stage.path) host (outcome found halt)
      { host with
        made := host.made + 1
        readings := stage.reading (stage.records found halt).length + 1
        tree := stage.tree (filed found)
          (stage.records found halt ++ [stage.total projects.length found halt]) } := by
  let tracer := stage.tracer host.made
  let begun := (stage.records found halt).length
  let inside (readings : Nat) (tree : FileTree) : Host :=
    { host with readings, tree, made := host.made + 1, tracers := tracer :: host.tracers }
  have first : (inside (host.readings + 1) above).readings = stage.reading 0 :=
    congrArg (· + 1) readings
  have surveyed : Host.Ends _ (inside (host.readings + 1) above) _
      (inside (stage.reading begun) (stage.surveyed found halt)) :=
    sound.surveyInto several textual staged.directory staged.created staged.begun measured
      ⟨host.made, rfl⟩ clock first
  have entered : Host.Ends (Span.enter { tracer, stage := "run_total" })
      (inside host.readings above)
      (.ok { tracer, stage := "run_total", start := stage.clock stage.readings })
      (inside (host.readings + 1) above) := by
    rw [← clock, ← readings]
    exact .enter _ _
  have made : Host.Ends (Tracer.make host.runId stage.path stage.plan.extra) host (.ok tracer)
      { host with tree := above, made := host.made + 1 } := by
    have made : Host.Ends (Tracer.make host.runId stage.path stage.plan.extra) host _ _ :=
      .makeTracer staged.traced
    rwa [runId] at made ⊢
  refine .get (fun _ => rfl) (.bind (.orStop _ made) ?_)
  refine .during (inside (stage.reading begun + 1) (stage.tree (filed found)
    (stage.records found halt ++ [stage.total projects.length found halt])))
    (.bind entered ?_) rfl
  -- Once the surveys are over, only the record of the run is still to come.
  let last : Host :=
    inside (stage.reading begun) (stage.tree (filed found) (stage.records found halt))
  have standing : last.tree = stage.tree (filed found) (stage.records found halt) := rfl
  have read : last.readings = stage.reading begun := rfl
  have finish := sound.finishRun textual host.made standing clock read projects.length
  cases halt with
  | none =>
    obtain ⟨closed, close⟩ : ∃ closed, Host.Ends (stage.writer found).close
        (inside (stage.reading begun) (stage.tree (written found) (stage.records found none)))
        (.ok closed) _ := sound.close found rfl
    let measures : Measures := {
      files := some (sumOf ((found.map Finding.survey).map Survey.files))
      chains := some (sumOf ((found.map Finding.survey).map Survey.chains)) }
    exact .bind (.guard _ surveyed) (.bind (.guard _ close) (.bind (finish measures none)
      (.pure _ _)))
  | some halt => exact .bind_error (.guard_error surveyed (finish {} (some halt.raised)))

/-- The outputs do not stand in the way of another file, whatever they hold by now. -/
theorem withFile {path : Path} {place : Location} {made : FileTree} {records : List Record}
    (recorded : records ≠ []) (able : stage.opened.withFile path = .ok (place, made))
    (bytes : List UInt8) :
    ∃ made, (stage.tree bytes records).withFile path = .ok (place, made) := by
  obtain ⟨first, rest, rfl⟩ := List.exists_cons_of_ne_nil recorded
  exact ⟨_, FileTree.withFile_putBytes (sound.csvRooted bytes) (sound.csvTrace bytes)
    (FileTree.withFile_putBytes sound.openedRooted sound.csvFile able bytes) _⟩

theorem writeSummary {surveys : List Survey} {value : Json} {path : Path} {place : Location}
    {above made : FileTree} {bytes : List UInt8} {records : List Record}
    (recorded : records ≠ []) (standing : host.tree = stage.tree bytes records)
    (described : Summary.json stage.begun.machine.memory surveys = .ok value)
    (plain : stage.begun.machine.encodable (value.indented 0) = true)
    (directory : stage.opened.withDirectories path.parent = .ok above)
    (created : above.openForWriting path = .ok (place, made))
    (takes : stage.begun.machine.Takes place)
    (apart : place ≠ stage.csv) (also : place ≠ stage.trace) :
    ∃ tree, Host.Ends (Summary.write surveys path) host (.ok ()) { host with tree } ∧
      tree.bytesAt stage.csv = host.tree.bytesAt stage.csv ∧
      tree.bytesAt stage.trace = host.tree.bytesAt stage.trace := by
  obtain ⟨first, rest, rfl⟩ := List.exists_cons_of_ne_nil recorded
  have rooted := sound.treeRooted bytes (first :: rest)
  have able : stage.opened.withFile path = .ok (place, made) := by
    rw [FileTree.withFile, directory]
    exact created
  obtain ⟨_, able⟩ := sound.withFile recorded able bytes
  rw [← sound.machine bytes (first :: rest), ← standing] at takes described plain
  rw [← standing] at rooted able
  obtain ⟨tree, wrote, built⟩ := Host.Ends.writeSummary rooted able takes described plain
  have kept {other : Location} (beside : place ≠ other)
      (there : (stage.tree bytes (first :: rest)).FileAt other) :
      tree.bytesAt other = host.tree.bytesAt other := by
    rw [← standing] at there
    exact FileTree.bytesAt_file (built.file (by simpa using beside.symm) there.bytes)
  have inCsv := sound.csvRooted bytes
  have inTrace := sound.csvTrace bytes
  exact ⟨tree, wrote, kept apart ((sound.csvCsv bytes).put inCsv inTrace _),
    kept also (inTrace.put inCsv inTrace _)⟩

end Sound

end Stage

namespace Plan

variable {plan : Plan} {host : Host} {path : Path} {projects : List Path} {stage : Stage}
  {found : List Finding} {halt : Option Halt}

theorem projects_several (several : plan.single = false)
    (listed : host.tree.subdirectories plan.projectDir = .ok projects) :
    Host.Ends plan.projects host (.ok projects) host := by
  rw [Plan.projects, several]
  exact .orStop _ (.ask listed)

theorem run_traced {action : Except Fault (List Survey)} {after : Host}
    (asked : plan.tracePath = some path)
    (listed : Host.Ends plan.projects host (.ok projects) host)
    (ends : Host.Ends (plan.surveyTraced projects path >>= plan.conclude) host action after) :
    Host.Ends plan.run host action after := by
  refine .bind listed (.bind (.progress _ _ host) (.bind (.progress _ _ host) ?_))
  rw [asked]
  exact ends

/-- What a run leaves in its CSV file and has added to its trace. -/
structure Leaves (stage : Stage) (tree after : FileTree) (found : List Finding)
    (records : List Record) : Prop where
  csv : after.bytesAt stage.csv = Stage.filed found
  trace : after.bytesAt stage.trace =
    tree.bytesAt stage.trace ++ Utf8.encode (records.flatMap Record.line)

theorem run_halted (rooted : host.tree.Rooted) (several : plan.single = false)
    (traced : plan.tracePath = some path)
    (listed : host.tree.subdirectories plan.projectDir = .ok projects)
    (staged : plan.stage path host = .ok stage) (usable : stage.Usable)
    (textual : stage.Textual projects) {halt : Halt}
    (measured : stage.measure [] projects = (found, some halt)) :
    ∃ after, Host.Ends plan.run host (.error halt.raised) after ∧
      Leaves stage host.tree after.tree found (stage.records found (some halt) ++
        [stage.total projects.length found (some halt)]) ∧
      ∀ place, place ≠ stage.csv → place ≠ stage.trace → ∀ bytes,
        after.tree.root.at? place = some (.file bytes) ↔
          host.tree.root.at? place = some (.file bytes) := by
  obtain ⟨⟨rfl, rfl, runId, clock, readings⟩, above, housed, made, steps⟩ := stage_ok staged
  have sound := steps.sound rooted usable
  have surveyed := sound.surveyTraced several textual steps runId.symm clock.symm readings.symm
    measured
  refine ⟨_, run_traced traced (projects_several several listed) (.bind_error surveyed),
    ⟨sound.bytesAt_csv (Stage.filed found) _, ?_⟩, ?_⟩
  · rw [sound.bytesAt_trace _ _ (List.concat_ne_nil _ _), steps.bytesAt_trace rooted usable]
  · exact fun place other also => steps.tree_same rooted usable other also _ _

theorem run_complete (rooted : host.tree.Rooted) (several : plan.single = false)
    (traced : plan.tracePath = some path)
    (listed : host.tree.subdirectories plan.projectDir = .ok projects)
    (staged : plan.stage path host = .ok stage) (usable : stage.Usable)
    (textual : stage.Textual projects) (measured : stage.measure [] projects = (found, none)) :
    ∃ after, Host.Ends plan.run host (.ok (found.map Finding.survey)) after ∧
      Leaves stage host.tree after.tree found
        (stage.records found none ++ [stage.total projects.length found none]) := by
  obtain ⟨⟨rfl, rfl, runId, clock, readings⟩, above, housed, made, steps⟩ := stage_ok staged
  have sound := steps.sound rooted usable
  have surveyed := sound.surveyTraced several textual steps runId.symm clock.symm readings.symm
    measured
  let records := stage.records found none ++ [stage.total projects.length found none]
  have recorded : records ≠ [] := List.concat_ne_nil _ _
  let after : Host := { host with
    made := host.made + 1
    readings := stage.reading (stage.records found none).length + 1
    tree := stage.tree (Stage.filed found) records }
  have csv : after.tree.bytesAt stage.csv = Stage.filed found := sound.bytesAt_csv _ records
  have trace : after.tree.bytesAt stage.trace = _ := sound.bytesAt_trace _ records recorded
  rw [steps.bytesAt_trace rooted usable] at trace
  have run {last : Host} (concluded : Host.Ends (stage.plan.conclude (found.map Finding.survey))
      after (.ok (found.map Finding.survey)) last) :
      Host.Ends stage.plan.run host (.ok (found.map Finding.survey)) last :=
    run_traced traced (projects_several several listed) (.bind surveyed concluded)
  have summary := usable.summary
  unfold conclude at run
  cases destination : stage.plan.summary with
  | nowhere =>
    rw [destination] at run
    exact ⟨after, run (.bind (.progress _ _ _) (.pure _ _)), csv, trace⟩
  | unnamed =>
    rw [destination] at summary
    exact summary.elim
  | file summaryPath =>
    rw [destination] at summary run
    obtain ⟨_, place, _, directory, created, apart, also, takes⟩ := summary
    obtain ⟨_, rfl, all, _⟩ := Stage.measure_cases measured
    obtain ⟨paths, told⟩ := all rfl
    have among {finding : Finding} (member : finding ∈ _) : finding.project ∈ projects :=
      paths ▸ List.mem_map_of_mem member
    obtain ⟨value, json⟩ := Summary.json_total.mpr (List.forall_mem_map.mpr told)
    have plain := (Summary.json_writes json (List.forall_mem_map.mpr fun finding member =>
      ⟨textual.name (among member), textual.paths _ (among member)⟩)).indented 0
    obtain ⟨tree, wrote, sameCsv, sameTrace⟩ := sound.writeSummary recorded
      (show after.tree = _ from rfl) json plain directory created takes apart also
    refine ⟨{ after with tree }, run ?_, sameCsv.trans csv, sameTrace.trans trace⟩
    exact .bind (.orStop _ wrote) (.get (fun _ => rfl) (.bind (.progress _ _ _)
      (.bind (.progress _ _ _) (.pure _ _))))

end Plan

end FluentCensus
