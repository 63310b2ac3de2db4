import FluentCensus.Proofs.Plan.Outputs

namespace FluentCensus

open FileTree (Built Outside)

namespace Stage

theorem Sound.built {stage : Stage} (sound : stage.Sound) {written : List Location}
    (csv : stage.csv ∈ written) (trace : stage.trace ∈ written) (bytes : List UInt8)
    (records : List Record) :
    Built written stage.begun (stage.tree bytes records) ∧
      Built written (stage.tree bytes records) stage.opened := by
  have opening : Built written stage.begun stage.opened :=
    .openForWriting sound.rooted sound.opened
  cases records with
  | nil =>
    exact ⟨.putBytes sound.rooted sound.file csv bytes,
      (Built.unput sound.rooted sound.file csv bytes).trans opening⟩
  | cons record records =>
    have first : Built written stage.opened (stage.opened.putBytes stage.csv bytes) :=
      .putBytes sound.openedRooted sound.csvFile csv bytes
    have second := Built.putBytes (sound.csvRooted bytes) (sound.csvTrace bytes) trace
      (stage.opened.bytesAt stage.trace ++ Utf8.encode ((record :: records).flatMap Record.line))
    refine ⟨(opening.trans first).trans second, ?_⟩
    exact (Built.unput (sound.csvRooted bytes) (sound.csvTrace bytes) trace _).trans
      (.unput sound.openedRooted sound.csvFile csv bytes)

def Recording (stage : Stage) (tracer : Tracer) (count : Nat) (host : Host) : Prop :=
  host.tracer? = some tracer ∧
    ∃ bytes records, records.length = count ∧ host.tree = stage.tree bytes records

end Stage

namespace Plan

theorem Ended.begun {plan : Plan} {csv : Location} {done : List Survey}
    {action other : HostM (List Survey × Csv.Writer)} {host start after : Host}
    {surveys : List Survey × Option Fault} (ended : plan.Ended csv done action start after surveys)
    (begun : ∀ verdict, Host.Ends action start verdict after → Host.Ends other host verdict after) :
    plan.Ended csv done other host after surveys := by
  cases ended with
  | through ends holding => exact .through (begun _ ends) holding
  | stopped ends whole => exact .stopped (begun _ ends) whole

namespace Steady

variable {plan : Plan} {tree : FileTree} {csv : Location} {projects : List Path}
  {holds : Nat → Host → Prop}

theorem of_built (last : FileTree) {written : List Location} (takes : tree.machine.Takes csv)
    (outside : ∀ project ∈ projects, Outside plan.ignored written tree last project)
    (reach : ∀ {count host}, holds count host → Built written tree host.tree ∧
      Built written host.tree last ∧ host.tree.Leads plan.outputPath csv)
    (put : ∀ {count host}, holds count host → ∀ bytes,
      holds count { host with tree := host.tree.putBytes csv bytes })
    (survey : ∀ {count host}, holds count host → ∀ project ∈ projects,
      ∀ options : Project.Options, options.nameFor project = plan.nameFor tree project →
        ∃ after, Host.Ends (Project.survey project options) host
            ((host.tree.finding options.ignored project).map
              (·.named (options.nameFor project))) after ∧
          holds (count + 1) after ∧ after.tree.bytesAt csv = host.tree.bytesAt csv) :
    plan.Steady tree csv projects holds where
  takes := takes
  machine standing := (reach standing).1.machine
  rooted standing := (reach standing).1.rooted
  leads standing := (reach standing).2.2
  named standing member := by
    have found := (outside _ member).find_project (reach standing).1 (reach standing).2.1
    unfold nameOf FileTree.realPath
    rw [found]
  written := put
  surveyed := by
    intro count host standing project member options ignored named
    obtain ⟨before, later, _⟩ := reach standing
    have ends := survey standing project member options named
    rwa [ignored, named, (outside project member).finding before later] at ends

variable (steady : plan.Steady tree csv projects holds) {host : Host} {above made : FileTree}
  (directory : host.tree.withDirectories plan.outputPath.parent = .ok above)
  (created : above.openForWriting plan.outputPath = .ok (csv, made))
  (standing : holds 0 { host with tree := made.putBytes csv [] })

include steady directory created standing

theorem surveyInto (rooted : made.Rooted) (file : made.FileAt csv) :
    ∃ count after, holds count after ∧ min 1 projects.length ≤ count ∧
      plan.Ended csv [] (plan.surveyInto projects) host after (plan.surveysOf tree projects) := by
  have empty : (made.putBytes csv []).bytesAt csv = [] := FileTree.bytesAt_putBytes rooted file []
  have fresh : Csv.Writer.Holding csv ((made.putBytes csv []).bytesAt csv) []
      (Host.Handle.wrote { place := csv } (Csv.endLine Csv.header)) := by
    rw [empty]
    exact .fresh csv
  obtain ⟨count, after, held, some_survey, ended⟩ :=
    steady.surveyEach projects.length 0 standing fresh fun _ => id
  refine ⟨count, after, held, by omega, ended.begun fun _ ends => ?_⟩
  exact .bind (.orStop _ (.startWriter directory created)) ends

theorem surveyUntraced (rooted : made.Rooted) (file : made.FileAt csv) :
    ∃ count after, holds count after ∧ min 1 projects.length ≤ count ∧
      Host.Ends (plan.surveyUntraced projects) host (verdictOf (plan.surveysOf tree projects))
        after ∧
      after.tree.bytesAt csv = Utf8.encode (Csv.document (plan.surveysOf tree projects).1) := by
  obtain ⟨count, after, held, some_survey, ended⟩ :=
    steady.surveyInto directory created standing rooted file
  generalize plan.surveysOf tree projects = surveys at ended
  cases ended with
  | through ends holding =>
    obtain ⟨closed, last, close, held, whole⟩ := steady.close held holding plan.outputPath
    exact ⟨count, last, held, some_survey, .bind ends (.bind close (.pure _ _)), whole⟩
  | stopped ends whole => exact ⟨count, after, held, some_survey, .bind_error ends, whole⟩

end Steady

structure Finished (plan : Plan) (csv : Location) (opened : FileTree) (surveys : List Survey)
    (tree after : FileTree) : Prop where
  machine : after.machine = tree.machine
  rooted : after.Rooted
  leads : after.Leads plan.outputPath csv
  whole : after.bytesAt csv = Utf8.encode (Csv.document surveys)
  able : ∀ path place made, opened.withFile path = .ok (place, made) →
    ∃ made, after.withFile path = .ok (place, made)

/-- No tracer in force is given a record of a project, and only the CSV file is written. -/
def Unrecorded (projects : List Path) (begun : FileTree) (csv : Location) (_surveys : Nat)
    (host : Host) : Prop :=
  (projects = [] ∨ host.tracer? = none) ∧ ∃ bytes, host.tree = begun.putBytes csv bytes

section Surveys

variable {plan : Plan} {host : Host} {outputs : Outputs} {projects : List Path}
  {above housed made opened : FileTree} (rooted : host.tree.Rooted)
  (making : plan.Making host projects outputs above housed made opened)
  (unobtrusive : plan.Unobtrusive host projects outputs)

include rooted making

omit unobtrusive in
theorem Making.begun :
    Built outputs.places host.tree (made.putBytes outputs.csv []) ∧
      (made.putBytes outputs.csv []).Leads plan.outputPath outputs.csv ∧
      made.Rooted ∧ made.FileAt outputs.csv := by
  have first : Built outputs.places host.tree above := .traceDirectory rooted making.traced
  have second := first.trans (.withDirectories first.rooted making.directory)
  have third := second.trans (.openForWriting second.rooted making.created)
  obtain ⟨_, leads⟩ := FileTree.openForWriting_writes second.rooted making.created
  have last : Built outputs.places made (made.putBytes outputs.csv []) :=
    .putBytes third.rooted leads.file List.mem_cons_self []
  exact ⟨third.trans last, last.leads leads, third.rooted, leads.file⟩

include unobtrusive

theorem surveys_unrecorded (asked : plan.tracePath = none)
    (unrecorded : plan.recorder host projects = none) :
    ∃ after, Host.Ends (plan.surveyUntraced projects) host
        (verdictOf (plan.surveysOf host.tree projects)) after ∧
      plan.Finished outputs.csv opened (plan.surveysOf host.tree projects).1 host.tree
        after.tree := by
  obtain ⟨built, leads, madeRooted, file⟩ := making.begun rooted
  obtain ⟨traced, directory, created, trace, summary⟩ := making
  rw [asked] at traced
  rw [unrecorded] at trace
  cases traced
  obtain rfl : made.putBytes outputs.csv [] = opened := congrArg Prod.snd (Except.ok.inj trace)
  let begun := made.putBytes outputs.csv []
  have idle : projects = [] ∨ host.tracer? = none := by
    unfold recorder at unrecorded
    rw [asked] at unrecorded
    cases projects with
    | nil => exact .inl rfl
    | cons project rest => exact .inr unrecorded
  have member : outputs.csv ∈ outputs.places := List.mem_cons_self
  have steady : plan.Steady host.tree outputs.csv projects
      (Unrecorded projects begun outputs.csv) := by
    refine .of_built outputs.tree (unobtrusive.takes _ member) unobtrusive.outside ?_ ?_ ?_
    · rintro _ other ⟨_, bytes, standing⟩
      rw [standing]
      have put : Built outputs.places begun (begun.putBytes outputs.csv bytes) :=
        .putBytes built.rooted leads.file member bytes
      exact ⟨built.trans put, (Built.unput built.rooted leads.file member bytes).trans
        (.summaryFile built.rooted summary), put.leads leads⟩
    · rintro _ other ⟨idle, old, standing⟩ bytes
      refine ⟨idle, bytes, ?_⟩
      rw [standing]
      exact FileTree.putBytes_putBytes _ _ _ _
    · rintro _ other ⟨nobody | idle, standing⟩ project among options _
      · rw [nobody] at among
        cases among
      · exact ⟨other, .survey_untraced idle project options, ⟨.inr idle, standing⟩, rfl⟩
  obtain ⟨_, after, held, _, ends, whole⟩ := steady.surveyUntraced directory created
    ⟨idle, [], (FileTree.putBytes_putBytes _ _ _ _).symm⟩ madeRooted file
  have ⟨_, bytes, standing⟩ := held
  refine ⟨after, ends, steady.machine held, steady.rooted held, steady.leads held, whole,
    fun path place tree made => ?_⟩
  rw [standing]
  exact ⟨_, FileTree.withFile_putBytes built.rooted leads.file made bytes⟩

structure Serves (host : Host) (outputs : Outputs) (begun opened : FileTree) (tracer : Tracer)
    (stage : Stage) : Prop where
  path : stage.path = tracer.path
  csv : stage.csv = outputs.csv
  begun : stage.begun = begun
  opened : stage.opened = opened
  sound : stage.Sound
  machine : stage.begun.machine = host.tree.machine
  among : stage.trace ∈ outputs.places

omit rooted making unobtrusive in
theorem Serves.start {tracer : Tracer} {stage : Stage}
    (serves : Serves host outputs (made.putBytes outputs.csv []) opened tracer stage) :
    made.putBytes outputs.csv [] = stage.tree [] [] := by
  rw [Stage.tree, serves.begun, serves.csv, FileTree.putBytes_putBytes]

section Recorded

variable {tracer : Tracer} (recorded : plan.recorder host projects = some tracer)

include recorded

theorem recorded_stage : ∃ stage : Stage,
    Serves host outputs (made.putBytes outputs.csv []) opened tracer stage := by
  obtain ⟨built, leads, _, _⟩ := making.begun rooted
  have trace := making.trace
  rw [recorded] at trace
  obtain ⟨place, spot, ran⟩ := FileTree.traceFile_some trace
  obtain ⟨among, apart⟩ := Outputs.apart unobtrusive.distinct (.inl spot.symm)
  have takes {place : Location} (member : place ∈ outputs.places) :
      (made.putBytes outputs.csv []).machine.Takes place :=
    built.machine ▸ unobtrusive.takes place member
  let stage : Stage := {
    plan, path := tracer.path, runId := tracer.runId, clock := host.clock
    readings := host.readings, csv := outputs.csv, trace := place
    begun := made.putBytes outputs.csv [], opened }
  have sound : stage.Sound :=
    ⟨built.rooted, leads.file, ran, apart, takes List.mem_cons_self, takes among⟩
  exact ⟨stage, rfl, rfl, rfl, rfl, sound, built.machine, among⟩

variable {stage : Stage}
  (serves : Serves host outputs (made.putBytes outputs.csv []) opened tracer stage)

include serves

theorem recorded_steady :
    plan.Steady host.tree outputs.csv projects (stage.Recording tracer) := by
  obtain ⟨built, leads, _, _⟩ := making.begun rooted
  rw [← serves.begun] at built leads
  have sound := serves.sound
  have member : outputs.csv ∈ outputs.places := List.mem_cons_self
  refine .of_built outputs.tree (unobtrusive.takes _ member) unobtrusive.outside ?_ ?_ ?_
  · rintro _ other ⟨_, bytes, records, _, standing⟩
    rw [standing]
    obtain ⟨ahead, back⟩ := sound.built (serves.csv ▸ member) serves.among bytes records
    have rest : Built outputs.places stage.opened outputs.tree :=
      .summaryFile sound.openedRooted (serves.opened ▸ making.summary)
    exact ⟨built.trans ahead, back.trans rest, ahead.leads leads⟩
  · rintro _ other ⟨tracing, old, records, counted, standing⟩ bytes
    refine ⟨tracing, bytes, records, counted, ?_⟩
    rw [standing, ← serves.csv]
    exact sound.putBytes_csv old records bytes
  · rintro _ other ⟨tracing, bytes, records, counted, standing⟩ project member options named
    obtain ⟨runId, extra, names⟩ := unobtrusive.legible.recorded tracer recorded
    have plain := (tracer.projectRecord_textual runId extra (named ▸ names project member)
      (other.clock (other.readings + 1) - other.clock other.readings)
      (other.tree.finding options.ignored project)).line
    have survey := Host.Ends.survey_traced tracing project options
    dsimp only at survey
    rw [← serves.machine] at plain
    rw [← serves.path, standing, sound.log bytes records (standing ▸ plain), ← standing] at survey
    refine ⟨_, survey, ⟨tracing, bytes, _, ?_, rfl⟩, ?_⟩
    · rw [List.length_append, counted]
      rfl
    · dsimp only
      rw [standing, ← serves.csv, sound.bytesAt_csv, sound.bytesAt_csv]

omit rooted making in
theorem recorded_finish {other : Host} {count : Nat} (held : stage.Recording tracer count other)
    (mine : tracer.extra = plan.extra) (start : Nat) (measures : Measures) (error : Option Fault) :
    ∃ after, Host.Ends ((plan.span tracer start projects.length measures).finish
        (error.map Fault.label)) other (.ok ()) after ∧
      stage.Recording tracer (count + 1) after ∧
      after.tree.bytesAt outputs.csv = other.tree.bytesAt outputs.csv := by
  obtain ⟨tracing, bytes, records, counted, standing⟩ := held
  obtain ⟨runId, extra, _⟩ := unobtrusive.legible.recorded tracer recorded
  have ended := plan.ended_span mine start projects.length measures (other.clock other.readings)
    (error.map Fault.label)
  have plain := (plan.totalRecord_textual runId (mine ▸ extra)
    (other.clock other.readings - start) projects.length measures error).line
  rw [← ended, ← serves.machine] at plain
  have finish : Host.Ends ((plan.span tracer start projects.length measures).finish _) other _ _ :=
    serves.sound.finish standing serves.path.symm plain
  refine ⟨_, finish, ⟨tracing, bytes, _, ?_, rfl⟩, ?_⟩
  · rw [List.length_append, counted]
    rfl
  · dsimp only
    rw [standing, ← serves.csv, serves.sound.bytesAt_csv, serves.sound.bytesAt_csv]

theorem recorded_finished {other : Host} {count : Nat} (held : stage.Recording tracer count other)
    (some_record : count ≠ 0) {surveys : List Survey}
    (whole : other.tree.bytesAt outputs.csv = Utf8.encode (Csv.document surveys)) :
    plan.Finished outputs.csv opened surveys host.tree other.tree := by
  have steady := recorded_steady rooted making unobtrusive recorded serves
  refine ⟨steady.machine held, steady.rooted held, steady.leads held, whole,
    fun path place tree made => ?_⟩
  obtain ⟨_, bytes, records, counted, standing⟩ := held
  have filled : records ≠ [] := fun none => some_record (counted ▸ none ▸ rfl)
  rw [standing]
  exact serves.sound.withFile filled (serves.opened ▸ made) bytes

end Recorded

/-- A tracer that is in force already is given the records of the projects, of which there are
    some. -/
theorem surveys_inherited (asked : plan.tracePath = none) {tracer : Tracer}
    (recorded : plan.recorder host projects = some tracer) :
    ∃ after, Host.Ends (plan.surveyUntraced projects) host
        (verdictOf (plan.surveysOf host.tree projects)) after ∧
      plan.Finished outputs.csv opened (plan.surveysOf host.tree projects).1 host.tree
        after.tree := by
  obtain ⟨_, leads, madeRooted, file⟩ := making.begun rooted
  obtain ⟨stage, serves⟩ := recorded_stage rooted making unobtrusive recorded
  have steady := recorded_steady rooted making unobtrusive recorded serves
  have traced := making.traced
  rw [asked] at traced
  cases traced
  have ⟨filled, tracing⟩ : projects ≠ [] ∧ host.tracer? = some tracer := by
    unfold recorder at recorded
    rw [asked] at recorded
    cases projects with
    | nil => cases recorded
    | cons project rest => exact ⟨List.cons_ne_nil _ _, recorded⟩
  obtain ⟨count, after, held, some_survey, ends, whole⟩ := steady.surveyUntraced making.directory
    making.created ⟨tracing, [], [], rfl, serves.start⟩ madeRooted file
  have positive := List.length_pos_iff.mpr filled
  exact ⟨after, ends, recorded_finished rooted making unobtrusive recorded serves held (by omega)
    whole⟩

/-- The tracer of the run is given a record of the run as well. -/
theorem surveys_traced {path : Path} (asked : plan.tracePath = some path) :
    ∃ after, Host.Ends (plan.surveyTraced projects path) host
        (verdictOf (plan.surveysOf host.tree projects)) after ∧
      plan.Finished outputs.csv opened (plan.surveysOf host.tree projects).1 host.tree
        after.tree := by
  let tracer := plan.tracer host path
  have recorded : plan.recorder host projects = some tracer := by rw [recorder, asked]
  obtain ⟨_, leads, madeRooted, file⟩ := making.begun rooted
  obtain ⟨stage, serves⟩ := recorded_stage rooted making unobtrusive recorded
  have steady := recorded_steady rooted making unobtrusive recorded serves
  have traced := making.traced
  rw [asked] at traced
  let inside (readings : Nat) : Host :=
    { host with readings, tree := above, made := host.made + 1, tracers := tracer :: host.tracers }
  have directory : (inside (host.readings + 1)).tree.withDirectories plan.outputPath.parent = _ :=
    making.directory
  obtain ⟨count, last, held, _, surveyed⟩ := steady.surveyInto directory making.created
    ⟨rfl, [], [], rfl, serves.start⟩ madeRooted file
  have finish {other : Host} {count : Nat} (held : stage.Recording tracer count other) :=
    recorded_finish unobtrusive recorded serves held rfl (host.clock host.readings)
  have finished {other : Host} {count : Nat} (held : stage.Recording tracer (count + 1) other)
      {surveys : List Survey}
      (whole : other.tree.bytesAt outputs.csv = Utf8.encode (Csv.document surveys)) :=
    recorded_finished rooted making unobtrusive recorded serves held (Nat.succ_ne_zero count) whole
  have within {verdict : Except Fault (List Survey)} {after : Host} (ends) :
      Host.Ends (plan.surveyTraced projects path) host verdict
        { after with tracers := host.tracers } :=
    .get (fun _ => rfl) (.bind (.orStop _ (.makeTracer traced))
      (.during after (.bind (.enter _ (inside host.readings)) ends) rfl))
  generalize plan.surveysOf host.tree projects = surveys at surveyed
  cases surveyed with
  | through ends holding =>
    rename_i found handle
    obtain ⟨closed, middle, close, held, whole⟩ := steady.close held holding plan.outputPath
    obtain ⟨after, last, held, same⟩ := finish held {
      files := some (sumOf (found.map Survey.files))
      chains := some (sumOf (found.map Survey.chains)) } none
    refine ⟨_, within ?_, finished held (same.trans whole)⟩
    exact .bind (.guard _ ends) (.bind (.guard _ close) (.bind last (.pure _ _)))
  | stopped ends whole =>
    rename_i found fault
    obtain ⟨after, last, held, same⟩ := finish held {} (some fault)
    exact ⟨_, within (.bind_error (.guard_error ends last)), finished held (same.trans whole)⟩

end Surveys

theorem conclude_finished {plan : Plan} {host start : Host} {projects : List Path}
    {outputs : Outputs} {opened : FileTree} {surveys : List Survey}
    (unobtrusive : plan.Unobtrusive start projects outputs)
    (summary : opened.summaryFile plan.summary = .ok (outputs.summary, outputs.tree))
    (through : plan.surveysOf start.tree projects = (surveys, none))
    (finished : plan.Finished outputs.csv opened surveys start.tree host.tree) :
    ∃ after, Host.Ends (plan.conclude surveys) host (.ok surveys) after ∧
      after.tree.Leads plan.outputPath outputs.csv ∧
      after.tree.bytesAt outputs.csv = Utf8.encode (Csv.document surveys) := by
  have known := surveysOf_through through
  have legible := unobtrusive.legible.summarised
  unfold conclude
  cases asked : plan.summary with
  | nowhere =>
    exact ⟨host, .bind (.progress _ _ _) (.pure _ _), finished.leads, finished.whole⟩
  | unnamed =>
    rw [asked] at summary
    cases summary
  | file path =>
    rw [asked] at summary legible
    obtain ⟨⟨place, made⟩, ran, same⟩ := bind_ok summary
    obtain ⟨spot, _⟩ := Prod.mk.inj (Except.ok.inj same)
    obtain ⟨among, apart⟩ := Outputs.apart unobtrusive.distinct (.inr spot)
    obtain ⟨last, able⟩ := finished.able path place made ran
    obtain ⟨value, json⟩ := Summary.json_total.mpr fun s member => (known s member).2
    have plain := (Summary.json_writes (m := start.tree.machine) json fun s member => by
      obtain ⟨⟨project, among, name, path⟩, _⟩ := known s member
      rw [name, path]
      exact legible nofun project among).indented 0
    have takes := unobtrusive.takes place among
    rw [← finished.machine] at json plain takes
    obtain ⟨tree, wrote, built⟩ := Host.Ends.writeSummary finished.rooted able takes json plain
    refine ⟨{ host with tree }, .bind (.orStop _ wrote) (.get (fun _ => rfl) ?_),
      built.leads finished.leads, ?_⟩
    · exact .bind (.progress _ _ _) (.bind (.progress _ _ _) (.pure _ _))
    · rw [← finished.whole]
      refine FileTree.bytesAt_file (built.file (fun member => ?_) finished.leads.file.bytes)
      exact apart (List.mem_singleton.mp member)

/-- A run whose projects are listed ends as they do, and its CSV file has their rows. -/
theorem run_finished {plan : Plan} {host : Host} {outputs : Outputs} {projects : List Path}
    (rooted : host.tree.Rooted) (unobtrusive : plan.Unobtrusive host projects outputs)
    (listed : Host.Ends plan.projects host (.ok projects) host) :
    ∃ after, Host.Ends plan.run host (verdictOf (plan.surveysOf host.tree projects)) after ∧
      after.tree.Leads plan.outputPath outputs.csv ∧ after.tree.bytesAt outputs.csv =
        Utf8.encode (Csv.document (plan.surveysOf host.tree projects).1) := by
  obtain ⟨above, housed, made, opened, making⟩ := outputs_ok unobtrusive.made
  have concluded {action : HostM (List Survey)} {middle : Host}
      (surveyed : Host.Ends action host (verdictOf (plan.surveysOf host.tree projects)) middle)
      (finished : plan.Finished outputs.csv opened (plan.surveysOf host.tree projects).1 host.tree
        middle.tree) :
      ∃ after, Host.Ends (action >>= plan.conclude) host
          (verdictOf (plan.surveysOf host.tree projects)) after ∧
        after.tree.Leads plan.outputPath outputs.csv ∧ after.tree.bytesAt outputs.csv =
          Utf8.encode (Csv.document (plan.surveysOf host.tree projects).1) := by
    cases ended : plan.surveysOf host.tree projects with
    | mk surveys fault? =>
      rw [ended] at surveyed finished
      cases fault? with
      | some fault => exact ⟨middle, .bind_error surveyed, finished.leads, finished.whole⟩
      | none =>
        obtain ⟨after, ends, leads, whole⟩ :=
          conclude_finished unobtrusive making.summary ended finished
        exact ⟨after, .bind surveyed ends, leads, whole⟩
  cases asked : plan.tracePath with
  | none =>
    obtain ⟨middle, surveyed, finished⟩ : ∃ after, Host.Ends (plan.surveyUntraced projects) host
        (verdictOf (plan.surveysOf host.tree projects)) after ∧
        plan.Finished outputs.csv opened (plan.surveysOf host.tree projects).1 host.tree
          after.tree := by
      cases recorded : plan.recorder host projects with
      | none => exact surveys_unrecorded rooted making unobtrusive asked recorded
      | some tracer => exact surveys_inherited rooted making unobtrusive asked recorded
    obtain ⟨after, ends, held⟩ := concluded surveyed finished
    refine ⟨after, .bind listed (.bind (.progress _ _ host) (.bind (.progress _ _ host) ?_)), held⟩
    rw [asked]
    exact ends
  | some path =>
    obtain ⟨middle, surveyed, finished⟩ := surveys_traced rooted making unobtrusive asked
    obtain ⟨after, ends, held⟩ := concluded surveyed finished
    exact ⟨after, run_traced asked listed ends, held⟩

end Plan

end FluentCensus
