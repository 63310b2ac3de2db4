import FluentCensus.Proofs.Plan.Contained
import FluentCensus.Proofs.Plan.Trace

namespace FluentCensus

open FileTree (Writes Adds)

namespace Plan

/-- What has come of the projects of a run once its CSV file is closed. -/
structure Settled (plan : Plan) (host : Host) (projects : List Path) (tree : FileTree)
    (verdict : Except Fault (List Survey)) : Prop where
  writes : Writes (plan.outputPath :: host.traces) host.tree tree
  raised : ∀ fault, verdict = .error fault → fault.ofFiles = true →
    tree.Stopped plan.outputPath fault
  returned : ∀ surveys, verdict = .ok surveys →
    surveys.map Survey.path = projects ∧ Csv.Filed tree plan.outputPath host.traces surveys
  reported : ∀ tracer, host.tracer? = some tracer →
    tracer.Reported [plan.outputPath] host.tree tree verdict

namespace Surveyed

variable {plan : Plan} {host : Host} {projects : List Path} {tree : FileTree}

theorem halted {fault : Fault} (surveyed : plan.Surveyed host [] projects tree (.error fault)) :
    plan.Settled host projects tree (.error fault) where
  writes := surveyed.writes
  raised other same := by
    cases same
    exact surveyed.raised fault rfl
  returned _ := nofun
  reported := surveyed.reported

theorem close (now : Host) {surveys : List Survey} {writer : Csv.Writer}
    (surveyed : plan.Surveyed host [] projects now.tree (.ok (surveys, writer))) :
    ∃ tree closed, Host.Ends writer.close now closed { now with tree } ∧
      plan.Settled host projects tree (closed.map fun _ => surveys) := by
  obtain ⟨paths, handle, isOpen⟩ := surveyed.returned _ _ rfl
  obtain ⟨tree, stores, outcome⟩ := isOpen.close_cases surveyed.writes.rooted
  have writes := surveyed.writes.trans (stores.toWrites.mono (by simp))
  have reported tracer tracing := (surveyed.reported tracer tracing).stores stores
  rcases outcome with ⟨fault, close, stopped⟩ | ⟨closed, close, filed⟩
  · refine ⟨tree, .error fault, close, writes, fun other same _ => ?_, fun _ => nofun,
      fun tracer tracing => (reported tracer tracing).failed fault⟩
    cases same
    exact stopped
  · refine ⟨tree, .ok closed, close, writes, fun _ => nofun, fun listed same => ?_, reported⟩
    cases same
    exact ⟨paths, filed⟩

end Surveyed

end Plan

def Fault.of? {α : Type} : Except Fault α → Option Fault
  | .ok _ => none
  | .error fault => some fault

namespace Plan

/-- What a traced run has come to when its record is added to the trace: its surveys, which may have
    failed, and that record. -/
structure Totalled (plan : Plan) (host : Host) (path : Path) (projects : List Path)
    (middle after : FileTree) (verdict : Except Fault (List Survey)) (written : Except Fault Unit)
    (total : Record) : Prop where
  writes : Writes [plan.outputPath, path] host.tree middle
  raised : ∀ fault, verdict = .error fault → fault.ofFiles = true →
    middle.Stopped plan.outputPath fault
  returned : ∀ surveys, verdict = .ok surveys →
    surveys.map Survey.path = projects ∧ Csv.Filed middle plan.outputPath [path] surveys
  reported : (plan.tracer host path).Reported [plan.outputPath] host.tree middle verdict
  recorded : ∃ latency measures,
    total = plan.totalRecord host.runId latency projects.length measures
      ((Fault.of? verdict).map Fault.label) ∧
    measures.histogram = none ∧ ∀ surveys, verdict = .ok surveys → measures = {
      files := some (sumOf (surveys.map Survey.files))
      chains := some (sumOf (surveys.map Survey.chains)) }
  logged : middle.appending path total.line = (written, after)

theorem Settled.totalled {plan : Plan} {host : Host} {path : Path} {projects : List Path}
    {above middle : FileTree} {readings : Nat} {verdict : Except Fault (List Survey)}
    (directories : Writes [] host.tree above)
    (settled : plan.Settled { host with
      tree := above, readings, made := host.made + 1
      tracers := plan.tracer host path :: host.tracers } projects middle verdict)
    (latency : Int) {measures : Measures} (unmeasured : measures.histogram = none)
    (known : ∀ surveys, verdict = .ok surveys → measures = {
      files := some (sumOf (surveys.map Survey.files))
      chains := some (sumOf (surveys.map Survey.chains)) }) :
    let total := plan.totalRecord host.runId latency projects.length measures
      ((Fault.of? verdict).map Fault.label)
    let logged := middle.appending path total.line
    plan.Totalled host path projects middle logged.2 verdict logged.1 total where
  writes := (directories.mono nofun).trans settled.writes
  raised := settled.raised
  returned := settled.returned
  reported := (settled.reported _ rfl).since (directories.mono nofun) settled.writes.toLater
  recorded := ⟨latency, measures, rfl, unmeasured, known⟩
  logged := rfl

end Plan

namespace Plan.Totalled

variable {plan : Plan} {host : Host} {path : Path} {projects : List Path}
  {middle after last : FileTree} {verdict : Except Fault (List Survey)}
  {written : Except Fault Unit} {total : Record}

theorem appends (totalled : plan.Totalled host path projects middle after verdict written total) :
    middle.Appends path total.line written after := by
  have appends := FileTree.appending_appends totalled.writes.rooted path total.line
  rwa [totalled.logged] at appends

theorem added (totalled : plan.Totalled host path projects middle after verdict (.ok ()) total) :
    ∃ place, after.Leads path place ∧ Writes [path] middle after ∧
      after.bytesAt place = middle.bytesAt place ++ Utf8.encode total.line := by
  cases totalled.appends with
  | added leads writes _ added =>
    exact ⟨_, leads, writes, added⟩

/-- The trace ends with the record of the run, and before it stand those of the projects, if the CSV
    file has not got in their way. -/
theorem bytes {records : List Record} {trace : Location}
    (totalled : plan.Totalled host path projects middle after verdict (.ok ()) total)
    (adds : Adds path [plan.outputPath] records host.tree middle)
    (later : FileTree.Later after last) (leads : last.Leads path trace) :
    ∃ before, after.bytesAt trace = before ++ Utf8.encode total.line ∧
      (¬ last.Leads plan.outputPath trace →
        before = host.tree.bytesAt trace ++ Utf8.encode (records.flatMap Record.line)) := by
  obtain ⟨place, here, writes, added⟩ := totalled.added
  obtain rfl := leads.unique (later.leads here)
  exact ⟨_, added, fun apart => adds last place (writes.toLater.trans later) leads
    (by simpa using apart)⟩

theorem project_proper {record : Record} {name : String} {latency : Int}
    {result : Except Fault Finding}
    (same : record = (plan.tracer host path).projectRecord name latency result) : record.Proper :=
  same ▸ Tracer.projectRecord_proper plan.extra_proper name latency result

theorem proper (totalled : plan.Totalled host path projects middle after verdict written total) :
    total.Proper := by
  obtain ⟨latency, measures, rfl, unmeasured, _⟩ := totalled.recorded
  exact plan.totalRecord_proper _ _ _ unmeasured _

end Plan.Totalled

namespace Host.Ends

variable {host : Host}

theorem surveyUntraced_cases (plan : Plan) (host : Host) (rooted : host.tree.Rooted)
    (projects : List Path) :
    ∃ tree readings verdict,
      Ends (plan.surveyUntraced projects) host verdict { host with tree, readings } ∧
      plan.Settled host projects tree verdict := by
  obtain ⟨middle, readings, verdict, ends, surveyed⟩ := surveyInto_cases plan host rooted projects
  cases verdict with
  | error fault => exact ⟨middle, readings, _, bind_error ends, surveyed.halted⟩
  | ok found =>
    obtain ⟨tree, closed, close, settled⟩ :=
      surveyed.close { host with tree := middle, readings }
    refine ⟨tree, readings, _, bind ends ?_, settled⟩
    cases closed with
    | error fault => exact bind_error close
    | ok closed => exact bind close (pure _ _)

/-- Where the record of the whole run cannot be written, that is how the run ends, whatever else has
    gone wrong before. -/
theorem surveyTraced_cases (plan : Plan) (rooted : host.tree.Rooted) {path : Path}
    {above : FileTree} (housed : host.tree.withDirectories path.parent = .ok above)
    (projects : List Path) :
    ∃ middle after readings verdict written total,
      Ends (plan.surveyTraced projects path) host (written >>= fun _ => verdict)
        { host with tree := after, readings, made := host.made + 1 } ∧
      plan.Totalled host path projects middle after verdict written total := by
  obtain ⟨same, _, directories, made⟩ := ensureDirectories_writes rooted path.parent
  obtain rfl := made above housed
  let tracer := plan.tracer host path
  let inside (readings : Nat) (tree : FileTree) : Host :=
    { host with readings, tree, made := host.made + 1, tracers := tracer :: host.tracers }
  let span := plan.span tracer (host.clock host.readings) projects.length
  have begun {verdict : Except Fault (List Survey)} {readings : Nat} {tree : FileTree} (ends) :
      Ends (plan.surveyTraced projects path) host verdict
        { host with tree, readings, made := host.made + 1 } :=
    get (fun _ => rfl) (bind (orStop _ (makeTracer housed))
      (during (inside readings tree) (bind (enter _ (inside host.readings above)) ends) rfl))
  have ended (measures : Measures) (stop : Nat) (error : Option String) :
      (span measures).ended stop error =
        plan.totalRecord host.runId (stop - host.clock host.readings) projects.length measures
          error :=
    plan.ended_span rfl _ _ _ _ _
  obtain ⟨middle, readings, verdict, ends, surveyed⟩ :=
    surveyInto_cases plan (inside (host.readings + 1) above) directories.rooted projects
  cases verdict with
  | error fault =>
    have failed := guard_failed (span {}) ends
    rw [ended] at failed
    exact ⟨middle, _, _, .error fault, _, _, begun (bind_failed failed),
      surveyed.halted.totalled directories _ rfl (by rintro _ ⟨⟩)⟩
  | ok found =>
    obtain ⟨surveys, writer⟩ := found
    let measures : Measures := {
      files := some (sumOf (surveys.map Survey.files))
      chains := some (sumOf (surveys.map Survey.chains)) }
    obtain ⟨tree, closed, close, settled⟩ := surveyed.close (inside readings middle)
    cases closed with
    | error fault =>
      have failed := guard_failed (span measures) close
      rw [ended] at failed
      exact ⟨tree, _, _, .error fault, _, _, begun (bind (guard _ ends) (bind_failed failed)),
        settled.totalled directories _ rfl (by rintro _ ⟨⟩)⟩
    | ok closed =>
      have finished := bind_total (finish (span measures) none (inside readings tree))
        (pure surveys _)
      rw [ended] at finished
      exact ⟨tree, _, _, .ok surveys, _, _,
        begun (bind (guard _ ends) (bind (guard _ close) finished)),
        settled.totalled directories _ rfl fun _ same => by cases same; rfl⟩

/-- To list the projects leaves everything as it is. Only a single one may be asked for by a path
    that the system refuses outright. -/
theorem projects_cases (plan : Plan) (host : Host) :
    ∃ result, Ends plan.projects host result host ∧ ∀ fault, fault.ofFiles = true →
      (result = .error fault ↔
        plan.single = true ∧ host.tree.isDirectory plan.projectDir = .error fault) := by
  unfold Plan.projects
  cases plan.single with
  | true =>
    cases there : host.tree.isDirectory plan.projectDir with
    | error fault =>
      refine ⟨.error fault, bind_error (ask_error there), fun other _ => ?_⟩
      exact ⟨fun same => ⟨rfl, by cases same; rfl⟩, fun ⟨_, same⟩ => by cases same; rfl⟩
    | ok standing =>
      cases standing with
      | true => exact ⟨_, bind (ask there) (pure _ _), fun _ _ => ⟨nofun, nofun⟩⟩
      | false =>
        refine ⟨_, bind (ask there) (bind_error (throw _ _)), fun other files => ⟨?_, nofun⟩⟩
        intro same
        cases same
        cases files
  | false =>
    have listing : ∃ result, Ends (Plan.orStop
        s!"Cannot read directory {plan.projectDir.toString}"
        (Host.ask (·.subdirectories plan.projectDir))) host result host := by
      cases listed : host.tree.subdirectories plan.projectDir with
      | error fault => exact ⟨_, orStop_error _ (ask_error listed)⟩
      | ok projects => exact ⟨_, orStop _ (ask listed)⟩
    obtain ⟨result, ends⟩ := listing
    refine ⟨result, ends, fun fault files => ⟨fun same => ?_, nofun⟩⟩
    rw [same] at ends
    rw [ends.contained (.orStop _ _)] at files
    cases files

end Host.Ends

def Summary.Destination.paths : Destination → List Path
  | .file path => [path]
  | .nowhere | .unnamed => []

theorem Host.Contained.conclude (plan : Plan) (surveys : List Survey) :
    Contained (plan.conclude surveys) := by
  unfold Plan.conclude
  cases plan.summary with
  | nowhere => exact bind (progress _ _) fun _ => pure _
  | unnamed =>
    have contained : Fault.noPath.ofFiles = false := rfl
    exact bind (throw contained) fun _ => bind (progress _ _) fun _ => pure _
  | file path =>
    refine bind (orStop _ _) fun _ => bind get fun _ => ?_
    exact bind (progress _ _) fun _ => bind (progress _ _) fun _ => pure _

namespace Host.Ends

variable {host : Host}

theorem writeText_cases (rooted : host.tree.Rooted) (path : Path) (text : List Char) :
    ∃ tree result, Ends (Host.writeText path text) host result { host with tree } ∧
      Writes [path] host.tree tree ∧
      (result = .ok () → ∃ place, tree.Leads path place ∧
        tree.bytesAt place = Utf8.encode text) := by
  cases opened : host.tree.openForWriting path with
  | error fault =>
    exact ⟨host.tree, _, bind_error (bind_error (ask_error opened)), .refl _ rooted, nofun⟩
  | ok found =>
    obtain ⟨place, made⟩ := found
    obtain ⟨first, leads⟩ := FileTree.openForWriting_writes rooted opened
    have emptied := leads.putBytes first.rooted []
    have writes := (first.mono (List.nil_subset [path])).trans emptied
    have empty := FileTree.bytesAt_putBytes first.rooted leads.file []
    let begun : Host := { host with tree := made.putBytes place [] }
    have start : Ends (Host.openWrite path) host (.ok { place }) begun := openWrite opened
    cases garbled : begun.tree.machine.unencodable? text with
    | some fault =>
      have wrote : Ends (Handle.write { place } text) begun (.error fault) begun := by
        refine bind_error (get (fun _ => rfl) ?_)
        rw [garbled]
        exact throw fault begun
      exact ⟨_, _, bind start (bind_error wrote), writes, nofun⟩
    | none =>
      have wrote : Ends (Handle.write { place } text) begun
          (.ok { place, pending := Utf8.encode text }) begun :=
        write { place } (Machine.unencodable?_none.mp garbled)
      have flush := flush_stored { place, pending := Utf8.encode text } begun
      have stores := FileTree.storing_stores emptied.rooted (emptied.leads leads) 0
        (Utf8.encode text)
      dsimp only at flush
      cases done : (begun.tree.storing place 0 (Utf8.encode text)).1 with
      | error fault =>
        rw [done] at flush
        exact ⟨_, _, bind start (bind wrote (bind_error flush)), writes.trans stores.toWrites,
          nofun⟩
      | ok _ =>
        have holds : begun.tree.Holds [] place [] := fun _ _ _ => empty
        rw [done] at flush
        refine ⟨_, .ok (), bind start (bind wrote (bind flush (pure _ _))),
          writes.trans stores.toWrites, fun _ => ⟨place, stores.leads (emptied.leads leads), ?_⟩⟩
        exact FileTree.storing_holds emptied.rooted (emptied.leads leads) holds done _
          (.refl stores.rooted) nofun

theorem summary_cases (rooted : host.tree.Rooted) (surveys : List Survey) (path : Path) :
    ∃ tree result, Ends (Summary.write surveys path) host result { host with tree } ∧
      Writes [path] host.tree tree ∧
      (result = .ok () → ∃ value place,
        Summary.json host.tree.machine.memory surveys = .ok value ∧
        tree.Leads path place ∧ tree.bytesAt place = Utf8.encode (value.indented 0)) := by
  obtain ⟨above, ends, writes, made⟩ := ensureDirectories_writes rooted path.parent
  cases housed : host.tree.withDirectories path.parent with
  | error fault =>
    rw [housed] at ends
    exact ⟨above, _, bind_error ends, writes.mono nofun, nofun⟩
  | ok directory =>
    obtain rfl := made directory housed
    rw [housed] at ends
    cases described : Summary.json directory.machine.memory surveys with
    | error fault =>
      refine ⟨directory, .error (.stats fault), bind ends (get (fun _ => rfl) ?_),
        writes.mono nofun, nofun⟩
      dsimp only
      rw [described]
      exact throw _ _
    | ok value =>
      have below : ({ host with tree := directory } : Host).tree.Rooted := writes.rooted
      obtain ⟨tree, result, wrote, more, written⟩ :=
        writeText_cases below path (value.indented 0)
      refine ⟨tree, result, bind ends (get (fun _ => rfl) ?_),
        (writes.mono (List.nil_subset [path])).trans more, fun done => ?_⟩
      · dsimp only
        rw [described]
        exact wrote
      · obtain ⟨place, leads, holds⟩ := written done
        exact ⟨value, place, writes.machine ▸ described, leads, holds⟩

theorem conclude_cases (plan : Plan) (host : Host) (rooted : host.tree.Rooted)
    (surveys : List Survey) :
    ∃ tree result, Ends (plan.conclude surveys) host result { host with tree } ∧
      Writes plan.summary.paths host.tree tree ∧
      (plan.summary = .nowhere → result = .ok surveys) ∧
      ∀ others, result = .ok others → others = surveys ∧
        ∀ path, plan.summary = .file path → ∃ value place,
          Summary.json host.tree.machine.memory surveys = .ok value ∧
          tree.Leads path place ∧ tree.bytesAt place = Utf8.encode (value.indented 0) := by
  unfold Plan.conclude
  cases plan.summary with
  | nowhere =>
    refine ⟨host.tree, .ok surveys, bind (progress _ _ _) (pure _ _), .refl _ rooted,
      fun _ => rfl, fun _ same => ?_⟩
    cases same
    exact ⟨rfl, fun _ => nofun⟩
  | unnamed =>
    exact ⟨host.tree, _, bind_error (throw _ _), .refl _ rooted, nofun, fun _ => nofun⟩
  | file path =>
    obtain ⟨tree, result, wrote, writes, written⟩ := summary_cases rooted surveys path
    cases result with
    | error fault =>
      exact ⟨tree, _, bind_error (orStop_error _ wrote), writes, nofun, fun _ => nofun⟩
    | ok _ =>
      refine ⟨tree, .ok surveys, bind (orStop _ wrote) (get (fun _ => rfl) ?_), writes, nofun,
        fun _ same => ?_⟩
      · exact bind (progress _ _ _) (bind (progress _ _ _) (pure _ _))
      · cases same
        refine ⟨rfl, fun _ also => ?_⟩
        cases also
        exact written rfl

end Host.Ends

namespace Plan

/-- The run gets as far as its trace, for which there is a directory. -/
structure Traced (plan : Plan) (host : Host) (path : Path) (projects : List Path) : Prop where
  asked : plan.tracePath = some path
  listed : (plan.projects.run.run host).1 = .ok projects
  housed : ∃ above, host.tree.withDirectories path.parent = .ok above

theorem surveyTraced_unhoused {plan : Plan} {host : Host} {path : Path} (projects : List Path)
    (rooted : host.tree.Rooted)
    (lost : ¬ ∃ above, host.tree.withDirectories path.parent = .ok above) :
    ∃ fault after, Host.Ends (plan.surveyTraced projects path) host (.error fault) after ∧
      fault.ofFiles = false := by
  obtain ⟨tree, ends, _, _⟩ := Host.Ends.ensureDirectories_writes rooted path.parent
  cases housed : host.tree.withDirectories path.parent with
  | ok above => exact absurd ⟨above, housed⟩ lost
  | error fault =>
    rw [housed] at ends
    exact ⟨_, _, .get (fun _ => rfl) (.bind_error (.orStop_error _ (.bind_error ends))),
      fault.stopping_ofFiles _⟩

theorem Traced.of_ok {plan : Plan} {host after : Host} {path : Path} {surveys : List Survey}
    (rooted : host.tree.Rooted) (asked : plan.tracePath = some path)
    (ran : plan.run.run.run host = (.ok surveys, after)) :
    ∃ projects, plan.Traced host path projects := by
  obtain ⟨listing, projected, _⟩ := Host.Ends.projects_cases plan host
  have reached := projected.result
  cases listing with
  | error fault =>
    have ends : Host.Ends plan.run host (.error fault) host := .bind_error projected
    cases (ends.ran ran).1
  | ok projects =>
    refine ⟨projects, asked, reached, ?_⟩
    by_contra lost
    obtain ⟨fault, last, surveyed, _⟩ := surveyTraced_unhoused projects rooted lost
    cases ((run_traced asked projected (.bind_error surveyed)).ran ran).1

structure Concluded (plan : Plan) (tree after : FileTree)
    (verdict result : Except Fault (List Survey)) : Prop where
  later : Writes plan.summary.paths tree after
  stopped : ∀ fault, verdict = .error fault → after = tree ∧ result = .error fault
  returned : ∀ surveys, result = .ok surveys → verdict = .ok surveys ∧
    ∀ path, plan.summary = .file path → ∃ value place,
      Summary.json tree.machine.memory surveys = .ok value ∧
      after.Leads path place ∧ after.bytesAt place = Utf8.encode (value.indented 0)
  bare : plan.summary = .nowhere → result = verdict
  contained : ∀ fault, result = .error fault → fault.ofFiles = true → verdict = .error fault

theorem concluded (plan : Plan) {host middle : Host} {action : HostM (List Survey)}
    {verdict : Except Fault (List Survey)} (ends : Host.Ends action host verdict middle)
    (rooted : middle.tree.Rooted) :
    ∃ tree result, Host.Ends (action >>= plan.conclude) host result { middle with tree } ∧
      plan.Concluded middle.tree tree verdict result := by
  cases verdict with
  | error fault =>
    exact ⟨middle.tree, .error fault, .bind_error ends, .refl _ rooted,
      fun _ same => ⟨rfl, same⟩, fun _ => nofun, fun _ => rfl, fun _ same _ => same⟩
  | ok surveys =>
    obtain ⟨tree, result, concluded, later, bare, returned⟩ :=
      Host.Ends.conclude_cases plan middle rooted surveys
    refine ⟨tree, result, .bind ends concluded, later, fun _ => nofun, fun others same => ?_, bare,
      fun fault same files => ?_⟩
    · obtain ⟨rfl, written⟩ := returned others same
      exact ⟨rfl, written⟩
    · rw [same] at concluded
      rw [concluded.contained (.conclude plan surveys)] at files
      cases files

theorem Traced.outcome {plan : Plan} {host : Host} {path : Path} {projects : List Path}
    (rooted : host.tree.Rooted) (traced : plan.Traced host path projects) :
    ∃ middle tree after readings verdict written total result,
      Host.Ends (plan.surveyTraced projects path) host (written >>= fun _ => verdict)
        { host with tree, readings, made := host.made + 1 } ∧
      Host.Ends plan.run host result
        { host with tree := after, readings, made := host.made + 1 } ∧
      plan.Totalled host path projects middle tree verdict written total ∧
      plan.Concluded tree after (written >>= fun _ => verdict) result := by
  obtain ⟨asked, listed, above, housed⟩ := traced
  obtain ⟨_, projected, _⟩ := Host.Ends.projects_cases plan host
  obtain ⟨rfl, _⟩ := projected.ran (Prod.ext listed rfl)
  obtain ⟨middle, tree, readings, verdict, written, total, surveyed, totalled⟩ :=
    Host.Ends.surveyTraced_cases plan rooted housed projects
  have more := totalled.appends.later totalled.writes.rooted
  obtain ⟨after, result, ran, concluded⟩ := concluded plan surveyed more.rooted
  exact ⟨middle, tree, after, readings, verdict, written, total, result, surveyed,
    run_traced asked projected ran, totalled, concluded⟩

end Plan

end FluentCensus
