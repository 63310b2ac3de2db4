import FluentCensus.Proofs.Plan.Report

namespace FluentCensus

namespace Plan

variable {plan : Plan} {host : Host} {path : Path} {projects : List Path}

theorem surveyEach_summary (plan : Plan) (summary : Summary.Destination) (total index : Nat)
    (writer : Csv.Writer) (projects : List Path) :
    { plan with summary }.surveyEach total index writer projects =
      plan.surveyEach total index writer projects := by
  induction projects generalizing index writer with
  | nil => rfl
  | cons project rest ih => simp only [surveyEach, ih, nameOf]

theorem surveyTraced_summary (plan : Plan) (summary : Summary.Destination)
    (projects : List Path) (path : Path) :
    { plan with summary }.surveyTraced projects path = plan.surveyTraced projects path := by
  simp only [surveyTraced, surveyInto, surveyEach_summary]

theorem Traced.unsummarised (rooted : host.tree.Rooted) (traced : plan.Traced host path projects)
    {verdict : Except Fault (List Survey)} {after : Host}
    (surveyed : Host.Ends (plan.surveyTraced projects path) host verdict after) :
    ({ plan with summary := .nowhere }.run.run.run host).1 = verdict := by
  have alike : { plan with summary := .nowhere }.Traced host path projects :=
    ⟨traced.asked, traced.listed, traced.housed⟩
  obtain ⟨_, _, _, _, other, written, _, _, also, ends, _, concluded⟩ := alike.outcome rooted
  rw [surveyTraced_summary] at also
  obtain ⟨errors, first⟩ := surveyed host.errors
  rw [ends.result, concluded.bare rfl]
  exact (also.ran first).1.symm

section Written

variable {middle tree after : FileTree} {verdict result : Except Fault (List Survey)}
  {written : Except Fault Unit} {total : Record} {trace : Location}
  (totalled : plan.Totalled host path projects middle tree verdict written total)

include totalled

theorem Totalled.machine : middle.machine = host.tree.machine ∧ tree.machine = host.tree.machine :=
  have writes := totalled.writes.machine
  ⟨writes, (totalled.appends.later totalled.writes.rooted).machine.trans writes⟩

theorem Totalled.written_ok (takes : host.tree.machine.Takes trace)
    (textual : plan.Textual host.tree.machine host.runId)
    (concluded : plan.Concluded tree after (written >>= fun _ => verdict) result)
    (leads : after.Leads path trace) : written = .ok () := by
  obtain ⟨before, machine⟩ := totalled.machine
  cases written with
  | ok _ => rfl
  | error fault =>
    obtain ⟨rfl, _⟩ := concluded.stopped fault rfl
    cases totalled.appends with
    | closed refused => cases leads.opens.symm.trans refused
    | garbled _ _ unencodable =>
      obtain ⟨latency, measures, rfl, _⟩ := totalled.recorded
      have plain := (textual.total latency projects.length measures (Fault.of? verdict)).line
      rw [before, Machine.unencodable?_none.mpr plain] at unencodable
      cases unencodable
    | stopped stopped _ => exact (stopped.untaken leads (machine ▸ takes)).elim

end Written

theorem Totalled.unblocked {middle tree after : FileTree} {verdict : Except Fault (List Survey)}
    {total : Record} {trace : Location}
    (totalled : plan.Totalled host path projects middle tree verdict (.ok ()) total)
    (takes : host.tree.machine.Takes trace) (later : FileTree.Later tree after)
    (leads : after.Leads path trace) : ¬ middle.Blocked path := by
  rintro (⟨fault, closed⟩ | ⟨fault, stopped⟩)
  · have logged := totalled.logged
    rw [FileTree.appending, closed] at logged
    cases logged
  · have later := (totalled.appends.later totalled.writes.rooted).trans later
    refine (stopped.later later).untaken leads ?_
    rw [later.machine, totalled.writes.machine]
    exact takes

/-- One record of the run comes after those of the projects, where the trace takes what is written.
    It says whether the run would return if no summary were asked for, and otherwise why it does
    not. -/
theorem run_total {result : Except Fault (List Survey)} {after : Host} {trace : Location}
    (rooted : host.tree.Rooted) (traced : plan.Traced host path projects)
    (textual : plan.Textual host.tree.machine host.runId)
    (ran : plan.run.run.run host = (result, after)) (leads : after.tree.Leads path trace)
    (takes : host.tree.machine.Takes trace) :
    ∃ (records : List Record) (total : Record) (before added last : List UInt8),
      Recorded added records ∧ (∀ record ∈ records, record.stage = "project") ∧
      Recorded last [total] ∧ total.stage = "run_total" ∧
      (¬ after.tree.Leads plan.outputPath trace →
        before = host.tree.bytesAt trace ++ added) ∧
      ((∀ other ∈ plan.summary.paths, ¬ after.tree.Leads other trace) →
        after.tree.bytesAt trace = before ++ last) ∧
      (total.error = none ↔
        ∃ surveys, ({ plan with summary := .nowhere }.run.run.run host).1 = .ok surveys) ∧
      ∀ label, total.error = some label →
        ∃ fault, result = .error fault ∧ fault.label = label ∧
          (fault.ofFiles = true → after.tree.Stopped plan.outputPath fault) := by
  obtain ⟨middle, tree, final, _, verdict, written, total, _, surveyed, ends, totalled,
    concluded⟩ := traced.outcome rooted
  obtain ⟨rfl, errors, rfl⟩ := ends.ran ran
  rw [traced.unsummarised rooted surveyed]
  obtain rfl := totalled.written_ok takes textual concluded leads
  rw [ok_bind] at concluded ⊢
  rcases totalled.reported with ⟨blocked, _⟩ | ⟨records, adds, projectRecords, _⟩
  · exact (totalled.unblocked takes concluded.later.toLater leads blocked).elim
  have proper : ∀ record ∈ records, record.Proper ∧ record.stage = "project" := by
    intro record member
    obtain ⟨name, latency, outcome, same⟩ := projectRecords record member
    exact ⟨Totalled.project_proper same, same ▸ rfl⟩
  obtain ⟨before, ending, first⟩ := totalled.bytes adds concluded.later.toLater leads
  have one := recorded_lines (List.forall_mem_singleton.mpr totalled.proper)
  rw [List.flatMap_singleton] at one
  obtain ⟨latency, measures, same, _⟩ := totalled.recorded
  have error : total.error = (Fault.of? verdict).map Fault.label := same ▸ rfl
  refine ⟨records, total, before, _, _,
    recorded_lines fun record member => (proper record member).1,
    fun record member => (proper record member).2, one, same ▸ rfl, first, ?_, ?_, ?_⟩
  · intro apart
    rw [concluded.later.elsewhere (.refl concluded.later.rooted) apart, ending]
  · rw [error]
    cases verdict <;> simp [Fault.of?]
  · intro label failed
    rw [error] at failed
    cases verdict with
    | ok surveys => cases failed
    | error fault =>
      cases failed
      obtain ⟨rfl, raised⟩ := concluded.stopped fault rfl
      obtain ⟨_, _, writes, _⟩ := totalled.added
      exact ⟨fault, raised, rfl, fun files =>
        (totalled.raised fault rfl files).later writes.toLater⟩

def barredPlan : Plan where
  projectDir := ⟨.relative, ["c"]⟩
  outputPath := ⟨.relative, ["o"]⟩
  summary := .file ⟨.relative, ["b", "s"]⟩
  tracePath := some ⟨.relative, ["t"]⟩
  quiet := true

def barredHost : Host where
  tree := { root := .directory [("c", .directory []), ("b", .file [])] }

def barredFault : Fault := .refused .exists ⟨.relative, ["b"]⟩

def barredStop : Fault := .stop s!"❌ Cannot create file b/s: {barredFault.message}"

def barredTotal : Record := barredPlan.totalRecord "" 0 0 { files := some 0, chains := some 0 } none

def barredEnd : Host :=
  { barredHost with
    tree := (barredHost.tree.putBytes ["o"] (Utf8.encode (Csv.document []))).putBytes ["t"]
      (Utf8.encode barredTotal.line)
    readings := 2
    made := 1 }

structure Barred (tree : FileTree) (trace : List UInt8) : Prop where
  refused : tree.withDirectory ⟨.relative, ["b"]⟩ = .error barredFault
  below : tree.locate .written ⟨.relative, ["b", "s"]⟩ =
    .error (.refused .notDirectory ⟨.relative, ["b", "s"]⟩)
  csv : tree.Leads ⟨.relative, ["o"]⟩ ["o"]
  leads : tree.Leads ⟨.relative, ["t"]⟩ ["t"]
  held : tree.bytesAt ["t"] = trace

theorem barred_tree (csv trace : List UInt8) :
    Barred ((barredHost.tree.putBytes ["o"] csv).putBytes ["t"] trace) trace where
  refused := by cbv
  below := by cbv
  csv := ⟨by cbv, csv, by cbv⟩
  leads := ⟨by cbv, trace, by cbv⟩
  held := by cbv

set_option maxRecDepth 4000 in
theorem barred_surveyed :
    Host.Ends (barredPlan.surveyTraced [] ⟨.relative, ["t"]⟩) barredHost (.ok []) barredEnd :=
  fun errors => ⟨errors, by cbv⟩

theorem barred_run :
    ∃ errors,
      barredPlan.run.run.run barredHost = (.error barredStop, { barredEnd with errors }) := by
  have refused : barredEnd.tree.withDirectory ⟨.relative, ["b"]⟩ = .error barredFault :=
    (barred_tree _ _).refused
  have written : Host.Ends (Summary.write [] ⟨.relative, ["b", "s"]⟩) barredEnd
      (.error barredFault) barredEnd :=
    .bind_error (.ensureDirectories_refused refused (by decide))
  have listed : barredHost.tree.subdirectories barredPlan.projectDir = .ok [] := by cbv
  exact run_traced rfl (projects_several rfl listed)
    (.bind barred_surveyed (.bind_error (.orStop_error _ written))) barredHost.errors

/-- The record of the run says that all is well, but the run does not return. -/
theorem run_barred_total :
    ∃ after value, barredPlan.run.run.run barredHost = (.error barredStop, after) ∧
      Json.Lines (after.tree.bytesAt ["t"]) [value] ∧
      value.get? "stage" = some (.string "run_total") ∧ value.get? "ok" = some (.bool true) := by
  have proper : barredTotal.Proper := barredPlan.totalRecord_proper _ _ _ rfl _
  have lines := Record.lines_read (List.forall_mem_singleton.mpr proper)
  rw [List.flatMap_singleton] at lines
  have trace : barredEnd.tree.bytesAt ["t"] = _ := (barred_tree _ _).held
  obtain ⟨_, ran⟩ := barred_run
  exact ⟨_, _, ran, trace ▸ lines, rfl, rfl⟩

theorem run_total_barred :
    ∃ (after : Host) (records : List Record) (total : Record) (added last : List UInt8),
      barredHost.tree.Rooted ∧ barredPlan.Traced barredHost ⟨.relative, ["t"]⟩ [] ∧
      barredPlan.Textual barredHost.tree.machine barredHost.runId ∧
      barredHost.tree.machine.Takes ["t"] ∧
      barredPlan.run.run.run barredHost = (.error barredStop, after) ∧
      after.tree.Leads ⟨.relative, ["t"]⟩ ["t"] ∧
      Recorded added records ∧ (∀ record ∈ records, record.stage = "project") ∧
      Recorded last [total] ∧ total.stage = "run_total" ∧
      after.tree.bytesAt ["t"] = added ++ last ∧
      (total.error = none ↔ ∃ surveys,
        ({ barredPlan with summary := .nowhere }.run.run.run barredHost).1 = .ok surveys) := by
  have rooted : barredHost.tree.Rooted := ⟨_, rfl⟩
  obtain ⟨errors, ran⟩ := barred_run
  obtain ⟨_, below, output, leads, _⟩ : Barred barredEnd.tree _ := barred_tree _ _
  have traced : barredPlan.Traced barredHost ⟨.relative, ["t"]⟩ [] :=
    ⟨rfl, by cbv, barredHost.tree, by cbv⟩
  have plain := Machine.encodable_all (m := barredHost.tree.machine) rfl
  have textual : barredPlan.Textual barredHost.tree.machine barredHost.runId :=
    ⟨plain _, plain _, plain _⟩
  have takes : barredHost.tree.machine.Takes ["t"] := fun _ _ => rfl
  obtain ⟨records, total, before, added, last, recorded, stages, one, stage, first, ending, flag,
    _⟩ := run_total rooted traced textual ran leads takes
  have nothing : barredHost.tree.bytesAt ["t"] = [] := by cbv
  have apart := first fun also => absurd (output.unique also) (by decide)
  have beside := ending fun other member also => by
    obtain rfl := List.mem_singleton.mp member
    cases also.found.symm.trans below
  rw [apart, nothing, List.nil_append] at beside
  exact ⟨_, records, total, added, last, rooted, traced, textual, takes, ran, leads, recorded,
    stages, one, stage, beside, flag⟩

end Plan

end FluentCensus
