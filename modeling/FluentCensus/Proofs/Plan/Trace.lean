import FluentCensus.Proofs.Plan.Contained
import FluentCensus.Proofs.Plan.Writing

namespace FluentCensus

open FileTree (Writes Adds Stores)

/-- The record of a project that was surveyed. Its number of chains is that of the lengths that were
    found, and not taken from the histogram. -/
structure Record.Reports (record : Record) (s : Survey) : Prop where
  stage : record.stage = "project"
  project : record.project = some s.name
  sound : record.error = none
  counted : ∃ lengths : List Int, s.histogram = .ofLengths lengths ∧ record.measures = {
    files := some s.files
    chains := some lengths.length
    histogram := some s.histogram }

theorem Tracer.projectRecord_reports (tracer : Tracer) (name : String) (latency : Int)
    (finding : Finding) :
    (tracer.projectRecord name latency (.ok finding)).Reports (finding.named name) :=
  ⟨rfl, rfl, rfl, finding.lengths, rfl, rfl⟩

def FileTree.Blocked (tree : FileTree) (path : Path) : Prop :=
  (∃ fault, tree.openForWriting path = .error fault) ∨ ∃ fault, tree.Stopped path fault

theorem FileTree.Blocked.stores {tree after : FileTree} {path other : Path}
    (blocked : tree.Blocked path) (stores : Stores other tree after) : after.Blocked path :=
  blocked.imp (fun ⟨fault, closed⟩ => ⟨fault, stores.still closed⟩)
    fun ⟨fault, stopped⟩ => ⟨fault, stopped.later stores.toLater⟩

def Host.traces (host : Host) : List Path := host.tracer?.toList.map Tracer.path

/-- The trace has been given records of projects, one for each survey. Where the surveys were ended
    by a fault it may instead be blocked. -/
def Tracer.Reported (tracer : Tracer) (others : List Path) (tree after : FileTree)
    (surveys : Except Fault (List Survey)) : Prop :=
  (after.Blocked tracer.path ∧ ∃ fault, surveys = .error fault) ∨
  ∃ records, Adds tracer.path others records tree after ∧
    (∀ record ∈ records, ∃ name latency result,
      record = tracer.projectRecord name latency result) ∧
    ∀ done, surveys = .ok done → List.Forall₂ Record.Reports records done

namespace Tracer.Reported

variable {tracer : Tracer} {path : Path} {others : List Path} {tree middle after : FileTree}
  {surveys : Except Fault (List Survey)}

theorem none (writes : Writes others tree after)
    (done : surveys = .ok [] ∨ ∃ fault, surveys = .error fault) :
    tracer.Reported others tree after surveys := by
  refine .inr ⟨[], .none writes, List.forall_mem_nil _, fun listed same => ?_⟩
  rcases done with done | ⟨fault, failed⟩
  · cases done.symm.trans same
    exact .nil
  · cases failed.symm.trans same

theorem stores (reported : tracer.Reported [path] tree middle surveys)
    (stores : Stores path middle after) : tracer.Reported [path] tree after surveys := by
  rcases reported with ⟨blocked, failed⟩ | ⟨records, adds, all, each⟩
  · exact .inl ⟨blocked.stores stores, failed⟩
  · have more := adds.trans stores.toLater (.none stores.toWrites)
    rw [List.append_nil] at more
    exact .inr ⟨records, more, all, each⟩

theorem since (writes : Writes others tree middle) (later : FileTree.Later middle after)
    (reported : tracer.Reported others middle after surveys) :
    tracer.Reported others tree after surveys := by
  rcases reported with ⟨blocked, failed⟩ | ⟨records, adds, all, each⟩
  · exact .inl ⟨blocked, failed⟩
  · exact .inr ⟨records, (Adds.none writes).trans later adds, all, each⟩

theorem failed (reported : tracer.Reported others tree after surveys) (fault : Fault) :
    tracer.Reported others tree after (.error fault) := by
  rcases reported with ⟨blocked, _⟩ | ⟨records, adds, all, _⟩
  · exact .inl ⟨blocked, fault, rfl⟩
  · exact .inr ⟨records, adds, all, fun _ => nofun⟩

theorem cons {s : Survey} (first : tracer.Reported others tree middle (.ok [s]))
    (later : FileTree.Later middle after) (rest : tracer.Reported others middle after surveys) :
    tracer.Reported others tree after (surveys.map (s :: ·)) := by
  rcases first with ⟨_, fault, failed⟩ | ⟨before, added, these, single⟩
  · cases failed
  rcases rest with ⟨blocked, fault, rfl⟩ | ⟨records, adds, all, each⟩
  · exact .inl ⟨blocked, fault, rfl⟩
  refine .inr ⟨before ++ records, added.trans later adds,
    List.forall_mem_append.mpr ⟨these, all⟩, fun done same => ?_⟩
  cases surveys with
  | error fault => cases same
  | ok done =>
    cases same
    exact List.rel_append (single [s] rfl) (each done rfl)

end Tracer.Reported

namespace Host.Ends

theorem survey_cases (host : Host) (rooted : host.tree.Rooted) (project : Path)
    (options : Project.Options) :
    ∃ tree readings verdict,
      Ends (Project.survey project options) host verdict { host with tree, readings } ∧
      Writes host.traces host.tree tree ∧
      (∀ s, verdict = .ok s → s.path = project) ∧
      ∀ tracer, host.tracer? = some tracer →
        ∀ others, tracer.Reported others host.tree tree (verdict.map ([·])) := by
  let name := options.nameFor project
  have path (result : Except Fault Finding) (s : Survey)
      (found : host.tree.finding options.ignored project = result)
      (surveyed : result.map (·.named name) = .ok s) : s.path = project := by
    cases result with
    | error fault => cases surveyed
    | ok finding =>
      cases surveyed
      exact (FileTree.finding_ok found).1
  cases tracing : host.tracer? with
  | none =>
    exact ⟨host.tree, host.readings, _, survey_untraced tracing project options,
      .refl _ rooted, fun s => path _ s rfl, fun _ => nofun⟩
  | some tracer =>
    have traces : host.traces = [tracer.path] := by rw [Host.traces, tracing]; rfl
    have ends := survey_traced tracing project options
    have appends := FileTree.appending_appends rooted tracer.path
      (tracer.projectRecord name (host.clock (host.readings + 1) - host.clock host.readings)
        (host.tree.finding options.ignored project)).line
    rw [traces]
    simp only [Option.some.injEq, forall_eq']
    dsimp only at ends
    generalize host.tree.appending tracer.path _ = logged at ends appends
    obtain ⟨written, tree⟩ := logged
    refine ⟨tree, _, _, ends, ?_⟩
    dsimp only at appends
    cases appends with
    | closed refused =>
      exact ⟨.refl _ rooted, fun _ => nofun, fun _ => .inl ⟨.inl ⟨_, refused⟩, _, rfl⟩⟩
    | garbled _ writes _ =>
      exact ⟨writes.mono nofun, fun _ => nofun,
        fun _ => .none (writes.mono nofun) (.inr ⟨_, rfl⟩)⟩
    | stopped stopped writes =>
      exact ⟨writes, fun _ => nofun, fun _ => .inl ⟨.inr ⟨_, stopped⟩, _, rfl⟩⟩
    | added leads writes _ added =>
      refine ⟨writes, fun s => path _ s rfl, fun _ => .inr ⟨[_], .once leads added,
        List.forall_mem_singleton.mpr ⟨_, _, _, rfl⟩, fun done same => ?_⟩⟩
      rw [ok_bind] at same
      cases found : host.tree.finding options.ignored project with
      | error fault =>
        rw [found] at same
        cases same
      | ok finding =>
        rw [found] at same
        cases same
        exact .cons (tracer.projectRecord_reports _ _ finding) .nil

end Host.Ends

namespace Plan

/-- What has come of projects after the ones that were done before: the open CSV file has the rows
    of the surveys, and a tracer in force their records. Of the causes in the file system, only one
    that stops a write to the CSV file is left in its own words. -/
structure Surveyed (plan : Plan) (host : Host) (done : List Survey) (projects : List Path)
    (tree : FileTree) (verdict : Except Fault (List Survey × Csv.Writer)) : Prop where
  writes : Writes (plan.outputPath :: host.traces) host.tree tree
  raised : ∀ fault, verdict = .error fault → fault.ofFiles = true →
    tree.Stopped plan.outputPath fault
  returned : ∀ surveys writer, verdict = .ok (surveys, writer) →
    surveys.map Survey.path = projects ∧
      ∃ handle, writer.Open plan.outputPath host.traces (done ++ surveys) handle tree
  reported : ∀ tracer, host.tracer? = some tracer →
    tracer.Reported [plan.outputPath] host.tree tree (verdict.map Prod.fst)

namespace Surveyed

variable {plan : Plan} {host : Host} {done : List Survey} {project : Path} {projects : List Path}
  {middle after : FileTree}

theorem step {readings : Nat} {s : Survey} {writer : Csv.Writer}
    {verdict : Except Fault (List Survey × Csv.Writer)}
    (first : plan.Surveyed host done [project] middle (.ok ([s], writer)))
    (rest : plan.Surveyed { host with tree := middle, readings } (done ++ [s]) projects after
      verdict) :
    plan.Surveyed host done (project :: projects) after
      (verdict.map fun found => (s :: found.1, found.2)) where
  writes := first.writes.trans rest.writes
  raised fault same files := by
    cases verdict with
    | ok found => cases same
    | error other => exact rest.raised fault same files
  returned surveys last same := by
    cases verdict with
    | error fault => cases same
    | ok found =>
      cases same
      obtain ⟨here, _⟩ := first.returned _ _ rfl
      obtain ⟨there, handle, isOpen⟩ := rest.returned _ _ rfl
      rw [List.append_assoc] at isOpen
      exact ⟨congrArg₂ List.cons (List.cons.inj here).1 there, handle, isOpen⟩
  reported tracer tracing := by
    have all := (first.reported tracer tracing).cons rest.writes.toLater
      (rest.reported tracer tracing)
    cases verdict <;> exact all

end Surveyed

theorem Surveyed.closing {α : Type} {plan : Plan} {host start now : Host} {done : List Survey}
    {projects : List Path} {middle : FileTree} {writer : Csv.Writer} {handle : Host.Handle}
    {action : HostM α} {fault : Fault}
    (writes : Writes (plan.outputPath :: host.traces) host.tree middle)
    (reported : ∀ tracer, host.tracer? = some tracer →
      ∃ surveys, tracer.Reported [plan.outputPath] host.tree middle surveys)
    (held : writer.handle = some handle) (stores : Stores plan.outputPath middle now.tree)
    (leads : now.tree.Leads plan.outputPath handle.place)
    (ends : Host.Ends action start (.error fault) now) (told : fault.ofFiles = false) :
    ∃ tree raised, Host.Ends (closing writer action) start (.error raised) { now with tree } ∧
      plan.Surveyed host done projects tree (.error raised) := by
  obtain ⟨tree, raised, ends, more, stopped⟩ :=
    Csv.Writer.closing_stored held stores.rooted leads ends told
  have all := stores.trans more
  refine ⟨tree, raised, ends, writes.trans (all.toWrites.mono (by simp)), ?_, fun _ _ => nofun,
    fun tracer tracing => ?_⟩
  · intro fault same files
    cases same
    exact stopped files
  · obtain ⟨surveys, before⟩ := reported tracer tracing
    exact (before.stores all).failed raised

end Plan

namespace Host.Ends

variable {plan : Plan}

section Loop

variable {done : List Survey} {writer : Csv.Writer} {handle : Handle} (host : Host)
  (rooted : host.tree.Rooted)
  (isOpen : writer.Open plan.outputPath host.traces done handle host.tree)

include rooted isOpen

/-- One project either ends the surveys, or its record and rows are there and the next one's turn
    comes. -/
theorem surveyEach_step (total index : Nat) (project : Path) (rest : List Path) :
    (∃ tree readings fault,
      Ends (plan.surveyEach total index writer (project :: rest)) host (.error fault)
        { host with tree, readings } ∧
      plan.Surveyed host done (project :: rest) tree (.error fault)) ∨
    ∃ tree readings s writer',
      plan.Surveyed host done [project] tree (.ok ([s], writer')) ∧
      ∀ verdict after,
        Ends (plan.surveyEach total (index + 1) writer' rest) { host with tree, readings }
            verdict after →
          Ends (plan.surveyEach total index writer (project :: rest)) host
            (verdict.map fun found => (s :: found.1, found.2)) after := by
  obtain ⟨middle, readings, verdict, survey, first, path, reported⟩ :=
    survey_cases host rooted project (plan.optionsFor host.tree total index project)
  have writes := first.mono (List.subset_cons_self plan.outputPath host.traces)
  let read : Host := { host with tree := middle, readings }
  have still : Stores plan.outputPath middle read.tree := .refl _ first.rooted
  have failing {α : Type} {writer : Csv.Writer} {handle : Handle} {action : HostM α}
      {start now : Host} {fault : Fault} (held : writer.handle = some handle)
      (stores : Stores plan.outputPath middle now.tree)
      (leads : now.tree.Leads plan.outputPath handle.place)
      (ends : Ends action start (.error fault) now) (told : fault.ofFiles = false) :
      ∃ tree raised, Ends (Plan.closing writer action) start (.error raised) { now with tree } ∧
        plan.Surveyed host done (project :: rest) tree (.error raised) :=
    Plan.Surveyed.closing writes (fun tracer tracing => ⟨_, reported tracer tracing _⟩) held stores
      leads ends told
  replace isOpen : writer.Open plan.outputPath host.traces done handle read.tree :=
    isOpen.writes first
  cases verdict with
  | error fault =>
    obtain ⟨tree, raised, ends, surveyed⟩ := failing isOpen.held still isOpen.leads
      (orStop_error s!"Failed to process project {plan.nameOf host.tree project}" survey)
      (fault.stopping_ofFiles _)
    exact .inl ⟨tree, readings, raised, Plan.surveyEach_unsurveyed ends, surveyed⟩
  | ok s =>
    obtain rfl := path s rfl
    rcases isOpen.add s with ⟨fault, files, add⟩ | ⟨filled, pending, add, next⟩
    · obtain ⟨tree, raised, ends, surveyed⟩ := failing isOpen.held still isOpen.leads
        (orStop_error s!"Cannot write to file {plan.outputPath.toString}" add)
        (fault.stopping_ofFiles _)
      exact .inl ⟨tree, readings, raised, Plan.surveyEach_unfilled survey ends, surveyed⟩
    obtain ⟨tree, stores, ⟨fault, flush⟩ | ⟨writer', handle', flush, isOpen⟩⟩ :=
      next.flush_cases first.rooted
    · obtain ⟨last, raised, ends, surveyed⟩ := failing next.held stores (stores.leads next.leads)
        (orStop_error s!"Cannot write to file {plan.outputPath.toString}" flush)
        (fault.stopping_ofFiles _)
      exact .inl ⟨last, readings, raised, Plan.surveyEach_unflushed survey add ends, surveyed⟩
    · have surveyed : plan.Surveyed host done [s.path] tree (.ok ([s], writer')) := by
        refine ⟨writes.trans (stores.toWrites.mono (by simp)), fun _ => nofun, ?_, ?_⟩
        · intro surveys last same
          cases same
          exact ⟨rfl, handle', isOpen⟩
        · exact fun tracer tracing => (reported tracer tracing _).stores stores
      cases told : s.stats tree.machine.memory with
      | ok figures =>
        exact .inr ⟨tree, readings, s, _, surveyed,
          fun _ _ later => Plan.surveyEach_told survey add flush told later⟩
      | error e =>
        obtain ⟨last, raised, ends, failed⟩ := failing isOpen.held stores isOpen.leads
          (throw (α := PUnit) (.stats e) { read with tree }) rfl
        exact .inl ⟨last, readings, raised, Plan.surveyEach_untold survey add flush told ends,
          failed⟩

theorem surveyEach_cases (total index : Nat) (projects : List Path) :
    ∃ tree readings verdict,
      Ends (plan.surveyEach total index writer projects) host verdict
        { host with tree, readings } ∧
      plan.Surveyed host done projects tree verdict := by
  -- What one project hands on to the next is an open file with the rows so far. Which file system
  -- that is in is left open, since only what the two paths lead to is known of it.
  induction projects generalizing host done writer handle index with
  | nil =>
    refine ⟨host.tree, host.readings, .ok ([], writer), .pure _ _, .refl _ rooted, fun _ => nofun,
      fun surveys last same => ?_, fun tracer _ => .none (.refl _ rooted) (.inl rfl)⟩
    cases same
    exact ⟨rfl, handle, by rwa [List.append_nil]⟩
  | cons project rest ih =>
    rcases surveyEach_step host rooted isOpen total index project rest with
      ⟨tree, readings, fault, ends, surveyed⟩ | ⟨middle, readings, s, writer', first, onward⟩
    · exact ⟨tree, readings, .error fault, ends, surveyed⟩
    · obtain ⟨_, next, isOpen⟩ := first.returned _ _ rfl
      obtain ⟨tree, read, verdict, later, surveyed⟩ :=
        ih { host with tree := middle, readings } first.writes.rooted isOpen (index + 1)
      exact ⟨tree, read, _, onward verdict _ later, first.step surveyed⟩

end Loop

theorem surveyInto_cases (plan : Plan) (host : Host) (rooted : host.tree.Rooted)
    (projects : List Path) :
    ∃ tree readings verdict,
      Ends (plan.surveyInto projects) host verdict { host with tree, readings } ∧
      plan.Surveyed host [] projects tree verdict := by
  obtain ⟨tree, writes, ⟨fault, ends⟩ | ⟨writer, handle, ends, isOpen⟩⟩ :=
    Csv.Writer.start_cases rooted plan.outputPath host.traces
  · have raised := fault.stopping_ofFiles s!"Cannot create file {plan.outputPath.toString}"
    refine ⟨tree, host.readings, _, bind_error (orStop_error _ ends), writes.mono (by simp), ?_,
      fun _ _ => nofun, fun tracer _ => .none writes (.inr ⟨_, rfl⟩)⟩
    intro other same files
    cases same
    cases raised.symm.trans files
  · obtain ⟨after, readings, verdict, later, surveyed⟩ :=
      surveyEach_cases { host with tree } writes.rooted isOpen projects.length 0 projects
    refine ⟨after, readings, verdict, bind (orStop _ ends) later, ?_, surveyed.raised,
      surveyed.returned, fun tracer tracing => ?_⟩
    · exact (writes.mono (by simp)).trans surveyed.writes
    · exact (surveyed.reported tracer tracing).since writes surveyed.writes.toLater

end Host.Ends

end FluentCensus
