import FluentCensus.Proofs.Csv.Session
import FluentCensus.Proofs.Plan.Outside
import FluentCensus.Proofs.Plan.Trace

namespace FluentCensus

open Csv.Writer (Holding)

namespace Plan

def nameFor (plan : Plan) (tree : FileTree) (project : Path) : String :=
  ({ name := plan.nameOf tree project } : Project.Options).nameFor project

def surveyOf (plan : Plan) (tree : FileTree) (project : Path) : Except Fault Survey :=
  (tree.finding plan.ignored project).map (·.named (plan.nameFor tree project))

/-- The surveys whose rows a run writes, and the fault that ends it before it is through. -/
def surveysOf (plan : Plan) (tree : FileTree) : List Path → List Survey × Option Fault
  | [] => ([], none)
  | project :: rest =>
    match plan.surveyOf tree project with
    | .error fault =>
      ([], some (fault.stopping s!"Failed to process project {plan.nameOf tree project}"))
    | .ok s =>
      match tree.machine.unencodable? ((Csv.rows s).flatMap Csv.endLine) with
      | some fault => ([], some fault)
      | none =>
        match s.stats tree.machine.memory with
        | .error e => ([s], some (.stats e))
        | .ok _ => (s :: (plan.surveysOf tree rest).1, (plan.surveysOf tree rest).2)

def verdictOf : List Survey × Option Fault → Except Fault (List Survey)
  | (surveys, none) => .ok surveys
  | (_, some fault) => .error fault

/-- The surveys are through, and the open CSV file will have the rows of all of them, or a fault has
    closed it with the rows of those before. -/
inductive Ended (plan : Plan) (csv : Location) (done : List Survey)
    (action : HostM (List Survey × Csv.Writer)) (host after : Host) :
    List Survey × Option Fault → Prop
  | through {surveys : List Survey} {handle : Host.Handle}
      (ends : Host.Ends action host
        (.ok (surveys, { path := plan.outputPath, handle := some handle })) after)
      (holding : Holding csv (after.tree.bytesAt csv) (done ++ surveys) handle) :
      Ended plan csv done action host after (surveys, none)
  | stopped {surveys : List Survey} {fault : Fault}
      (ends : Host.Ends action host (.error fault) after)
      (whole : after.tree.bytesAt csv = Utf8.encode (Csv.document (done ++ surveys))) :
      Ended plan csv done action host after (surveys, some fault)

/-- While the host stays so after so many surveys, projects are surveyed as in the file system at
    first, and their rows go to the place of the CSV file. -/
structure Steady (plan : Plan) (tree : FileTree) (csv : Location) (projects : List Path)
    (holds : Nat → Host → Prop) : Prop where
  takes : tree.machine.Takes csv
  machine : ∀ {count host}, holds count host → host.tree.machine = tree.machine
  rooted : ∀ {count host}, holds count host → host.tree.Rooted
  leads : ∀ {count host}, holds count host → host.tree.Leads plan.outputPath csv
  named : ∀ {count host project}, holds count host → project ∈ projects →
    plan.nameOf host.tree project = plan.nameOf tree project
  written : ∀ {count host}, holds count host → ∀ bytes,
    holds count { host with tree := host.tree.putBytes csv bytes }
  surveyed : ∀ {count host}, holds count host → ∀ project ∈ projects, ∀ options : Project.Options,
    options.ignored = plan.ignored → options.nameFor project = plan.nameFor tree project →
      ∃ after, Host.Ends (Project.survey project options) host (plan.surveyOf tree project) after ∧
        holds (count + 1) after ∧ after.tree.bytesAt csv = host.tree.bytesAt csv

namespace Steady

variable {plan : Plan} {tree : FileTree} {csv : Location} {projects : List Path}
  {holds : Nat → Host → Prop} (steady : plan.Steady tree csv projects holds) {count : Nat}
  {host : Host} {handle : Host.Handle} {done : List Survey}

include steady

theorem flush (standing : holds count host)
    (holding : Holding csv (host.tree.bytesAt csv) done handle) (text : List Char) :
    ∃ after, Host.Ends (handle.wrote text).flush host
        (.ok { place := csv, offset := (Utf8.encode (Csv.document done ++ text)).length }) after ∧
      holds count after ∧ after.tree.bytesAt csv = Utf8.encode (Csv.document done ++ text) := by
  have file := (steady.leads standing).file
  have takes : host.tree.machine.Takes csv := steady.machine standing ▸ steady.takes
  exact ⟨_, holding.flush takes file text, steady.written standing _,
    FileTree.bytesAt_putBytes (steady.rooted standing) file _⟩

theorem close (standing : holds count host)
    (holding : Holding csv (host.tree.bytesAt csv) done handle) (path : Path) :
    ∃ closed after, Host.Ends (Csv.Writer.close { path, handle := some handle }) host (.ok closed)
      after ∧ holds count after ∧ after.tree.bytesAt csv = Utf8.encode (Csv.document done) := by
  obtain ⟨after, flushed, standing, whole⟩ := steady.flush standing holding []
  rw [handle.wrote_nil] at flushed
  rw [List.append_nil] at whole
  exact ⟨_, after, .bind flushed (.pure _ _), standing, whole⟩

theorem add (standing : holds count host)
    (holding : Holding csv (host.tree.bytesAt csv) done handle)
    (path : Path) {s : Survey}
    (plain : tree.machine.encodable ((Csv.rows s).flatMap Csv.endLine) = true) :
    ∃ rows filled next after,
      Host.Ends (Csv.Writer.add { path, handle := some handle } s) host (.ok (rows, filled)) host ∧
      Host.Ends filled.flush host (.ok { path, handle := some next }) after ∧
      holds count after ∧ Holding csv (after.tree.bytesAt csv) (done ++ [s]) next := by
  obtain ⟨after, flushed, held, whole⟩ :=
    steady.flush standing holding ((Csv.rows s).flatMap Csv.endLine)
  rw [← Csv.document_append] at flushed whole
  rw [← steady.machine standing] at plain
  refine ⟨_, _, _, after, .bind (.write handle plain) (.pure _ _), .bind flushed (.pure _ _), held,
    ?_⟩
  rw [whole]
  exact .flushed csv _

theorem closing {α : Type} {action : HostM α} {middle : Host} {fault : Fault}
    (standing : holds count middle)
    (holding : Holding csv (middle.tree.bytesAt csv) done handle)
    (ends : Host.Ends action host (.error fault) middle) :
    ∃ after, Host.Ends
        (Plan.closing { path := plan.outputPath, handle := some handle } action) host
        (.error fault) after ∧
      holds count after ∧ after.tree.bytesAt csv = Utf8.encode (Csv.document done) := by
  obtain ⟨closed, after, close, held, whole⟩ := steady.close standing holding plan.outputPath
  exact ⟨after, .closing_error ends close, held, whole⟩

theorem surveyEach (total index : Nat) (standing : holds index host)
    (holding : Holding csv (host.tree.bytesAt csv) done handle) {listed : List Path}
    (known : ∀ project ∈ listed, project ∈ projects) :
    ∃ last after, holds last after ∧ index + min 1 listed.length ≤ last ∧ plan.Ended csv done
      (plan.surveyEach total index { path := plan.outputPath, handle := some handle } listed) host
      after (plan.surveysOf tree listed) := by
  -- One project hands on to the next only that the host is still one of those meant, and that the
  -- handle has the rows so far.
  induction listed generalizing index host handle done with
  | nil =>
    rw [← List.append_nil done] at holding
    exact ⟨index, host, standing, Nat.le_refl _, .through (.pure _ _) holding⟩
  | cons project rest ih =>
    obtain ⟨first, others⟩ := List.forall_mem_cons.mp known
    have goes : (plan.optionsFor host.tree total index project).nameFor project =
        plan.nameFor tree project := by
      rw [Plan.nameFor, ← steady.named standing first]
      rfl
    obtain ⟨middle, survey, surveyed, kept⟩ := steady.surveyed standing project first _ rfl goes
    rw [← kept] at holding
    have nothing := List.append_nil done
    have one : index + min 1 (project :: rest).length ≤ index + 1 :=
      Nat.add_le_add_left (Nat.min_le_left 1 _) index
    rw [surveysOf, ← steady.named standing first]
    cases attempt : plan.surveyOf tree project with
    | error fault =>
      rw [attempt] at survey
      obtain ⟨after, ends, held, whole⟩ := steady.closing surveyed holding (.orStop_error _ survey)
      exact ⟨_, after, held, one, .stopped (surveyEach_unsurveyed ends) (nothing.symm ▸ whole)⟩
    | ok s =>
      rw [attempt] at survey
      dsimp only
      cases garbled : tree.machine.unencodable? ((Csv.rows s).flatMap Csv.endLine) with
      | some fault =>
        have told := Machine.unencodable?_ofFiles garbled
        rw [← steady.machine surveyed] at garbled
        have add : Host.Ends (Csv.Writer.add { path := plan.outputPath, handle := some handle } s)
            middle (.error fault) middle := .bind_error (.write_garbled handle garbled)
        have stopped := Host.Ends.orStop_error
          s!"Cannot write to file {plan.outputPath.toString}" add
        rw [Fault.stopping, told] at stopped
        obtain ⟨after, ends, held, whole⟩ := steady.closing surveyed holding stopped
        exact ⟨_, after, held, one, .stopped (surveyEach_unfilled survey ends)
          (nothing.symm ▸ whole)⟩
      | none =>
        obtain ⟨rows, filled, next, last, add, flush, standing, holding⟩ :=
          steady.add surveyed holding plan.outputPath (Machine.unencodable?_none.mp garbled)
        have machine := steady.machine standing
        dsimp only
        cases stats : s.stats tree.machine.memory with
        | error e =>
          obtain ⟨after, ends, held, whole⟩ :=
            steady.closing standing holding (.throw (α := PUnit) (.stats e) last)
          exact ⟨_, after, held, one,
            .stopped (surveyEach_untold survey add flush (machine ▸ stats) ends) whole⟩
        | ok figures =>
          obtain ⟨last', after, held, later, ended⟩ := ih (index + 1) standing holding others
          rw [← machine] at stats
          refine ⟨last', after, held, by omega, ?_⟩
          dsimp only
          generalize plan.surveysOf tree rest = surveys at ended
          cases ended with
          | through ends holding =>
            rw [List.append_assoc] at holding
            exact .through (surveyEach_told survey add flush stats ends) holding
          | stopped ends whole =>
            rw [List.append_assoc] at whole
            exact .stopped (surveyEach_told survey add flush stats ends) whole

end Steady

end Plan

end FluentCensus
