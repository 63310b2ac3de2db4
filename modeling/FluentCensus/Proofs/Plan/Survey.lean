import FluentCensus.Proofs.Histogram.Count
import FluentCensus.Proofs.Plan.Stage

namespace FluentCensus

namespace Host.Ends

variable {α : Type} {host middle after : Host} {action : HostM α} {fault : Fault}

theorem orStop {a : α} (attempt : String) (ends : Ends action host (.ok a) after) :
    Ends (Plan.orStop attempt action) host (.ok a) after :=
  tryCatch ends

theorem orStop_error (attempt : String) (ends : Ends action host (.error fault) after) :
    Ends (Plan.orStop attempt action) host (.error (fault.stopping attempt)) after :=
  tryCatch_error ends (throw _ after)

theorem closing {a : α} (writer : Csv.Writer) (ends : Ends action host (.ok a) after) :
    Ends (Plan.closing writer action) host (.ok a) after :=
  tryCatch ends

theorem closing_error {writer closed : Csv.Writer} (ends : Ends action host (.error fault) middle)
    (close : Ends writer.close middle (.ok closed) after) :
    Ends (Plan.closing writer action) host (.error fault) after :=
  tryCatch_error ends (bind close (throw fault after))

end Host.Ends

namespace FileTree

variable {tree : FileTree} {ignored : List String} {project : Path}

theorem finding_ok {finding : Finding} (found : tree.finding ignored project = .ok finding) :
    finding.project = project ∧ tree.javaFiles ignored project = .ok finding.files ∧
      Project.lengthsOf tree finding.files = .ok finding.lengths := by
  obtain ⟨files, listed, found⟩ := bind_ok found
  obtain ⟨lengths, measured, found⟩ := bind_ok found
  cases found
  exact ⟨rfl, listed, measured⟩

theorem finding_error {fault : Fault} (failed : tree.finding ignored project = .error fault) :
    tree.javaFiles ignored project = .error fault ∨
      ∃ files, tree.javaFiles ignored project = .ok files ∧
        Project.lengthsOf tree files = .error fault := by
  unfold FileTree.finding at failed
  cases listed : tree.javaFiles ignored project with
  | error fault =>
    rw [listed] at failed
    cases failed
    exact .inl rfl
  | ok files =>
    rw [listed, ok_bind] at failed
    cases measured : Project.lengthsOf tree files with
    | error fault =>
      rw [measured] at failed
      cases failed
      exact .inr ⟨files, rfl, measured⟩
    | ok lengths =>
      rw [measured] at failed
      cases failed

theorem finding_single {place : Location} {name : String} {leaf : Node}
    (found : tree.find project = .ok (place, .directory [(name, leaf)]))
    (solid : leaf.isDirectory = false) (entered : tree.machine.nesting ≠ 0)
    (allowed : tree.allow .list (spelling project project) = .ok ()) :
    tree.finding [] project =
      if isJava name = true ∧
          tree.leadsToDirectory (spelling project (project.child name)) leaf = false then
        (tree.source (project.child name)).map fun text =>
          ⟨project, [project.child name], (chainCounts text).map Int.ofNat⟩
      else .ok ⟨project, [], []⟩ := by
  obtain ⟨levels, nesting⟩ := Nat.exists_eq_succ_of_ne_zero entered
  have nothing : tree.walk isJava [] (spelling project) levels (project.child name) leaf =
      .ok [] := by
    cases leaf <;> cases levels <;> first | rfl | cases solid
  have directory : tree.isDirectory project = .ok true := by
    rw [isDirectory, check, found]
    rfl
  rw [finding, javaFiles, directory, found, nesting]
  by_cases java : isJava name = true ∧
      tree.leadsToDirectory (spelling project (project.child name)) leaf = false
  · rw [if_pos java]
    cases read : tree.source (project.child name) <;>
      simp [walk, allowed, nothing, java, Project.lengthsOf, read, Except.map]
  · rw [if_neg java]
    have unwanted : (!tree.leadsToDirectory (spelling project (project.child name)) leaf &&
        isJava name) = false := by
      rw [Bool.eq_false_iff, ne_eq, Bool.and_eq_true, Bool.not_eq_true']
      exact fun both => java both.symm
    simp [walk, allowed, nothing, unwanted, Project.lengthsOf]

end FileTree

namespace Host.Ends

variable {host : Host} {project : Path} {options : Project.Options}

theorem measure {finding : Finding}
    (found : host.tree.finding options.ignored project = .ok finding) :
    Ends (Project.measure project options) host (.ok (finding.files, finding.lengths)) host := by
  obtain ⟨_, listed, measured⟩ := FileTree.finding_ok found
  exact bind (ask listed) (bind (progress _ _ host) (bind (ask measured) (pure _ host)))

theorem measure_error {fault : Fault}
    (failed : host.tree.finding options.ignored project = .error fault) :
    Ends (Project.measure project options) host (.error fault) host := by
  rcases FileTree.finding_error failed with listing | ⟨files, listed, measuring⟩
  · exact bind_error (ask_error listing)
  · exact bind (ask listed) (bind (progress _ _ host) (bind_error (ask_error measuring)))

end Host.Ends

def Finding.named (finding : Finding) (name : String) : Survey := { finding.survey with name }

/-- What a tracer gets of a project, whether or not it is measured. -/
def Tracer.projectRecord (tracer : Tracer) (name : String) (latency : Int)
    (result : Except Fault Finding) : Record where
  runId := tracer.runId
  stage := "project"
  project := some name
  measures := match result with
    | .ok finding => {
      files := some finding.files.length
      chains := some finding.lengths.length
      histogram := some (.ofLengths finding.lengths) }
    | .error _ => {}
  latency := some latency
  error := match result with
    | .ok _ => none
    | .error fault => some fault.label
  extra := tracer.extra

namespace Tracer

variable {tracer : Tracer}

theorem projectRecord_proper (proper : Json.Proper (.object tracer.extra))
    (name : String) (latency : Int) (result : Except Fault Finding) :
    (tracer.projectRecord name latency result).Proper where
  extra := proper
  histogram h measured := by
    cases result with
    | error fault => cases measured
    | ok finding =>
      cases measured
      exact (Histogram.ofLengths_ascending _).nodup

theorem projectRecord_textual {m : Machine} {name : String}
    (runId : m.encodable tracer.runId.toList = true) (extra : m.Writes (.object tracer.extra))
    (plain : m.encodable name.toList = true) (latency : Int) (result : Except Fault Finding) :
    (tracer.projectRecord name latency result).Textual m where
  runId := runId
  stage := m.encodable_word "project" (by decide)
  project other given := by
    cases given
    exact plain
  error label failed := by
    cases result with
    | ok finding => cases failed
    | error fault =>
      cases failed
      exact m.encodable_label fault
  extra := extra

/-- The tracer writes to the file at the place, which takes every write, and what it adds to each
    record can be encoded. -/
structure Writable (tracer : Tracer) (tree : FileTree) (place : Location) : Prop where
  opens : tree.Opens tracer.path place
  takes : tree.machine.Takes place
  runId : tree.machine.encodable tracer.runId.toList = true
  extra : tree.machine.Writes (.object tracer.extra)

end Tracer

namespace Host.Ends

variable {host : Host}

theorem survey_untraced (idle : host.tracer? = none) (project : Path) (options : Project.Options) :
    Ends (Project.survey project options) host
      ((host.tree.finding options.ignored project).map (·.named (options.nameFor project)))
      host := by
  refine get (fun _ => rfl) ?_
  rw [idle]
  cases found : host.tree.finding options.ignored project with
  | error fault => exact bind_error (measure_error found)
  | ok finding =>
    obtain ⟨rfl, _, _⟩ := FileTree.finding_ok found
    exact bind (measure found) (pure _ host)

/-- With a tracer in force the survey comes to the same, unless the record of it cannot be added to
    the trace. -/
theorem survey_traced {tracer : Tracer} (tracing : host.tracer? = some tracer) (project : Path)
    (options : Project.Options) :
    let result := host.tree.finding options.ignored project
    let latency : Int := host.clock (host.readings + 1) - host.clock host.readings
    let logged := host.tree.appending tracer.path
      (tracer.projectRecord (options.nameFor project) latency result).line
    Ends (Project.survey project options) host
      (logged.1 >>= fun _ => result.map (·.named (options.nameFor project)))
      { host with readings := host.readings + 2, tree := logged.2 } := by
  intro result latency logged
  let span : Span := {
    tracer, stage := "project", project := some (options.nameFor project)
    start := host.clock host.readings }
  let entered : Host := { host with readings := host.readings + 1 }
  let survey (found : List Path × List Int) : Survey := {
    name := options.nameFor project, path := project, files := found.1.length
    histogram := .ofLengths found.2 }
  let measures (found : List Path × List Int) : Measures := {
    files := some (survey found).files
    chains := some found.2.length
    histogram := some (survey found).histogram }
  have begun {verdict : Except Fault Survey} {after : Host}
      (ends : Ends (do
          let found ← span.guard (Project.measure project options)
          (span.record (measures found)).finish
          return survey found) entered verdict after) :
      Ends (Project.survey project options) host verdict after := by
    refine get (fun _ => rfl) ?_
    rw [tracing]
    exact bind (enter _ host) ends
  cases found : host.tree.finding options.ignored project with
  | error fault =>
    have measured : Ends _ entered _ entered := measure_error found
    simp only [logged, result, found]
    exact begun (span_total span measured survey measures)
  | ok finding =>
    obtain ⟨rfl, _, _⟩ := FileTree.finding_ok found
    have measured : Ends _ entered _ entered := measure found
    simp only [logged, result, found]
    exact begun (span_total span measured survey measures)

theorem survey_written {tracer : Tracer} {place : Location} {made : FileTree}
    (rooted : host.tree.Rooted) (tracing : host.tracer? = some tracer)
    (writable : tracer.Writable host.tree place)
    (opened : host.tree.openForWriting tracer.path = .ok (place, made))
    (project : Path) (options : Project.Options)
    (plain : host.tree.machine.encodable (options.nameFor project).toList = true) :
    let found := host.tree.finding options.ignored project
    let latency : Int := host.clock (host.readings + 1) - host.clock host.readings
    let line := (tracer.projectRecord (options.nameFor project) latency found).line
    host.tree.machine.encodable line = true ∧
      Ends (Project.survey project options) host (found.map (·.named (options.nameFor project)))
        { host with
          readings := host.readings + 2
          tree := made.putBytes place (made.bytesAt place ++ Utf8.encode line) } := by
  intro found latency line
  have encoded : host.tree.machine.encodable line = true :=
    (tracer.projectRecord_textual writable.runId writable.extra plain latency found).line
  have ends := survey_traced tracing project options
  dsimp only at ends
  rw [FileTree.appending_takes rooted opened writable.takes encoded] at ends
  exact ⟨encoded, ends⟩

end Host.Ends

theorem Survey.chains_of_untold {s : Survey} {memory : Nat → Bool} {error : StatsError}
    (untold : s.stats memory = .error error) : s.chains ≠ 0 := by
  intro nothing
  rw [stats, Stats.ofHistogram, if_pos (show s.histogram.total = 0 from nothing)] at untold
  cases untold

namespace Plan

def optionsFor (plan : Plan) (tree : FileTree) (total index : Nat) (project : Path) :
    Project.Options where
  index
  total
  name := plan.nameOf tree project
  ignored := plan.ignored
  quiet := plan.quiet

section Each

-- A project can end the surveys at any of four steps, the ones before it done; past the last of
-- them the surveys go on to the next project.

variable {plan : Plan} {total index : Nat} {writer filled next : Csv.Writer} {project : Path}
  {rest : List Path} {host read written after : Host} {s : Survey} {rows : Nat} {fault : Fault}

theorem surveyEach_unsurveyed
    (ends : Host.Ends (closing writer <|
        orStop s!"Failed to process project {plan.nameOf host.tree project}" <|
        Project.survey project (plan.optionsFor host.tree total index project)) host
      (.error fault) after) :
    Host.Ends (plan.surveyEach total index writer (project :: rest)) host (.error fault) after :=
  .get (fun _ => rfl) (.bind (.progress _ _ host) (.bind_error ends))

variable (survey : Host.Ends
  (Project.survey project (plan.optionsFor host.tree total index project)) host (.ok s) read)

include survey

theorem surveyEach_unfilled
    (ends : Host.Ends (closing writer <|
        orStop s!"Cannot write to file {plan.outputPath.toString}" (writer.add s)) read
      (.error fault) after) :
    Host.Ends (plan.surveyEach total index writer (project :: rest)) host (.error fault) after :=
  .get (fun _ => rfl) (.bind (.progress _ _ host) (.bind (.closing _ (.orStop _ survey))
    (.bind (.progress _ _ read) (.bind_error ends))))

variable (add : Host.Ends (writer.add s) read (.ok (rows, filled)) read)

include add

theorem surveyEach_unflushed
    (ends : Host.Ends (closing filled <|
        orStop s!"Cannot write to file {plan.outputPath.toString}" filled.flush) read
      (.error fault) after) :
    Host.Ends (plan.surveyEach total index writer (project :: rest)) host (.error fault) after :=
  .get (fun _ => rfl) (.bind (.progress _ _ host) (.bind (.closing _ (.orStop _ survey))
    (.bind (.progress _ _ read) (.bind (.closing _ (.orStop _ add)) (.bind_error ends)))))

variable (flush : Host.Ends filled.flush read (.ok next) written)

include flush

theorem surveyEach_untold {error : StatsError}
    (untold : s.stats written.tree.machine.memory = .error error)
    (ends : Host.Ends (closing next (throw (.stats error) : HostM PUnit)) written (.error fault)
      after) :
    Host.Ends (plan.surveyEach total index writer (project :: rest)) host (.error fault) after := by
  refine .get (fun _ => rfl) (.bind (.progress _ _ host) (.bind (.closing _ (.orStop _ survey))
    (.bind (.progress _ _ read) (.bind (.closing _ (.orStop _ add))
      (.bind (.closing _ (.orStop _ flush)) ?_)))))
  rw [if_pos (Survey.chains_of_untold untold)]
  refine .get (fun _ => rfl) ?_
  dsimp only
  rw [untold]
  exact .bind_error ends

theorem surveyEach_told {figures : Stats Float} {verdict : Except Fault (List Survey × Csv.Writer)}
    (told : s.stats written.tree.machine.memory = .ok figures)
    (ends : Host.Ends (plan.surveyEach total (index + 1) next rest) written verdict after) :
    Host.Ends (plan.surveyEach total index writer (project :: rest)) host
      (verdict.map fun found => (s :: found.1, found.2)) after := by
  refine .get (fun _ => rfl) (.bind (.progress _ _ host) (.bind (.closing _ (.orStop _ survey))
    (.bind (.progress _ _ read) (.bind (.closing _ (.orStop _ add))
      (.bind (.closing _ (.orStop _ flush)) ?_)))))
  have later : Host.Ends (plan.surveyEach total (index + 1) next rest >>= fun found =>
      pure (s :: found.1, found.2)) written (verdict.map fun found => (s :: found.1, found.2))
      after := by
    cases verdict with
    | error fault => exact .bind_error ends
    | ok found => exact .bind ends (.pure _ _)
  by_cases chains : s.chains ≠ 0
  · rw [if_pos chains]
    refine .get (fun _ => rfl) ?_
    dsimp only
    rw [told]
    exact .bind (.progress _ _ written) later
  · rw [if_neg chains]
    exact later

end Each

end Plan

namespace Stage

def tracer (stage : Stage) (serial : Nat) : Tracer :=
  { serial, runId := stage.runId, path := stage.path, extra := stage.plan.extra }

def writer (stage : Stage) (found : List Finding) : Csv.Writer where
  path := stage.plan.outputPath
  handle := some {
    place := stage.csv
    offset := (written found).length
    pending := pending found }

def verdict (stage : Stage) (found new : List Finding) :
    Option Halt → Except Fault (List Survey × Csv.Writer)
  | none => .ok (new.map Finding.survey, stage.writer found)
  | some halt => .error halt.raised

theorem verdict_cons (stage : Stage) (found : List Finding) (finding : Finding)
    (new : List Finding) (halt : Option Halt) :
    stage.verdict found (finding :: new) halt =
      (stage.verdict found new halt).map fun later => (finding.survey :: later.1, later.2) := by
  cases halt <;> rfl

def surveyed (stage : Stage) (found : List Finding) (halt : Option Halt) : FileTree :=
  stage.tree (match halt with | none => written found | some _ => filed found)
    (stage.records found halt)

structure Stands (stage : Stage) (host : Host) (found : List Finding) : Prop where
  tracing : ∃ serial, host.tracer? = some (stage.tracer serial)
  tree : host.tree = stage.after found
  clock : host.clock = stage.clock
  readings : host.readings = stage.reading found.length

theorem written_filled {found : List Finding} (filled : found ≠ []) :
    written found = filed found ∧ pending found = [] := by
  obtain ⟨first, rest, rfl⟩ := List.exists_cons_of_ne_nil filled
  exact ⟨rfl, rfl⟩

theorem written_pending (found : List Finding) :
    written found ++ pending found = filed found := by
  cases found with
  | nil => simp [written, pending, filed, Csv.document]
  | cons first rest => exact List.append_nil _

theorem document_snoc (found : List Finding) (finding : Finding) :
    Csv.document ((found ++ [finding]).map Finding.survey) =
      Csv.document (found.map Finding.survey) ++
        (Csv.rows finding.survey).flatMap Csv.endLine := by
  simp [Csv.document]

theorem measure_cases {stage : Stage} {done found : List Finding} {projects : List Path}
    {halt : Option Halt} (measured : stage.measure done projects = (found, halt)) :
    ∃ new, found = done ++ new ∧
      (halt = none → new.map Finding.project = projects ∧ ∀ finding ∈ new,
        ∃ figures, finding.survey.stats stage.begun.machine.memory = .ok figures) ∧
      ∀ project fault, halt = some (.unread project fault) →
        ∃ later, projects = new.map Finding.project ++ project :: later := by
  fun_induction stage.measure done projects with
  | case1 done =>
    cases measured
    exact ⟨[], (List.append_nil _).symm, fun _ => ⟨rfl, List.forall_mem_nil _⟩, fun _ _ => nofun⟩
  | case2 done project rest fault attempt =>
    cases measured
    refine ⟨[], (List.append_nil _).symm, nofun, ?_⟩
    intro project fault halted
    cases halted
    exact ⟨rest, rfl⟩
  | case3 done project rest finding attempt error stats =>
    cases measured
    exact ⟨[finding], rfl, nofun, fun _ _ => nofun⟩
  | case4 done project rest finding attempt figures stats ih =>
    obtain ⟨new, rfl, all, upTo⟩ := ih measured
    obtain ⟨rfl, _, _⟩ := FileTree.finding_ok attempt
    refine ⟨finding :: new, by simp, fun none => ⟨?_, ?_⟩, ?_⟩
    · rw [List.map_cons, (all none).1]
    · exact List.forall_mem_cons.mpr ⟨⟨figures, stats⟩, (all none).2⟩
    · intro project fault halted
      obtain ⟨later, rfl⟩ := upTo project fault halted
      exact ⟨later, rfl⟩

theorem nameOf_several {plan : Plan} (several : plan.single = false) (tree : FileTree)
    (project : Path) : plan.nameOf tree project = project.name := by
  rw [Plan.nameOf, several]
  rfl

theorem nameFor_project {options : Project.Options} {project : Path}
    (name : options.name = project.name) : options.nameFor project = project.name := by
  rw [Project.Options.nameFor, name]
  split <;> rfl

namespace Sound

variable {stage : Stage} (sound : stage.Sound) {host : Host} {bytes : List UInt8}
  {records : List Record}

include sound

theorem finish (standing : host.tree = stage.tree bytes records) {span : Span}
    (path : span.tracer.path = stage.path) {error : Option String}
    (plain : stage.begun.machine.encodable
      (span.ended (host.clock host.readings) error).line = true) :
    Host.Ends (span.finish error) host (.ok ())
      { host with
        readings := host.readings + 1
        tree := stage.tree bytes (records ++ [span.ended (host.clock host.readings) error]) } := by
  have logged := sound.log bytes records plain
  have ends := Host.Ends.finish span error host
  rw [path, standing, logged] at ends
  exact ends

theorem flush (standing : host.tree = stage.tree bytes records) (pending : List UInt8) :
    Host.Ends (Host.Handle.flush { place := stage.csv, offset := bytes.length, pending }) host
      (.ok { place := stage.csv, offset := (bytes ++ pending).length })
      { host with tree := stage.tree (bytes ++ pending) records } := by
  have held : host.tree.bytesAt stage.csv = bytes := by rw [standing, sound.bytesAt_csv]
  refine .flush _ ?_ rfl held ?_ ?_
  · rw [standing, sound.machine]
    exact sound.csvTakes
  · rw [standing, sound.putBytes_csv]
  · rw [standing, sound.putBytes_csv]

theorem close (found : List Finding)
    (standing : host.tree = stage.tree (written found) records) :
    ∃ closed, Host.Ends (stage.writer found).close host (.ok closed)
      { host with tree := stage.tree (filed found) records } := by
  have ends := sound.flush standing (pending found)
  rw [written_pending] at ends
  exact ⟨_, .bind ends (.pure _ _)⟩

theorem add (found : List Finding) (finding : Finding)
    (standing : host.tree = stage.tree (written found) records)
    (plain : stage.begun.machine.encodable finding.project.name.toList = true) :
    ∃ rows filled, Host.Ends ((stage.writer found).add finding.survey) host (.ok (rows, filled))
        host ∧
      Host.Ends filled.flush host (.ok (stage.writer (found ++ [finding])))
        { host with tree := stage.tree (written (found ++ [finding])) records } := by
  have rows : host.tree.machine.encodable
      ((Csv.rows finding.survey).flatMap Csv.endLine) = true := by
    rw [standing, sound.machine]
    exact Csv.encodable_rows plain
  refine ⟨_, _, .bind (.write _ rows) (.pure _ _), ?_⟩
  have ends := sound.flush standing
    (pending found ++ Utf8.encode ((Csv.rows finding.survey).flatMap Csv.endLine))
  obtain ⟨filled, nothing⟩ := written_filled (List.concat_ne_nil finding found)
  rw [← List.append_assoc, written_pending, filed, ← Utf8.encode_append, ← document_snoc,
    ← filed, ← filled] at ends
  have next : stage.writer (found ++ [finding]) = {
      path := stage.plan.outputPath
      handle := some { place := stage.csv, offset := (written (found ++ [finding])).length } } := by
    rw [writer, nothing]
  rw [next]
  exact .bind ends (.pure _ _)

section Project

variable {projects : List Path} (textual : stage.Textual projects) {project : Path}
  (member : project ∈ projects) {done : List Finding} (stands : stage.Stands host done)
  {options : Project.Options} (name : options.name = project.name)

include textual member stands name

omit textual member in
theorem logged {record : Record} {result : Except Fault Finding}
    (found : host.tree.finding options.ignored project = result)
    (plain : stage.begun.machine.encodable record.line = true)
    (same : ∀ serial, (stage.tracer serial).projectRecord project.name
      (stage.clock (stage.reading done.length + 1) - stage.clock (stage.reading done.length))
      result = record) :
    Host.Ends (Project.survey project options) host (result.map (·.named project.name))
      { host with
        readings := stage.reading (done.length + 1)
        tree := stage.tree (written done) (done.mapIdx stage.foundRecord ++ [record]) } := by
  obtain ⟨serial, tracing⟩ := stands.tracing
  have ends := Host.Ends.survey_traced tracing project options
  have path : (stage.tracer serial).path = stage.path := rfl
  have read : host.readings + 2 = stage.reading (done.length + 1) :=
    congrArg (· + 2) stands.readings
  dsimp only at ends
  rw [found, nameFor_project name, read, stands.clock, stands.readings, same serial, path,
    stands.tree, after, sound.log _ _ plain, ← stands.clock] at ends
  exact ends

theorem survey {finding : Finding}
    (found : host.tree.finding options.ignored project = .ok finding) :
    Host.Ends (Project.survey project options) host (.ok finding.survey)
      { host with
        readings := stage.reading (done ++ [finding]).length
        tree := stage.tree (written done) ((done ++ [finding]).mapIdx stage.foundRecord) } := by
  obtain ⟨rfl, _, _⟩ := FileTree.finding_ok found
  have plain := (textual.project done.length member (stage.foundRecord done.length finding).measures
    none).line
  have ends := sound.logged stands name found plain fun _ => rfl
  rw [List.mapIdx_concat, List.length_append]
  exact ends

/-- A project that is not got past is recorded as failed, and closes the CSV file. -/
theorem stopped {fault : Fault}
    (failed : host.tree.finding options.ignored project = .error fault) :
    Host.Ends (Plan.closing (stage.writer done) <|
        Plan.orStop s!"Failed to process project {project.name}" <| Project.survey project options)
      host (.error (fault.ofProject project))
      { host with
        readings := stage.reading (done.length + 1)
        tree := stage.surveyed done (some (.unread project fault)) } := by
  have plain := (textual.project done.length member {} (some fault)).line
  have survey := sound.logged stands name failed plain fun _ => rfl
  obtain ⟨closed, close⟩ : ∃ closed, Host.Ends (stage.writer done).close
      { host with
        readings := stage.reading (done.length + 1)
        tree := stage.tree (written done) (stage.records done (some (.unread project fault))) }
      (.ok closed) _ := sound.close done rfl
  exact .closing_error (.orStop_error _ survey) close

end Project

theorem surveyEach (several : stage.plan.single = false) (total : Nat) {all : List Path}
    (textual : stage.Textual all) {done new : List Finding} {projects : List Path}
    (sub : projects ⊆ all) {halt : Option Halt}
    (measured : stage.measure done projects = (done ++ new, halt))
    (stands : stage.Stands host done) (index : Nat) :
    Host.Ends (stage.plan.surveyEach total index (stage.writer done) projects) host
      (stage.verdict (done ++ new) new halt)
      { host with
        readings := stage.reading (stage.records (done ++ new) halt).length
        tree := stage.surveyed (done ++ new) halt } := by
  -- Each project is read from the file system that the ones before it left, so those move from
  -- the projects to come to the ones that are done.
  induction projects generalizing done new index host with
  | nil =>
    obtain ⟨same, rfl⟩ := Prod.mk.inj measured
    obtain rfl : new = [] := List.self_eq_append_right.mp same
    have still : { host with
        readings := stage.reading (stage.records (done ++ []) none).length
        tree := stage.surveyed (done ++ []) none } = host := by
      rw [List.append_nil, records, List.length_mapIdx, ← stands.readings, surveyed, records,
        ← after, ← stands.tree]
    rw [still, List.append_nil]
    exact .pure _ _
  | cons project rest ih =>
    obtain ⟨member, others⟩ := List.cons_subset.mp sub
    rw [measure] at measured
    have name : (stage.plan.optionsFor host.tree total index project).name = project.name :=
      nameOf_several several _ _
    cases attempt : (stage.after done).finding stage.plan.ignored project with
    | error fault =>
      rw [attempt] at measured
      obtain ⟨same, rfl⟩ := Prod.mk.inj measured
      obtain rfl : new = [] := List.self_eq_append_right.mp same
      rw [← stands.tree] at attempt
      have stopped := sound.stopped textual member stands name attempt
      rw [← nameOf_several several host.tree] at stopped
      rw [List.append_nil, records, List.length_append, List.length_mapIdx]
      exact Plan.surveyEach_unsurveyed stopped
    | ok finding =>
      rw [attempt] at measured
      rw [← stands.tree] at attempt
      have survey := sound.survey textual member stands name attempt
      obtain ⟨rfl, _, _⟩ := FileTree.finding_ok attempt
      let recorded : Host := { host with
        readings := stage.reading (done ++ [finding]).length
        tree := stage.tree (written done) ((done ++ [finding]).mapIdx stage.foundRecord) }
      obtain ⟨rows, filled, add, flush⟩ :=
        sound.add done finding (show recorded.tree = _ from rfl) (textual.name member)
      let flushed : Host := { recorded with tree := stage.after (done ++ [finding]) }
      have next : stage.Stands flushed (done ++ [finding]) :=
        ⟨stands.tracing, rfl, stands.clock, rfl⟩
      have machine : flushed.tree.machine = stage.begun.machine := sound.machine _ _
      cases stats : finding.survey.stats stage.begun.machine.memory with
      | error error =>
        dsimp only at measured
        rw [stats] at measured
        obtain ⟨same, rfl⟩ := Prod.mk.inj measured
        obtain rfl : [finding] = new := List.append_cancel_left same
        obtain ⟨closed, close⟩ := sound.close (done ++ [finding]) (show flushed.tree = _ from rfl)
        rw [records, List.length_mapIdx]
        exact Plan.surveyEach_untold survey add flush (machine ▸ stats)
          (.closing_error (.throw _ _) close)
      | ok figures =>
        dsimp only at measured
        rw [stats] at measured
        obtain ⟨later, same, _, _⟩ := measure_cases measured
        obtain rfl : new = finding :: later := by simpa using same
        have ends := ih others (by simpa using measured) next (index + 1)
        rw [List.append_assoc] at ends
        rw [verdict_cons]
        exact Plan.surveyEach_told survey add flush (machine ▸ stats) ends

end Sound

end Stage

end FluentCensus
