import FluentCensus.Csv.Writer
import FluentCensus.Decimal.Fixed
import FluentCensus.Project
import FluentCensus.Summary

namespace FluentCensus

structure Plan where
  projectDir : Path
  outputPath : Path
  /-- Whether the directory is itself the only project. -/
  single : Bool := false
  ignored : List String := []
  summary : Summary.Destination := .nowhere
  tracePath : Option Path := none
  quiet : Bool := false
deriving DecidableEq

def Fault.stopping (fault : Fault) (attempt : String) : Fault :=
  if fault.ofFiles then .stop s!"❌ {attempt}: {fault.message}" else fault

namespace Plan

def orStop (attempt : String) (action : HostM α) : HostM α :=
  try action
  catch fault => throw (fault.stopping attempt)

def projects (plan : Plan) : HostM (List Path) := do
  if plan.single then
    unless ← Host.ask (·.isDirectory plan.projectDir) do
      throw (.stop s!"❌ Cannot read directory {plan.projectDir.toString}")
    return [plan.projectDir]
  else
    orStop s!"Cannot read directory {plan.projectDir.toString}" do
      Host.ask (·.subdirectories plan.projectDir)

/-- A single project is named for the directory that its path really leads to. -/
def nameOf (plan : Plan) (tree : FileTree) (project : Path) : String :=
  if plan.single then (tree.realPath project).name else project.name

def figuresLine (s : Stats Float) : String :=
  let number (places : Nat) (x : Float) := String.ofList (Decimal.fixedText places x)
  let share := String.ofList (Decimal.percentText s.chained)
  s!"   chains={s.chains} mean={number 2 s.mean} p95={number 1 s.p95} max={s.longest} " ++
    s!"chained={share}"

/-- A fault closes the CSV file before it goes on, if the close does not meet another one. -/
def closing (writer : Csv.Writer) (action : HostM α) : HostM α :=
  try action
  catch fault => do
    let _ ← writer.close
    throw fault

/-- Survey the projects in order, each into the CSV file before the next one is begun. The file
    stays open, unless there is a fault. -/
def surveyEach (plan : Plan) (total : Nat) :
    Nat → Csv.Writer → List Path → HostM (List Survey × Csv.Writer)
  | _, writer, [] => return ([], writer)
  | index, writer, project :: rest => do
    let name := plan.nameOf (← get).tree project
    let place := s!"[{index + 1}/{total}]"
    let output := plan.outputPath.toString
    Host.progress plan.quiet s!"⚙️ {place} processing project {name}"
    let s ← closing writer <| orStop s!"Failed to process project {name}" <|
      Project.survey project { index, total, name, ignored := plan.ignored, quiet := plan.quiet }
    let rows := s.histogram.entries.length
    Host.progress plan.quiet
      s!"📊 {place} appending {rows} items for project {name} to CSV {output}"
    let (_, filled) ← closing writer <| orStop s!"Cannot write to file {output}" (writer.add s)
    let writer ← closing filled <| orStop s!"Cannot write to file {output}" filled.flush
    if s.chains ≠ 0 then
      match s.stats (← get).tree.machine.memory with
      | .ok figures => Host.progress plan.quiet (figuresLine figures)
      | .error e => closing writer (throw (.stats e))
    let (surveys, writer) ← surveyEach plan total (index + 1) writer rest
    return (s :: surveys, writer)

def surveyInto (plan : Plan) (projects : List Path) : HostM (List Survey × Csv.Writer) := do
  let writer ← orStop s!"Cannot create file {plan.outputPath.toString}" <|
    Csv.Writer.start { path := plan.outputPath }
  plan.surveyEach projects.length 0 writer projects

/-- Survey under a trace, to which the whole run adds one record after those of its projects. -/
def surveyTraced (plan : Plan) (projects : List Path) (path : Path) : HostM (List Survey) := do
  let runId := (← get).runId
  let tracer ← orStop s!"Cannot create file {path.toString}" <| Tracer.make runId path [
    ("project_dir", .string plan.projectDir.toString),
    ("output_path", .string plan.outputPath.toString)]
  tracer.during do
    let span ← Span.enter { tracer, stage := "run_total" }
    let span := span.record {} [
      ("projects", .int projects.length), ("single_project", .bool plan.single)]
    let (surveys, writer) ← span.guard (plan.surveyInto projects)
    let span := span.record {
      files := some (sumOf (surveys.map Survey.files))
      chains := some (sumOf (surveys.map Survey.chains)) }
    let _ ← span.guard writer.close
    span.finish
    return surveys

def surveyUntraced (plan : Plan) (projects : List Path) : HostM (List Survey) := do
  let (surveys, writer) ← plan.surveyInto projects
  let _ ← writer.close
  return surveys

def conclude (plan : Plan) (surveys : List Survey) : HostM (List Survey) := do
  match plan.summary with
  | .nowhere => pure ()
  | .unnamed => throw .noPath
  | .file path =>
    orStop s!"Cannot create file {path.toString}" (Summary.write surveys path)
    let written := ((← get).tree.realPath path).toString
    Host.progress plan.quiet s!"✅ Summary JSON: {written}"
  Host.progress plan.quiet "✅ Done."
  return surveys

def run (plan : Plan) : HostM (List Survey) := do
  let projects ← plan.projects
  let directory := plan.projectDir.toString
  let output := plan.outputPath.toString
  Host.progress plan.quiet s!"📂 Found {projects.length} project directories in {directory}."
  Host.progress plan.quiet
    s!"📝 Creating CSV file at {output} (if file exists, it will be overwritten)"
  let surveys ← match plan.tracePath with
    | some path => plan.surveyTraced projects path
    | none => plan.surveyUntraced projects
  plan.conclude surveys

end Plan

end FluentCensus
