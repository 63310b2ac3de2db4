import FluentCensus.Plan
import FluentCensus.Proofs.Csv.Document
import FluentCensus.Proofs.Host.Outcome
import FluentCensus.Proofs.Text.Encodable

namespace FluentCensus

theorem Path.mem_toString (path : Path) {c : Char} (member : c ∈ path.name.toList) :
    c ∈ path.toString.toList := by
  have inside (parts : List String) (inside : c ∈ (parts.getLastD "").toList) :
      c ∈ ("/".intercalate parts).toList := by
    induction parts with
    | nil => cases inside
    | cons first rest ih =>
      cases rest with
      | nil => exact inside
      | cons second rest =>
        rw [String.intercalate_cons_cons, String.toList_append]
        exact List.mem_append_right _ (ih inside)
  rw [toString]
  split
  · rename_i bare
    rw [name, List.isEmpty_iff.mp bare.2] at member
    cases member
  · rw [String.toList_append]
    exact List.mem_append_right _ (inside path.parts member)

structure Finding where
  project : Path
  files : List Path
  lengths : List Int
deriving DecidableEq

def Finding.survey (finding : Finding) : Survey where
  name := finding.project.name
  path := finding.project
  files := finding.files.length
  histogram := .ofLengths finding.lengths

def FileTree.finding (tree : FileTree) (ignored : List String) (project : Path) :
    Except Fault Finding := do
  let files ← tree.javaFiles ignored project
  return { project, files, lengths := ← Project.lengthsOf tree files }

def Fault.ofProject (fault : Fault) (project : Path) : Fault :=
  fault.stopping s!"Failed to process project {project.name}"

inductive Halt where
  | unread (project : Path) (fault : Fault)
  /-- The project is read and its rows are written, but there are no figures of it. -/
  | untold (error : StatsError)
deriving DecidableEq

def Halt.raised : Halt → Fault
  | .unread project fault => fault.ofProject project
  | .untold error => .stats error

namespace Plan

def extra (plan : Plan) : List (String × Json) := [
  ("project_dir", .string plan.projectDir.toString),
  ("output_path", .string plan.outputPath.toString)]

def tracer (plan : Plan) (host : Host) (path : Path) : Tracer where
  serial := host.made
  runId := host.runId
  path
  extra := plan.extra

def totalRecord (plan : Plan) (runId : String) (latency : Int) (total : Nat) (measures : Measures)
    (error : Option String) : Record where
  runId
  stage := "run_total"
  measures
  latency := some latency
  error
  extra := plan.extra ++ [("projects", .int total), ("single_project", .bool plan.single)]

theorem totalRecord_textual (plan : Plan) {m : Machine} {runId : String}
    (plain : m.encodable runId.toList = true) (extra : m.Writes (.object plan.extra))
    (latency : Int) (total : Nat) (measures : Measures) (fault : Option Fault) :
    (plan.totalRecord runId latency total measures (fault.map Fault.label)).Textual m where
  runId := plain
  stage := m.encodable_word "run_total" (by decide)
  project _ := nofun
  error label failed := by
    obtain ⟨fault, rfl, rfl⟩ := Option.map_eq_some_iff.mp failed
    exact m.encodable_label fault
  extra := extra.append (.named ["projects", "single_project"] rfl (by decide)
    (List.forall_mem_cons.mpr ⟨.int _, List.forall_mem_singleton.mpr (.bool _)⟩))

structure Textual (plan : Plan) (m : Machine) (runId : String) : Prop where
  runId : m.encodable runId.toList = true
  directory : m.encodable plan.projectDir.toString.toList = true
  output : m.encodable plan.outputPath.toString.toList = true

namespace Textual

variable {plan : Plan} {m : Machine} {runId : String} (textual : plan.Textual m runId)

include textual

theorem extra : m.Writes (.object plan.extra) :=
  .named ["project_dir", "output_path"] rfl (by decide) (List.forall_mem_cons.mpr
    ⟨.string textual.directory, List.forall_mem_singleton.mpr (.string textual.output)⟩)

theorem total (latency : Int) (total : Nat) (measures : Measures) (fault : Option Fault) :
    (plan.totalRecord runId latency total measures (fault.map Fault.label)).Textual m :=
  plan.totalRecord_textual textual.runId textual.extra latency total measures fault

end Textual

theorem extra_proper (plan : Plan) : Json.Proper (.object plan.extra) :=
  .named ["project_dir", "output_path"] rfl (by decide)
    (List.forall_mem_cons.mpr ⟨.string _, List.forall_mem_singleton.mpr (.string _)⟩)

theorem totalRecord_proper (plan : Plan) (runId : String) (latency : Int) (total : Nat)
    {measures : Measures} (unmeasured : measures.histogram = none) (error : Option String) :
    (plan.totalRecord runId latency total measures error).Proper where
  extra := by
    refine .named ["project_dir", "output_path", "projects", "single_project"] rfl (by decide) ?_
    simp only [totalRecord, extra, List.cons_append, List.nil_append, List.forall_mem_cons,
      List.not_mem_nil, false_implies, implies_true, and_true]
    exact ⟨.string _, .string _, .int _, .bool _⟩
  histogram h measured := by
    rw [totalRecord, unmeasured] at measured
    cases measured

end Plan

/-- A traced run of a plan from where its CSV file has been begun. -/
structure Stage where
  plan : Plan
  /-- Where the records go, in a file that the first one makes. -/
  path : Path
  runId : String
  clock : Nat → Nat
  /-- How often the clock has been read before the run. -/
  readings : Nat
  csv : Location
  trace : Location
  begun : FileTree
  /-- With the file of the records as it is before the first one. -/
  opened : FileTree

def Plan.stage (plan : Plan) (path : Path) (host : Host) : Except Fault Stage := do
  let tree ← host.tree.withDirectories path.parent
  let tree ← tree.withDirectories plan.outputPath.parent
  let (csv, tree) ← tree.openForWriting plan.outputPath
  let begun := tree.putBytes csv []
  let (trace, opened) ← begun.openForWriting path
  return {
    plan, path, runId := host.runId, clock := host.clock, readings := host.readings, csv, trace,
    begun, opened }

namespace Stage

def reading (stage : Stage) (index : Nat) : Nat := stage.readings + 1 + 2 * index

def projectRecord (stage : Stage) (index : Nat) (project : Path) (measures : Measures)
    (error : Option String) : Record where
  runId := stage.runId
  stage := "project"
  project := some project.name
  measures
  latency := some (stage.clock (stage.reading index + 1) - stage.clock (stage.reading index))
  error
  extra := stage.plan.extra

def foundRecord (stage : Stage) (index : Nat) (finding : Finding) : Record :=
  stage.projectRecord index finding.project {
    files := some finding.files.length
    chains := some finding.lengths.length
    histogram := some (.ofLengths finding.lengths) } none

def failedRecord (stage : Stage) (index : Nat) (project : Path) (fault : Fault) : Record :=
  stage.projectRecord index project {} (some fault.label)

def totalRecord (stage : Stage) (total begun : Nat) (measures : Measures)
    (error : Option String) : Record :=
  stage.plan.totalRecord stage.runId
    (stage.clock (stage.reading begun) - stage.clock stage.readings) total measures error

/-- The file system with bytes in the CSV file and records added to the trace. -/
def tree (stage : Stage) (bytes : List UInt8) : List Record → FileTree
  | [] => stage.begun.putBytes stage.csv bytes
  | first :: rest =>
    (stage.opened.putBytes stage.csv bytes).putBytes stage.trace
      (stage.opened.bytesAt stage.trace ++ Utf8.encode ((first :: rest).flatMap Record.line))

/-- What of the CSV file has been written after some projects. Its header waits for the first
    one's rows. -/
def written : List Finding → List UInt8
  | [] => []
  | first :: rest => Utf8.encode (Csv.document ((first :: rest).map Finding.survey))

def pending : List Finding → List UInt8
  | [] => Utf8.encode (Csv.endLine Csv.header)
  | _ :: _ => []

def after (stage : Stage) (found : List Finding) : FileTree :=
  stage.tree (written found) (found.mapIdx stage.foundRecord)

/-- The projects that are measured one after the other, and what halts the run before the next. -/
def measure (stage : Stage) (found : List Finding) : List Path → List Finding × Option Halt
  | [] => (found, none)
  | project :: rest =>
    match (stage.after found).finding stage.plan.ignored project with
    | .error fault => (found, some (.unread project fault))
    | .ok finding =>
      match finding.survey.stats stage.begun.machine.memory with
      | .error error => (found ++ [finding], some (.untold error))
      | .ok _ => stage.measure (found ++ [finding]) rest

def records (stage : Stage) (found : List Finding) : Option Halt → List Record
  | some (.unread project fault) =>
    found.mapIdx stage.foundRecord ++ [stage.failedRecord found.length project fault]
  | some (.untold _) | none => found.mapIdx stage.foundRecord

def filed (found : List Finding) : List UInt8 :=
  Utf8.encode (Csv.document (found.map Finding.survey))

/-- The outputs are apart from each other and take every write, and a summary that is asked for can
    be written. -/
structure Usable (stage : Stage) : Prop where
  apart : stage.csv ≠ stage.trace
  csv : stage.begun.machine.Takes stage.csv
  trace : stage.begun.machine.Takes stage.trace
  summary : match stage.plan.summary with
    | .nowhere => True
    | .unnamed => False
    | .file path => ∃ above place made, stage.opened.withDirectories path.parent = .ok above ∧
        above.openForWriting path = .ok (place, made) ∧ place ≠ stage.csv ∧ place ≠ stage.trace ∧
        stage.begun.machine.Takes place

structure Textual (stage : Stage) (projects : List Path) : Prop
    extends stage.plan.Textual stage.begun.machine stage.runId where
  paths : ∀ project ∈ projects, stage.begun.machine.encodable project.toString.toList = true

namespace Textual

variable {stage : Stage} {projects : List Path} (textual : stage.Textual projects)

include textual

theorem name {project : Path} (member : project ∈ projects) :
    stage.begun.machine.encodable project.name.toList = true :=
  Machine.encodable_iff.mpr fun c inside =>
    Machine.encodable_iff.mp (textual.paths project member) c (project.mem_toString inside)

theorem project (index : Nat) {project : Path} (member : project ∈ projects)
    (measures : Measures) (fault : Option Fault) :
    (stage.projectRecord index project measures (fault.map Fault.label)).Textual
      stage.begun.machine where
  runId := textual.runId
  stage := Machine.encodable_word _ "project" (by decide)
  project name given := by
    cases given
    exact textual.name member
  error label failed := by
    obtain ⟨fault, rfl, rfl⟩ := Option.map_eq_some_iff.mp failed
    exact Machine.encodable_label _ fault
  extra := textual.toTextual.extra

end Textual

/-- What is known of a stage whose CSV file and trace could be opened and can be written. -/
structure Sound (stage : Stage) : Prop where
  rooted : stage.begun.Rooted
  file : stage.begun.FileAt stage.csv
  opened : stage.begun.openForWriting stage.path = .ok (stage.trace, stage.opened)
  apart : stage.csv ≠ stage.trace
  csvTakes : stage.begun.machine.Takes stage.csv
  traceTakes : stage.begun.machine.Takes stage.trace

namespace Sound

variable {stage : Stage} (sound : stage.Sound) (bytes : List UInt8) (records : List Record)

include sound

theorem grown : FileTree.Grown stage.begun stage.opened [stage.trace] :=
  FileTree.openForWriting_grown sound.rooted sound.opened

theorem openedRooted : stage.opened.Rooted := sound.grown.rooted sound.rooted

theorem csvFile : stage.opened.FileAt stage.csv := sound.grown.fileAt sound.file

theorem traceFile : stage.opened.FileAt stage.trace :=
  FileTree.openForWriting_file sound.rooted sound.opened

theorem csvRooted : (stage.opened.putBytes stage.csv bytes).Rooted :=
  FileTree.rooted_putBytes sound.openedRooted sound.csvFile bytes

theorem csvTrace : (stage.opened.putBytes stage.csv bytes).FileAt stage.trace :=
  sound.traceFile.put sound.openedRooted sound.csvFile bytes

theorem csvCsv : (stage.opened.putBytes stage.csv bytes).FileAt stage.csv :=
  sound.csvFile.put sound.openedRooted sound.csvFile bytes

theorem treeRooted : (stage.tree bytes records).Rooted := by
  cases records with
  | nil => exact FileTree.rooted_putBytes sound.rooted sound.file bytes
  | cons record records =>
    exact FileTree.rooted_putBytes (sound.csvRooted bytes) (sound.csvTrace bytes) _

theorem machine : (stage.tree bytes records).machine = stage.begun.machine := by
  cases records with
  | nil => rfl
  | cons record records => exact sound.grown.machine

theorem bytesAt_csv : (stage.tree bytes records).bytesAt stage.csv = bytes := by
  cases records with
  | nil => exact FileTree.bytesAt_putBytes sound.rooted sound.file bytes
  | cons record records =>
    rw [tree, FileTree.bytesAt_putBytes_other (sound.csvRooted bytes) (sound.csvTrace bytes)
      sound.apart, FileTree.bytesAt_putBytes sound.openedRooted sound.csvFile]

theorem bytesAt_trace (some_record : records ≠ []) :
    (stage.tree bytes records).bytesAt stage.trace =
      stage.opened.bytesAt stage.trace ++ Utf8.encode (records.flatMap Record.line) := by
  cases records with
  | nil => exact absurd rfl some_record
  | cons record records =>
    exact FileTree.bytesAt_putBytes (sound.csvRooted bytes) (sound.csvTrace bytes) _

theorem putBytes_csv (new : List UInt8) :
    (stage.tree bytes records).putBytes stage.csv new = stage.tree new records := by
  cases records with
  | nil => exact FileTree.putBytes_putBytes _ _ _ _
  | cons record records =>
    rw [tree, FileTree.putBytes_comm (sound.csvRooted bytes) (sound.csvTrace bytes)
      (sound.csvCsv bytes) sound.apart, FileTree.putBytes_putBytes]
    rfl

theorem opens (record : Record) :
    ∃ tree, (stage.tree bytes records).openForWriting stage.path = .ok (stage.trace, tree) ∧
      tree.putBytes stage.trace (tree.bytesAt stage.trace ++ Utf8.encode record.line) =
        stage.tree bytes (records ++ [record]) := by
  cases records with
  | nil =>
    -- The first record makes the file, and the next ones find it there.
    refine ⟨_, FileTree.openForWriting_putBytes sound.rooted sound.opened sound.file bytes, ?_⟩
    rw [FileTree.bytesAt_putBytes_other sound.openedRooted sound.csvFile sound.apart.symm,
      List.nil_append, tree, List.flatMap_singleton]
  | cons first records =>
    have again := FileTree.openForWriting_again sound.rooted sound.opened
    have inside := FileTree.openForWriting_putBytes sound.openedRooted again sound.csvFile bytes
    refine ⟨_, FileTree.openForWriting_putBytes (sound.csvRooted bytes) inside
      (sound.csvTrace bytes) _, ?_⟩
    rw [FileTree.bytesAt_putBytes (sound.csvRooted bytes) (sound.csvTrace bytes),
      FileTree.putBytes_putBytes, List.append_assoc, ← Utf8.encode_append]
    simp [tree]

theorem log {record : Record} (plain : stage.begun.machine.encodable record.line = true) :
    (stage.tree bytes records).appending stage.path record.line =
      (.ok (), stage.tree bytes (records ++ [record])) := by
  obtain ⟨made, opened, written⟩ := sound.opens bytes records record
  have machine := sound.machine bytes records
  rw [FileTree.appending_takes (sound.treeRooted bytes records) opened
    (machine ▸ sound.traceTakes) (machine ▸ plain), written]

end Sound

end Stage

namespace Plan

variable {plan : Plan} {path : Path} {host : Host} {stage : Stage}

/-- The file systems between the first one and the one where the CSV file has been begun. -/
structure Staged (stage : Stage) (tree above housed made : FileTree) : Prop where
  traced : tree.withDirectories stage.path.parent = .ok above
  directory : above.withDirectories stage.plan.outputPath.parent = .ok housed
  created : housed.openForWriting stage.plan.outputPath = .ok (stage.csv, made)
  begun : stage.begun = made.putBytes stage.csv []
  opened : stage.begun.openForWriting stage.path = .ok (stage.trace, stage.opened)

structure Stages (plan : Plan) (path : Path) (host : Host) (stage : Stage) : Prop where
  plan : stage.plan = plan
  path : stage.path = path
  runId : stage.runId = host.runId
  clock : stage.clock = host.clock
  readings : stage.readings = host.readings

theorem stage_ok (staged : plan.stage path host = .ok stage) :
    plan.Stages path host stage ∧
      ∃ above housed made, Staged stage host.tree above housed made := by
  obtain ⟨above, traced, staged⟩ := bind_ok staged
  obtain ⟨housed, directory, staged⟩ := bind_ok staged
  obtain ⟨⟨csv, made⟩, created, staged⟩ := bind_ok staged
  obtain ⟨last, opened, staged⟩ := bind_ok staged
  cases staged
  exact ⟨⟨rfl, rfl, rfl, rfl, rfl⟩, above, housed, made, traced, directory, created, rfl, opened⟩

end Plan

namespace Plan.Staged

variable {stage : Stage} {tree above housed made : FileTree} (rooted : tree.Rooted)
  (staged : Staged stage tree above housed made)

include rooted staged

theorem grown : FileTree.Grown tree made [stage.csv] := by
  have first := FileTree.withDirectories_grown rooted staged.traced [stage.csv]
  have second := FileTree.withDirectories_grown (first.rooted rooted) staged.directory [stage.csv]
  have third := FileTree.openForWriting_grown ((first.trans second).rooted rooted) staged.created
  exact (first.trans second).trans third

theorem made_file : made.FileAt stage.csv := by
  have first := FileTree.withDirectories_grown rooted staged.traced []
  have second := FileTree.withDirectories_grown (first.rooted rooted) staged.directory []
  exact FileTree.openForWriting_file ((first.trans second).rooted rooted) staged.created

theorem sound (usable : stage.Usable) : stage.Sound where
  rooted := by
    rw [staged.begun]
    have grown := staged.grown rooted
    exact FileTree.rooted_putBytes (grown.rooted rooted) (staged.made_file rooted) []
  file := by
    rw [staged.begun]
    have file := staged.made_file rooted
    exact file.put ((staged.grown rooted).rooted rooted) file []
  opened := staged.opened
  apart := usable.apart
  csvTakes := usable.csv
  traceTakes := usable.trace

theorem begun_same {place : Location} (apart : place ≠ stage.csv) (bytes : List UInt8) :
    stage.begun.root.at? place = some (.file bytes) ↔ tree.root.at? place = some (.file bytes) := by
  have grown := staged.grown rooted
  rw [staged.begun, FileTree.putBytes_same (grown.rooted rooted) (staged.made_file rooted) apart,
    grown.same (by simpa using apart)]

theorem bytesAt_trace (usable : stage.Usable) :
    stage.opened.bytesAt stage.trace = tree.bytesAt stage.trace := by
  have sound := staged.sound rooted usable
  rw [FileTree.openForWriting_bytes sound.rooted staged.opened]
  exact FileTree.bytesAt_congr (staged.begun_same rooted usable.apart.symm)

theorem tree_same (usable : stage.Usable) {place : Location}
    (other : place ≠ stage.csv) (also : place ≠ stage.trace) (bytes : List UInt8)
    (records : List Record) (inside : List UInt8) :
    (stage.tree bytes records).root.at? place = some (.file inside) ↔
      tree.root.at? place = some (.file inside) := by
  have sound := staged.sound rooted usable
  cases records with
  | nil =>
    rw [Stage.tree, FileTree.putBytes_same sound.rooted sound.file other]
    exact staged.begun_same rooted other inside
  | cons record records =>
    rw [Stage.tree, FileTree.putBytes_same (sound.csvRooted bytes) (sound.csvTrace bytes) also,
      FileTree.putBytes_same sound.openedRooted sound.csvFile other,
      sound.grown.same (by simpa using also)]
    exact staged.begun_same rooted other inside

end Plan.Staged

end FluentCensus
