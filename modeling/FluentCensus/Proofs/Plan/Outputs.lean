import FluentCensus.Proofs.Plan.Steady

namespace FluentCensus

namespace FileTree

def traceDirectory (tree : FileTree) : Option Path → Except Fault FileTree
  | some path => tree.withDirectories path.parent
  | none => .ok tree

def traceFile (tree : FileTree) : Option Path → Except Fault (Option Location × FileTree)
  | some path => do
    let (place, tree) ← tree.openForWriting path
    return (some place, tree)
  | none => .ok (none, tree)

def summaryFile (tree : FileTree) :
    Summary.Destination → Except Fault (Option Location × FileTree)
  | .nowhere => .ok (none, tree)
  | .unnamed => .error .noPath
  | .file path => do
    let (place, tree) ← tree.withFile path
    return (some place, tree)

end FileTree

/-- The tracer that a run gives records to, which for its projects is also one in force before. -/
def Plan.recorder (plan : Plan) (host : Host) (projects : List Path) : Option Tracer :=
  match plan.tracePath with
  | some path => some (plan.tracer host path)
  | none => if projects.isEmpty then none else host.tracer?

structure Outputs where
  csv : Location
  trace : Option Location
  summary : Option Location
  /-- The file system once all of them are made. -/
  tree : FileTree

def Outputs.places (outputs : Outputs) : List Location :=
  outputs.csv :: (outputs.trace.toList ++ outputs.summary.toList)

theorem Outputs.apart {outputs : Outputs} (distinct : outputs.places.Nodup) {place : Location}
    (other : some place = outputs.trace ∨ some place = outputs.summary) :
    place ∈ outputs.places ∧ outputs.csv ≠ place := by
  have among : place ∈ outputs.trace.toList ++ outputs.summary.toList := by
    rcases other with same | same
    · exact List.mem_append_left _ (same ▸ List.mem_singleton_self place)
    · exact List.mem_append_right _ (same ▸ List.mem_singleton_self place)
  refine ⟨List.mem_cons_of_mem _ among, fun same => ?_⟩
  exact (List.nodup_cons.mp distinct).1 (same ▸ among)

/-- Make the outputs of a run in the order in which the run makes them. -/
def Plan.outputs (plan : Plan) (host : Host) (projects : List Path) : Except Fault Outputs := do
  let tree ← host.tree.traceDirectory plan.tracePath
  let (csv, tree) ← tree.withFile plan.outputPath
  let (trace, tree) ←
    (tree.putBytes csv []).traceFile ((plan.recorder host projects).map Tracer.path)
  let (summary, tree) ← tree.summaryFile plan.summary
  return { csv, trace, summary, tree }

structure Plan.Making (plan : Plan) (host : Host) (projects : List Path) (outputs : Outputs)
    (above housed made opened : FileTree) : Prop where
  traced : host.tree.traceDirectory plan.tracePath = .ok above
  directory : above.withDirectories plan.outputPath.parent = .ok housed
  created : housed.openForWriting plan.outputPath = .ok (outputs.csv, made)
  trace : (made.putBytes outputs.csv []).traceFile ((plan.recorder host projects).map Tracer.path) =
    .ok (outputs.trace, opened)
  summary : opened.summaryFile plan.summary = .ok (outputs.summary, outputs.tree)

theorem Plan.outputs_ok {plan : Plan} {host : Host} {projects : List Path} {outputs : Outputs}
    (ok : plan.outputs host projects = .ok outputs) :
    ∃ above housed made opened, plan.Making host projects outputs above housed made opened := by
  obtain ⟨above, traced, ok⟩ := bind_ok ok
  obtain ⟨⟨csv, made⟩, csv_made, ok⟩ := bind_ok ok
  obtain ⟨housed, directory, created⟩ := bind_ok csv_made
  obtain ⟨⟨trace, opened⟩, trace_opened, ok⟩ := bind_ok ok
  obtain ⟨⟨summary, last⟩, summary_made, ok⟩ := bind_ok ok
  cases ok
  exact ⟨above, housed, made, opened, traced, directory, created, trace_opened, summary_made⟩

namespace FileTree

variable {tree after : FileTree} {path : Path} {place : Location} {written : List Location}

theorem Built.traceDirectory (rooted : tree.Rooted) {trace : Option Path}
    (made : tree.traceDirectory trace = .ok after) : Built written tree after := by
  cases trace with
  | none =>
    cases made
    exact .refl rooted
  | some path => exact .withDirectories rooted made

theorem Built.summaryFile (rooted : tree.Rooted) {summary : Summary.Destination}
    {spot : Option Location} (made : tree.summaryFile summary = .ok (spot, after)) :
    Built written tree after := by
  cases summary with
  | nowhere =>
    cases made
    exact .refl rooted
  | unnamed => cases made
  | file path =>
    obtain ⟨⟨place, opened⟩, ran, same⟩ := bind_ok made
    cases same
    exact (Built.withFile rooted ran).1

theorem traceFile_some {spot : Option Location}
    (made : tree.traceFile (some path) = .ok (spot, after)) :
    ∃ place, spot = some place ∧ tree.openForWriting path = .ok (place, after) := by
  obtain ⟨⟨place, opened⟩, ran, same⟩ := bind_ok made
  cases same
  exact ⟨place, rfl, ran⟩

end FileTree

namespace Plan

structure Legible (plan : Plan) (host : Host) (projects : List Path) : Prop where
  recorded : ∀ tracer, plan.recorder host projects = some tracer →
    host.tree.machine.encodable tracer.runId.toList = true ∧
      host.tree.machine.Writes (.object tracer.extra) ∧ ∀ project ∈ projects,
        host.tree.machine.encodable (plan.nameFor host.tree project).toList = true
  summarised : plan.summary ≠ .nowhere → ∀ project ∈ projects,
    host.tree.machine.encodable (plan.nameFor host.tree project).toList = true ∧
      host.tree.machine.encodable project.toString.toList = true

theorem Legible.all {plan : Plan} {host : Host} {projects : List Path}
    (nothing : host.tree.machine.byte? = fun _ => none)
    (proper : ∀ tracer, plan.recorder host projects = some tracer →
      Json.Proper (.object tracer.extra)) : plan.Legible host projects where
  recorded tracer recorded := ⟨Machine.encodable_all nothing _,
    .all nothing (proper tracer recorded), fun _ _ => Machine.encodable_all nothing _⟩
  summarised _ _ _ := ⟨Machine.encodable_all nothing _, Machine.encodable_all nothing _⟩

/-- The outputs of a run can be made and take every write, and each is a file of its own. -/
structure Usable (plan : Plan) (host : Host) (projects : List Path) (outputs : Outputs) :
    Prop where
  made : plan.outputs host projects = .ok outputs
  distinct : outputs.places.Nodup
  takes : ∀ place ∈ outputs.places, host.tree.machine.Takes place

/-- No survey of the projects reads the outputs of a run, and they can be written as they are. -/
structure Unobtrusive (plan : Plan) (host : Host) (projects : List Path) (outputs : Outputs) :
    Prop extends plan.Usable host projects outputs where
  legible : plan.Legible host projects
  outside : ∀ project ∈ projects,
    FileTree.Outside plan.ignored outputs.places host.tree outputs.tree project

theorem surveysOf_through {plan : Plan} {tree : FileTree} {projects : List Path}
    {surveys : List Survey} (through : plan.surveysOf tree projects = (surveys, none)) :
    ∀ s ∈ surveys, (∃ project ∈ projects, s.name = plan.nameFor tree project ∧ s.path = project) ∧
      ∃ figures, s.stats tree.machine.memory = .ok figures := by
  fun_induction surveysOf plan tree projects generalizing surveys with
  | case1 =>
    cases through
    exact List.forall_mem_nil _
  | case2 project rest fault attempt | case3 project rest s attempt fault garbled
  | case4 project rest s attempt plain e stats => cases through
  | case5 project rest s attempt plain figures stats ih =>
    obtain ⟨rfl, ended⟩ := Prod.mk.inj through
    have known : s.name = plan.nameFor tree project ∧ s.path = project := by
      unfold surveyOf at attempt
      cases found : tree.finding plan.ignored project with
      | error fault =>
        rw [found] at attempt
        cases attempt
      | ok finding =>
        rw [found] at attempt
        cases attempt
        exact ⟨rfl, (FileTree.finding_ok found).1⟩
    refine List.forall_mem_cons.mpr ⟨⟨⟨project, List.mem_cons_self, known⟩, figures, stats⟩, ?_⟩
    intro s member
    obtain ⟨⟨project, among, same⟩, told⟩ := ih (Prod.ext rfl ended) s member
    exact ⟨⟨project, List.mem_cons_of_mem _ among, same⟩, told⟩

end Plan

end FluentCensus
