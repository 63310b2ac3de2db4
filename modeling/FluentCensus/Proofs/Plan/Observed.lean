import FluentCensus.Proofs.Plan.Protocol
import FluentCensus.Proofs.Plan.Recording
import FluentCensus.Proofs.Plan.Silent

namespace FluentCensus

open FileTree (Outside)

namespace Plan

theorem surveysOf_observed (plan : Plan) (quiet : Bool) (tracePath : Option Path)
    (summary : Summary.Destination) (tree : FileTree) (projects : List Path) :
    { plan with quiet, tracePath, summary }.surveysOf tree projects =
      plan.surveysOf tree projects := by
  induction projects with
  | nil => rfl
  | cons project rest ih =>
    rw [surveysOf, surveysOf, ih]
    rfl

def LeavesCsv (plan : Plan) (tree : FileTree) (bytes : List UInt8) : Prop :=
  ∃ place, tree.Leads plan.outputPath place ∧ tree.bytesAt place = bytes

/-- If a run gets to its projects, its outputs are not in their way. -/
def Discreet (plan : Plan) (host : Host) : Prop :=
  ∀ projects, (plan.projects.run.run host).1 = .ok projects →
    ∃ outputs, plan.Unobtrusive host projects outputs

/-- Where the projects of a run cannot be listed it has not begun; else it comes to what its surveys
    do in the file system as it was. -/
theorem Discreet.run {plan : Plan} {host after : Host} {projects : Except Fault (List Path)}
    {result : Except Fault (List Survey)} (discreet : plan.Discreet host)
    (rooted : host.tree.Rooted) (listed : Host.Ends plan.projects host projects host)
    (ran : plan.run.run.run host = (result, after)) :
    match projects with
    | .error fault => result = .error fault ∧ after.tree = host.tree
    | .ok projects => result = verdictOf (plan.surveysOf host.tree projects) ∧
      plan.LeavesCsv after.tree
        (Utf8.encode (Csv.document (plan.surveysOf host.tree projects).1)) := by
  cases projects with
  | error fault =>
    have ends : Host.Ends plan.run host (.error fault) host := .bind_error listed
    obtain ⟨rfl, _, rfl⟩ := ends.ran ran
    exact ⟨rfl, rfl⟩
  | ok projects =>
    obtain ⟨outputs, unobtrusive⟩ := discreet projects listed.result
    obtain ⟨last, ends, leads, whole⟩ := run_finished rooted unobtrusive listed
    obtain ⟨rfl, _, rfl⟩ := ends.ran ran
    exact ⟨rfl, _, leads, whole⟩

/-- Progress lines, a trace and a summary change neither what a run comes to nor its CSV file; and
    there are no progress lines where none are asked for. -/
theorem observed_same :
    (∀ (plan : Plan) (quiet : Bool) (tracePath : Option Path) (summary : Summary.Destination)
        (host : Host),
      let other : Plan := { plan with quiet, tracePath, summary }
      host.tree.Rooted → plan.Discreet host → other.Discreet host →
      ∀ result result' after after', plan.run.run.run host = (result, after) →
        other.run.run.run host = (result', after') → result = result' ∧
        (after.tree = host.tree ∧ after'.tree = host.tree ∨
          ∃ bytes, plan.LeavesCsv after.tree bytes ∧ plan.LeavesCsv after'.tree bytes)) ∧
    (∀ plan : Plan, plan.quiet = true → Host.Silent plan.run) ∧
    ∀ (project : Path) (options : Project.Options), options.quiet = true →
      Host.Silent (Project.survey project options) := by
  refine ⟨?_, fun plan quiet => .run quiet, fun project options quiet => .survey project quiet⟩
  intro plan quiet tracePath summary host other rooted first second result result' after after' ran
    also
  obtain ⟨projects, listed, _⟩ := Host.Ends.projects_cases plan host
  have one := first.run rooted listed ran
  have two := second.run rooted listed also
  cases projects with
  | error fault => exact ⟨one.1.trans two.1.symm, .inl ⟨one.2, two.2⟩⟩
  | ok projects =>
    have same : other.surveysOf host.tree projects = plan.surveysOf host.tree projects :=
      surveysOf_observed plan quiet tracePath summary host.tree projects
    dsimp only at one two
    rw [same] at two
    exact ⟨one.1.trans two.1.symm, .inr ⟨_, one.2, two.2⟩⟩

def corpusOutputs : Outputs where
  csv := ["o"]
  trace := some ["t"]
  summary := some ["s"]
  tree := ((corpus.putBytes ["o"] []).putBytes ["t"] []).putBytes ["s"] []

def corpusBare : Outputs where
  csv := ["o"]
  trace := none
  summary := none
  tree := corpus.putBytes ["o"] []

theorem corpus_outside {outputs : Outputs}
    (either : outputs = corpusOutputs ∨ outputs = corpusBare) :
    ∀ project ∈ [⟨.relative, ["c", "a"]⟩, ⟨.relative, ["c", "b"]⟩, ⟨.relative, ["c", "d"]⟩],
      Outside [] outputs.places corpus outputs.tree project := by
  have first : corpus.find ⟨.relative, ["c", "a"]⟩ = .ok (["c", "a"],
    .directory [("A.java", .file (Utf8.encode "f().g();".toList))]) := by cbv
  have second : corpus.find ⟨.relative, ["c", "b"]⟩ = .ok (["c", "b"],
    .directory [("B.java", .link "gone")]) := by cbv
  have third : corpus.find ⟨.relative, ["c", "d"]⟩ = .ok (["c", "d"], .directory []) := by cbv
  have source : corpus.find (Path.child ⟨.relative, ["c", "a"]⟩ "A.java") =
    .ok (["c", "a", "A.java"], .file (Utf8.encode "f().g();".toList)) := by cbv
  have lost : corpus.find (Path.child ⟨.relative, ["c", "b"]⟩ "B.java") =
    .error corpusFault := by cbv
  simp only [List.forall_mem_cons]
  refine ⟨.leaf first (by decide) ?_ ?_ ?_ ?_, .leaf second (by decide) ?_ ?_ ?_ ?_,
    .leaf third (List.forall_mem_nil _) ?_ ?_ ?_ (List.forall_mem_nil _), List.forall_mem_nil _⟩
  · rcases either with rfl | rfl <;> cbv
  · rcases either with rfl | rfl <;> cbv
  · rcases either with rfl | rfl <;> decide
  · simp only [List.forall_mem_cons]
    refine ⟨fun _ => ⟨?_, ?_, ?_⟩, List.forall_mem_nil _⟩
    · rcases either with rfl | rfl <;> cbv
    · rcases either with rfl | rfl <;> cbv
    · intro spot node found
      rw [source] at found
      cases found
      rcases either with rfl | rfl <;> decide
  · rcases either with rfl | rfl <;> cbv
  · rcases either with rfl | rfl <;> cbv
  · rcases either with rfl | rfl <;> decide
  · simp only [List.forall_mem_cons]
    refine ⟨fun _ => ⟨?_, ?_, ?_⟩, List.forall_mem_nil _⟩
    · rcases either with rfl | rfl <;> cbv
    · rcases either with rfl | rfl <;> cbv
    · intro spot node found
      rw [lost] at found
      cases found
  · rcases either with rfl | rfl <;> cbv
  · rcases either with rfl | rfl <;> cbv
  · rcases either with rfl | rfl <;> decide

def barePlan : Plan := { corpusPlan with quiet := true, tracePath := none, summary := .nowhere }

theorem corpus_discreet :
    corpusPlan.Discreet { tree := corpus } ∧ barePlan.Discreet { tree := corpus } := by
  have listed : (corpusPlan.projects.run.run { tree := corpus }).1 =
    .ok [⟨.relative, ["c", "a"]⟩, ⟨.relative, ["c", "b"]⟩, ⟨.relative, ["c", "d"]⟩] := by cbv
  constructor
  · intro projects ok
    rw [listed] at ok
    cases ok
    refine ⟨corpusOutputs, ⟨by cbv, by decide, fun _ _ _ _ => rfl⟩, .all rfl ?_,
      corpus_outside (.inl rfl)⟩
    rintro tracer ⟨⟩
    exact corpusPlan.extra_proper
  · intro projects ok
    change (corpusPlan.projects.run.run { tree := corpus }).1 = .ok projects at ok
    rw [listed] at ok
    cases ok
    exact ⟨corpusBare, ⟨by cbv, by decide, fun _ _ _ _ => rfl⟩, .all rfl (by rintro _ ⟨⟩),
      corpus_outside (.inr rfl)⟩

theorem observed_same_corpus :
    ∃ result after after', corpusPlan.run.run.run { tree := corpus } = (result, after) ∧
      barePlan.run.run.run { tree := corpus } = (result, after') ∧ after'.errors = "" ∧
      (after.tree = corpus ∧ after'.tree = corpus ∨
        ∃ bytes, corpusPlan.LeavesCsv after.tree bytes ∧
          corpusPlan.LeavesCsv after'.tree bytes) := by
  have rooted : ({ tree := corpus } : Host).tree.Rooted := ⟨_, rfl⟩
  obtain ⟨first, second⟩ := corpus_discreet
  obtain ⟨compared, silent, _⟩ := observed_same
  have quiet : (barePlan.run.run.run { tree := corpus }).2.errors = "" := silent barePlan rfl _
  cases ran : corpusPlan.run.run.run { tree := corpus } with
  | mk result after =>
    cases also : barePlan.run.run.run { tree := corpus } with
    | mk other after' =>
      obtain ⟨rfl, csv⟩ := compared corpusPlan true none .nowhere { tree := corpus } rooted first
        second _ _ _ _ ran also
      rw [also] at quiet
      exact ⟨_, _, _, rfl, rfl, quiet, csv⟩

def tracedPlan : Plan where
  projectDir := ⟨.relative, ["c"]⟩
  outputPath := ⟨.relative, ["o"]⟩
  tracePath := some ⟨.relative, ["n", "t"]⟩
  quiet := true

def untracedPlan : Plan := { tracedPlan with tracePath := none }

def Elsewhere (plan : Plan) (host : Host) : Prop :=
  ∃ place node projects outputs, host.tree.find plan.projectDir = .ok (place, node) ∧
    host.tree.subdirectories plan.projectDir = .ok projects ∧
    plan.Usable { host with tracers := [] } projects outputs ∧
    ∀ spot ∈ outputs.places, ¬ place <+: spot

/-- A source of the project is a link to where only the trace makes a directory. -/
def strayHost : Host where
  tree := { root := .directory [
    ("c", .directory [("p", .directory [("L.java", .link "../../n")])])] }

def strayStage : Stage where
  plan := tracedPlan
  path := ⟨.relative, ["n", "t"]⟩
  runId := ""
  clock := fun _ => 0
  readings := 0
  csv := ["o"]
  trace := ["n", "t"]
  begun := { root := (strayHost.tree.root.put (.directory []) ["n"]).put (.file []) ["o"] }
  opened := { root := .directory [
    ("c", .directory [("p", .directory [("L.java", .link "../../n")])]),
    ("n", .directory [("t", .file [])]), ("o", .file [])] }

def strayFault : Fault := .refused .missing ⟨.relative, ["c", "p", "L.java"]⟩

theorem stray_traced : (tracedPlan.run.run.run strayHost).1 =
    .ok [{ name := "p", path := ⟨.relative, ["c", "p"]⟩, files := 0 }] := by
  have rooted : strayHost.tree.Rooted := ⟨_, rfl⟩
  have staged : tracedPlan.stage ⟨.relative, ["n", "t"]⟩ strayHost = .ok strayStage := by cbv
  have plain := Machine.encodable_all (m := strayStage.begun.machine) rfl
  have found : (strayStage.after []).find ⟨.relative, ["c", "p"]⟩ =
      .ok (["c", "p"], .directory [("L.java", .link "../../n")]) := by cbv
  have finding : (strayStage.after []).finding [] ⟨.relative, ["c", "p"]⟩ =
      .ok ⟨⟨.relative, ["c", "p"]⟩, [], []⟩ := by
    have leads : (strayStage.after []).leadsToDirectory (FileTree.spelling ⟨.relative, ["c", "p"]⟩
        (Path.child ⟨.relative, ["c", "p"]⟩ "L.java")) (.link "../../n") = true := by cbv
    rw [FileTree.finding_single found rfl (by decide) (by cbv), leads]
    rfl
  have survey : Finding.survey ⟨⟨.relative, ["c", "p"]⟩, [], []⟩ =
    { name := "p", path := ⟨.relative, ["c", "p"]⟩, files := 0 } := by cbv
  have measured : strayStage.measure [] [⟨.relative, ["c", "p"]⟩] =
      ([⟨⟨.relative, ["c", "p"]⟩, [], []⟩], none) := by
    have ignored : strayStage.plan.ignored = [] := rfl
    rw [Stage.measure, ignored, finding]
    dsimp only
    rw [survey]
    rfl
  have listed : strayHost.tree.subdirectories tracedPlan.projectDir =
    .ok [⟨.relative, ["c", "p"]⟩] := by cbv
  obtain ⟨after, ends, _⟩ := run_complete rooted rfl rfl listed staged
    ⟨by decide, fun _ _ => rfl, fun _ _ => rfl, trivial⟩
    ⟨⟨plain _, plain _, plain _⟩, fun _ _ => plain _⟩ measured
  rw [List.map_singleton, survey] at ends
  exact ends.result

theorem stray_untraced : (untracedPlan.run.run.run strayHost).1 =
    .error (.stop s!"❌ Failed to process project p: {strayFault.message}") := by
  have rooted : strayHost.tree.Rooted := ⟨_, rfl⟩
  let outputs : Outputs := ⟨["o"], none, none, strayHost.tree.putBytes ["o"] []⟩
  have found : strayHost.tree.find ⟨.relative, ["c", "p"]⟩ =
      .ok (["c", "p"], .directory [("L.java", .link "../../n")]) := by cbv
  have lost : strayHost.tree.find (Path.child ⟨.relative, ["c", "p"]⟩ "L.java") =
    .error strayFault := by cbv
  have unread : strayHost.tree.source (Path.child ⟨.relative, ["c", "p"]⟩ "L.java") =
    .error strayFault := by cbv
  have failed : strayHost.tree.finding [] ⟨.relative, ["c", "p"]⟩ = .error strayFault := by
    rw [FileTree.finding_single found rfl (by decide) (by cbv), if_pos ⟨by decide, by cbv⟩, unread,
      Except.map]
  have outside : Outside [] outputs.places strayHost.tree outputs.tree ⟨.relative, ["c", "p"]⟩ := by
    refine .leaf found (by decide) (by cbv) (by cbv) (by decide) ?_
    rw [List.forall_mem_singleton, lost]
    refine fun _ => ⟨by cbv, by cbv, fun _ _ found => ?_⟩
    cases found
  have surveys : untracedPlan.surveysOf strayHost.tree [⟨.relative, ["c", "p"]⟩] =
      ([], some (.stop s!"❌ Failed to process project p: {strayFault.message}")) := by
    have ignored : untracedPlan.ignored = [] := rfl
    rw [surveysOf, surveyOf, ignored, failed]
    rfl
  have unobtrusive : untracedPlan.Unobtrusive strayHost [⟨.relative, ["c", "p"]⟩] outputs :=
    ⟨⟨by cbv, by decide, fun _ _ _ _ => rfl⟩, .all rfl (by rintro _ ⟨⟩),
      List.forall_mem_singleton.mpr outside⟩
  have listed : Host.Ends untracedPlan.projects strayHost (.ok [⟨.relative, ["c", "p"]⟩])
    strayHost := projects_several rfl (by cbv)
  obtain ⟨after, ends, _⟩ := run_finished rooted unobtrusive listed
  rw [surveys] at ends
  exact ends.result

def besetHost : Host where
  tree := { root := .directory [("c", .directory [("p", .directory [])]), ("d", .directory [])] }
  tracers := [{ serial := 0, runId := "", path := ⟨.relative, ["d"]⟩ }]
  made := 1

def besetFault : Fault := .refused .isDirectory ⟨.relative, ["d"]⟩

theorem beset_untraced : (untracedPlan.run.run.run besetHost).1 =
    .error (.stop s!"❌ Failed to process project p: {besetFault.message}") := by
  let made : FileTree := besetHost.tree.putBytes ["o"] []
  let begun : Host := { besetHost with tree := made.putBytes ["o"] [] }
  let options : Project.Options := { name := "p", quiet := true }
  have listed : Host.Ends untracedPlan.projects besetHost (.ok [⟨.relative, ["c", "p"]⟩])
    besetHost := projects_several rfl (by cbv)
  have created : besetHost.tree.openForWriting ⟨.relative, ["o"]⟩ = .ok (["o"], made) := by cbv
  have started : Host.Ends (Csv.Writer.start { path := ⟨.relative, ["o"]⟩ }) besetHost _ begun :=
    .startWriter (by cbv) created
  have refused (text : List Char) :
      begun.tree.appending ⟨.relative, ["d"]⟩ text = (.error besetFault, begun.tree) := by
    have closed : begun.tree.openForWriting ⟨.relative, ["d"]⟩ = .error besetFault := by cbv
    rw [FileTree.appending, closed]
  let middle : Host := { begun with readings := 2 }
  have survey : Host.Ends (Project.survey ⟨.relative, ["c", "p"]⟩ options) begun
      (.error besetFault) middle := by
    have tracing : begun.tracer? = some { serial := 0, runId := "", path := ⟨.relative, ["d"]⟩ } :=
      rfl
    have ends := Host.Ends.survey_traced tracing ⟨.relative, ["c", "p"]⟩ options
    dsimp only at ends
    rw [refused] at ends
    exact ends
  let handle : Host.Handle := { place := ["o"], pending := Utf8.encode (Csv.endLine Csv.header) }
  have empty : middle.tree.bytesAt ["o"] = [] := by cbv
  have close : Host.Ends (Csv.Writer.close { path := ⟨.relative, ["o"]⟩, handle := some handle })
      middle _ _ :=
    .bind (.flush handle (fun _ _ => rfl) rfl empty (by cbv) rfl) (.pure _ _)
  have surveyed : Host.Ends (untracedPlan.surveyInto [⟨.relative, ["c", "p"]⟩]) besetHost
      (.error (besetFault.stopping "Failed to process project p")) _ :=
    .bind (.orStop _ started) (.get (fun _ => rfl) (.bind (.progress _ _ begun)
      (.bind_error (.closing_error (.orStop_error _ survey) close))))
  have ends : Host.Ends untracedPlan.run besetHost _ _ :=
    .bind listed (.bind (.progress _ _ besetHost) (.bind (.progress _ _ besetHost)
      (.bind_error (.bind_error surveyed))))
  exact ends.result

def garbledHost : Host where
  tree := {
    root := .directory [("c", .directory [("pÿ", .directory [])])]
    machine := { byte? := fun c => if c = 'ÿ' then some 0xff else none } }

theorem Elsewhere.both {host : Host} {node : Node} {project : Path} {first second : FileTree}
    (found : host.tree.find ⟨.relative, ["c"]⟩ = .ok (["c"], node))
    (listed : host.tree.subdirectories ⟨.relative, ["c"]⟩ = .ok [project])
    (traced : tracedPlan.outputs { host with tracers := [] } [project] =
      .ok ⟨["o"], some ["n", "t"], none, first⟩)
    (untraced : untracedPlan.outputs { host with tracers := [] } [project] =
      .ok ⟨["o"], none, none, second⟩)
    (takes : ∀ place, host.tree.machine.Takes place) :
    tracedPlan.Elsewhere host ∧ untracedPlan.Elsewhere host := by
  have distinct : [["o"], ["n", "t"]].Nodup := by decide
  have apart : ∀ spot ∈ [["o"], ["n", "t"]], ¬ ["c"] <+: spot := by decide
  exact ⟨⟨_, _, _, _, found, listed, ⟨traced, distinct, fun place _ => takes place⟩, apart⟩,
    ⟨_, _, _, _, found, listed, ⟨untraced, List.nodup_singleton _, fun place _ => takes place⟩,
      fun spot member => apart spot (List.mem_cons.mpr (.inl (List.mem_singleton.mp member)))⟩⟩

set_option maxRecDepth 5000 in
/-- A trace outside the projects decides how a run ends where a link in a project leads to its
    directory, where it takes the place of a tracer that cannot be given records, and where a name
    has to be written to it that is no text. -/
theorem observed_differs :
    (∀ host ∈ [strayHost, besetHost, garbledHost],
      tracedPlan.Elsewhere host ∧ untracedPlan.Elsewhere host) ∧
    ((tracedPlan.run.run.run strayHost).1 =
        .ok [{ name := "p", path := ⟨.relative, ["c", "p"]⟩, files := 0 }] ∧
      (untracedPlan.run.run.run strayHost).1 =
        .error (.stop s!"❌ Failed to process project p: {strayFault.message}")) ∧
    ((tracedPlan.run.run.run besetHost).1 =
        .ok [{ name := "p", path := ⟨.relative, ["c", "p"]⟩, files := 0 }] ∧
      (untracedPlan.run.run.run besetHost).1 =
        .error (.stop s!"❌ Failed to process project p: {besetFault.message}")) ∧
    (tracedPlan.run.run.run garbledHost).1 = .error (.unencodable 0xff 48 48) ∧
      (untracedPlan.run.run.run garbledHost).1 =
        .ok [{ name := "pÿ", path := ⟨.relative, ["c", "pÿ"]⟩, files := 0 }] := by
  refine ⟨?_, ⟨stray_traced, stray_untraced⟩, ⟨by cbv, beset_untraced⟩, by cbv, by cbv⟩
  simp only [List.forall_mem_cons]
  exact ⟨Elsewhere.both (by cbv) (by cbv) (by cbv) (by cbv) fun _ _ _ => rfl,
    Elsewhere.both (by cbv) (by cbv) (by cbv) (by cbv) fun _ _ _ => rfl,
    Elsewhere.both (by cbv) (by cbv) (by cbv) (by cbv) fun _ _ _ => rfl, List.forall_mem_nil _⟩

end Plan

end FluentCensus
