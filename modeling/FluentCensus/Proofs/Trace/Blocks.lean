import FluentCensus.Proofs.Histogram.Count
import FluentCensus.Proofs.Plan.Outside
import FluentCensus.Proofs.Plan.Survey
import FluentCensus.Proofs.Trace.Session
import FluentCensus.Proofs.Trace.Shown

namespace FluentCensus

namespace FileTree

variable {tree after : FileTree} {path : Path} {place : Location}

theorem Opens.opened (rooted : tree.Rooted)
    (opened : tree.openForWriting path = .ok (place, after)) {other : Path} {spot : Location}
    (opens : tree.Opens other spot) : after.Opens other spot := by
  obtain ⟨made, opens⟩ := opens
  rcases openForWriting_ok opened with ⟨_, _, rfl⟩ | ⟨directory, name, led, rfl, rfl⟩
  · exact ⟨made, opens⟩
  obtain ⟨room, free⟩ := locate_free rooted led
  have grown := openForWriting_grown rooted opened
  have extended : Extended tree.root (tree.putBytes (directory ++ [name]) []).root
      (directory ++ [name]) :=
    room.extended (Node.file_leaf []) (fun _ => nofun) (.inl free)
  rcases openForWriting_ok opens with ⟨there, file, _⟩ | ⟨above, last, empty, rfl, _⟩
  · rcases locate_extended rooted extended ⟨rfl, rfl⟩ .written other with
      same | ⟨_, missing | found⟩
    · exact ⟨_, Leads.opens ⟨same.trans there, grown.fileAt file⟩⟩
    · rw [there] at missing
      cases missing
    · obtain ⟨_, _, _, empty, _⟩ := found
      rw [there] at empty
      cases empty
  · rcases locate_extended rooted extended ⟨rfl, rfl⟩ .written other with
      same | ⟨_, missing | found⟩
    · refine ⟨(tree.putBytes (directory ++ [name]) []).putBytes (above ++ [last]) [], ?_⟩
      rw [FileTree.openForWriting, same, empty]
      rfl
    · rw [empty] at missing
      cases missing
    · -- The file that was made is the one that the other path would have made.
      obtain ⟨_, _, split, also, there⟩ := found
      rw [empty] at also
      cases also
      rw [← split]
      exact ⟨_, Leads.opens ⟨there, openForWriting_file rooted opened⟩⟩

theorem Opens.putBytes (rooted : tree.Rooted) (file : tree.FileAt place) (bytes : List UInt8)
    {other : Path} {spot : Location} (opens : tree.Opens other spot) :
    (tree.putBytes place bytes).Opens other spot := by
  obtain ⟨made, opens⟩ := opens
  exact ⟨_, openForWriting_putBytes rooted opens file bytes⟩

end FileTree

/-- What a tracer gets of a project, told from what its survey comes to. -/
def Tracer.surveyRecord (tracer : Tracer) (name : String) (latency : Int)
    (result : Except Fault Survey) : Record where
  runId := tracer.runId
  stage := "project"
  project := some name
  measures := match result with
    | .ok s => { files := some s.files, chains := some s.chains, histogram := some s.histogram }
    | .error _ => {}
  latency := some latency
  error := match result with
    | .ok _ => none
    | .error fault => some fault.label

theorem Tracer.projectRecord_eq (tracer : Tracer) (name : String) (latency : Int)
    (found : Except Fault Finding) :
    tracer.projectRecord name latency found =
      { tracer.surveyRecord name latency (found.map (·.named name)) with
        extra := tracer.extra } := by
  cases found with
  | error fault => rfl
  | ok finding =>
    have chains : (finding.lengths.length : Int) = (finding.named name).chains :=
      (Histogram.ofLengths_total finding.lengths).symm
    rw [Tracer.projectRecord, chains]
    rfl

structure Tracer.Ready (tracer : Tracer) (tree : FileTree) (place : Location) : Prop
    extends tracer.Writable tree place where
  proper : Json.Proper (.object tracer.extra)

structure FileTree.Kept (places : List Location) (tree after : FileTree) : Prop where
  opens : ∀ {path place}, tree.Opens path place → after.Opens path place
  built : FileTree.Built places tree after

theorem Tracer.Ready.kept {tracer : Tracer} {tree after : FileTree} {place : Location}
    {places : List Location} (ready : tracer.Ready tree place) (kept : tree.Kept places after) :
    tracer.Ready after place := by
  obtain ⟨⟨opens, takes, runId, extra⟩, proper⟩ := ready
  exact ⟨⟨kept.opens opens, kept.built.machine ▸ takes, kept.built.machine ▸ runId,
    kept.built.machine ▸ extra⟩, proper⟩

/-- Under a tracer a survey comes to what it would come to without one, and one record of that is
    added to the tracer's file, unless the name of the project cannot be written to it. -/
theorem Host.Ends.survey_recorded {host : Host} {tracer : Tracer} {place : Location}
    (rooted : host.tree.Rooted) (tracing : host.tracer? = some tracer)
    (ready : tracer.Ready host.tree place) (project : Path) (options : Project.Options) :
    let name := options.nameFor project
    let answer := (host.tree.finding options.ignored project).map (·.named name)
    ∃ tree readings result,
      Ends (Project.survey project options) host result { host with tree, readings } ∧
      (∀ places, place ∈ places → host.tree.Kept places tree) ∧
      (host.tree.machine.encodable name.toList = true → result = answer ∧ ∃ latency bytes,
        FileTree.Grew host.tree tree place bytes ∧
        (tracer.surveyRecord name latency answer).Logged (fun key => tracer.extra.lookup key)
          bytes) ∧
      (¬ host.tree.machine.encodable name.toList = true →
        (∃ fault, result = .error fault ∧ fault.label = "UnicodeEncodeError") ∧
        ∀ spot, tree.bytesAt spot = host.tree.bytesAt spot) := by
  intro name answer
  obtain ⟨made, opened⟩ := ready.opens
  let found := host.tree.finding options.ignored project
  let latency : Int := host.clock (host.readings + 1) - host.clock host.readings
  have file := FileTree.openForWriting_file rooted opened
  have grown := FileTree.openForWriting_grown rooted opened
  have opening (places : List Location) : host.tree.Kept places made :=
    ⟨fun opens => opens.opened rooted opened, .openForWriting rooted opened⟩
  by_cases plain : host.tree.machine.encodable name.toList = true
  · obtain ⟨line, ends⟩ :=
      survey_written rooted tracing ready.toWritable opened project options plain
    have done := FileTree.appending_takes rooted opened ready.takes line
    obtain ⟨_, also, grew⟩ := FileTree.appending_taken rooted ready.opens ready.takes line
    obtain rfl := congrArg Prod.snd (done.symm.trans also)
    have logged : (tracer.surveyRecord name latency answer).Logged
        (fun key => tracer.extra.lookup key)
        (Utf8.encode (tracer.projectRecord name latency found).line) := by
      have proper := tracer.projectRecord_proper ready.proper name latency found
      rw [Tracer.projectRecord_eq] at proper ⊢
      exact Record.logged _ (fun _ => rfl) proper
    refine ⟨_, _, _, ends, fun places member => ⟨fun opens => ?_, ?_⟩,
      fun _ => ⟨rfl, latency, _, grew, logged⟩, fun garbled => absurd plain garbled⟩
    · exact ((opening places).opens opens).putBytes (grown.rooted rooted) file _
    · exact (opening places).built.trans (.putBytes (grown.rooted rooted) file member _)
  · have unwritten : ¬ host.tree.machine.encodable
        (tracer.projectRecord name latency found).line = true :=
      fun written => plain (Record.plain_project written rfl)
    obtain ⟨fault, garbled⟩ := Option.ne_none_iff_exists'.mp
      (mt Machine.unencodable?_none.mp unwritten)
    have failed : host.tree.appending tracer.path (tracer.projectRecord name latency found).line =
        (.error fault, made) := by
      simp only [FileTree.appending, opened, grown.machine, garbled]
    have ends := survey_traced tracing project options
    dsimp only at ends
    rw [failed] at ends
    refine ⟨made, _, _, ends, fun places _ => opening places, fun written => absurd written plain,
      fun _ => ⟨⟨fault, rfl, Machine.unencodable?_label garbled⟩, fun spot => ?_⟩⟩
    by_cases same : spot = place
    · exact same ▸ FileTree.openForWriting_bytes rooted opened
    · exact FileTree.bytesAt_congr (grown.same (by simpa using same))

def Tracer.enter (tracer : Tracer) : HostM (List Tracer) := do
  let outer := (← get).tracers
  modify fun host => { host with tracers := tracer :: outer }
  return outer

def Tracer.leave {α : Type} (outer : List Tracer) (result : Except Fault α) : HostM α := do
  modify fun host => { host with tracers := outer }
  match result with
  | .ok a => return a
  | .error fault => throw fault

theorem Tracer.during_run {α : Type} (tracer : Tracer) (action : HostM α) (host : Host) :
    (tracer.during action).run.run host =
      match tracer.enter.run.run host with
      | (.error fault, middle) => (.error fault, middle)
      | (.ok outer, middle) =>
        let (result, last) := action.run.run middle
        (leave outer result).run.run last := by
  let begun : Host := { host with tracers := tracer :: host.tracers }
  let restore : HostM Unit := modify fun after => { after with tracers := host.tracers }
  have entered : tracer.enter.run.run host = (.ok host.tracers, begun) := rfl
  rw [entered]
  dsimp only
  change ((tryCatch action fun fault => do restore; throw fault) >>= fun a => do
    restore
    return a : HostM α).run.run begun = _
  rw [Host.Ends.run_bind, Host.Ends.run_tryCatch]
  rcases action.run.run begun with ⟨fault | a, last⟩ <;> rfl

/-- One thing that is done with blocks: to enter one, to leave the innermost one with what its body
    came to, or to survey a project. -/
inductive Move where
  | enter (tracer : Tracer)
  | leave (result : Except Fault Unit)
  | survey (project : Path) (options : Project.Options)

structure Nest where
  host : Host
  /-- What each open block puts back when it is left, the innermost first. -/
  saved : List (List Tracer) := []

namespace Nest

/-- What a move answers, and the program after it. Where no block is open, there is none to leave.
    Whatever a move raises, more moves may follow. -/
def step (nest : Nest) : Move → Except Fault (Option Survey) × Nest
  | .enter tracer =>
    match tracer.enter.run.run nest.host with
    | (.ok outer, host) => (.ok none, { host, saved := outer :: nest.saved })
    | (.error fault, host) => (.error fault, { nest with host })
  | .leave result =>
    match nest.saved with
    | [] => (.ok none, nest)
    | outer :: saved =>
      let (result, host) := (Tracer.leave outer result).run.run nest.host
      (result.map fun _ => none, { host, saved })
  | .survey project options =>
    let (result, host) := (Project.survey project options).run.run nest.host
    (result.map some, { nest with host })

def run (nest : Nest) (moves : List Move) : Nest :=
  moves.foldl (fun nest move => (nest.step move).2) nest

end Nest

namespace Move

def follow : List Tracer → Move → List Tracer
  | inside, .enter tracer => tracer :: inside
  | inside, .leave _ => inside.tail
  | inside, .survey .. => inside

def openBlocks (moves : List Move) : List Tracer := moves.foldl follow []

def tracer? : Move → Option Tracer
  | .enter tracer => some tracer
  | _ => none

def entered (moves : List Move) : List Tracer := moves.filterMap tracer?

end Move

def Tracer.outers : List Tracer → List (List Tracer)
  | [] => []
  | _ :: outer => outer :: outers outer

namespace Nest

/-- The tracers in force are those of the open blocks, and every tracer can still write. -/
structure Kept (tree : FileTree) (tracers : List Tracer) (place : Tracer → Location) (nest : Nest)
    (inside : List Tracer) : Prop where
  rooted : nest.host.tree.Rooted
  force : nest.host.tracers = inside
  saved : nest.saved = Tracer.outers inside
  known : ∀ tracer ∈ inside, tracer ∈ tracers
  ready : ∀ tracer ∈ tracers, tracer.Ready nest.host.tree (place tracer)
  built : FileTree.Built (tracers.map place) tree nest.host.tree

variable {tree : FileTree} {tracers : List Tracer} {place : Tracer → Location} {nest : Nest}
  {inside : List Tracer}

/-- What a survey does whose call would be answered so without a tracer. Under a tracer it adds one
    record of the answer to the tracer's file, or else the name of the project is no text. -/
structure Surveyed (m : Machine) (nest after : Nest) (place : Tracer → Location) (name : String)
    (answer : Except Fault Survey) (result : Except Fault (Option Survey)) : Prop where
  tracers : after.host.tracers = nest.host.tracers
  saved : after.saved = nest.saved
  idle : nest.host.tracer? = none → result = answer.map some ∧ after.host.tree = nest.host.tree
  elsewhere : ∀ spot, (∀ tracer, nest.host.tracer? = some tracer → spot ≠ place tracer) →
    after.host.tree.bytesAt spot = nest.host.tree.bytesAt spot
  recorded : ∀ tracer, nest.host.tracer? = some tracer → m.encodable name.toList = true →
      result = answer.map some ∧ ∃ latency bytes,
        after.host.tree.bytesAt (place tracer) = nest.host.tree.bytesAt (place tracer) ++ bytes ∧
        (tracer.surveyRecord name latency answer).Logged (fun key => tracer.extra.lookup key) bytes
  garbled : ∀ tracer, nest.host.tracer? = some tracer → ¬ m.encodable name.toList = true →
      (∃ fault, result = .error fault ∧ fault.label = "UnicodeEncodeError") ∧
      after.host.tree.bytesAt (place tracer) = nest.host.tree.bytesAt (place tracer)

theorem survey_kept (kept : nest.Kept tree tracers place inside) (project : Path)
    (options : Project.Options) :
    let name := options.nameFor project
    let answer := (nest.host.tree.finding options.ignored project).map (·.named name)
    let (result, after) := nest.step (.survey project options)
    Surveyed tree.machine nest after place name answer result ∧
      after.Kept tree tracers place inside := by
  intro name answer
  obtain ⟨rooted, rfl, saved, known, ready, built⟩ := kept
  rw [Nest.step]
  cases tracing : nest.host.tracer? with
  | none =>
    obtain ⟨errors, ran⟩ := Host.Ends.survey_untraced tracing project options nest.host.errors
    rw [ran]
    have nobody {p : Tracer → Prop} (tracer : Tracer) (same : nest.host.tracer? = some tracer) :
        p tracer := by
      rw [tracing] at same
      cases same
    exact ⟨⟨rfl, rfl, fun _ => ⟨rfl, rfl⟩, fun _ _ => rfl, nobody, nobody⟩,
      ⟨rooted, rfl, saved, known, ready, built⟩⟩
  | some tracer =>
    have member : tracer ∈ tracers := known tracer (List.mem_of_mem_head? tracing)
    obtain ⟨last, readings, result, ends, still, recorded, garbled⟩ :=
      Host.Ends.survey_recorded rooted tracing (ready tracer member) project options
    obtain ⟨errors, ran⟩ := ends nest.host.errors
    have grown := still _ (List.mem_map_of_mem member)
    rw [built.machine] at recorded garbled
    rw [ran]
    refine ⟨⟨rfl, rfl, fun same => ?_, fun spot apart => ?_, fun other same plain => ?_,
      fun other same unwritten => ?_⟩, ⟨grown.built.rooted, rfl, saved, known,
        fun other among => (ready other among).kept grown, built.trans grown.built⟩⟩
    · rw [tracing] at same
      cases same
    · by_cases plain : tree.machine.encodable name.toList = true
      · obtain ⟨_, _, _, grew, _⟩ := recorded plain
        exact grew.same spot (apart tracer tracing)
      · exact (garbled plain).2 spot
    · rw [tracing] at same
      cases same
      obtain ⟨rfl, latency, bytes, grew, logged⟩ := recorded plain
      exact ⟨rfl, latency, bytes, grew.added, logged⟩
    · rw [tracing] at same
      cases same
      obtain ⟨⟨fault, rfl, label⟩, same⟩ := garbled unwritten
      exact ⟨⟨fault, rfl, label⟩, same _⟩

theorem enter_kept (kept : nest.Kept tree tracers place inside) {tracer : Tracer}
    (member : tracer ∈ tracers) :
    (nest.step (.enter tracer)).2.Kept tree tracers place (tracer :: inside) := by
  obtain ⟨rooted, rfl, saved, known, ready, built⟩ := kept
  refine ⟨rooted, rfl, ?_, List.forall_mem_cons.mpr ⟨member, known⟩, ready, built⟩
  change nest.host.tracers :: nest.saved = _
  rw [saved]
  rfl

theorem leave_kept (kept : nest.Kept tree tracers place inside) (result : Except Fault Unit) :
    (nest.step (.leave result)).2.Kept tree tracers place inside.tail := by
  obtain ⟨rooted, force, saved, known, ready, built⟩ := kept
  cases inside with
  | nil =>
    rw [Nest.step, saved]
    exact ⟨rooted, force, saved, known, ready, built⟩
  | cons tracer outer =>
    rw [Nest.step, saved]
    cases result with
    | ok _ => exact ⟨rooted, rfl, rfl, (List.forall_mem_cons.mp known).2, ready, built⟩
    | error fault => exact ⟨rooted, rfl, rfl, (List.forall_mem_cons.mp known).2, ready, built⟩

theorem step_kept (kept : nest.Kept tree tracers place inside) (move : Move)
    (member : ∀ tracer, move.tracer? = some tracer → tracer ∈ tracers) :
    (nest.step move).2.Kept tree tracers place (Move.follow inside move) := by
  cases move with
  | enter tracer => exact enter_kept kept (member tracer rfl)
  | leave result => exact leave_kept kept result
  | survey project options => exact (survey_kept kept project options).2

theorem run_kept (kept : nest.Kept tree tracers place inside) (moves : List Move)
    (members : ∀ tracer ∈ Move.entered moves, tracer ∈ tracers) :
    (nest.run moves).Kept tree tracers place (moves.foldl Move.follow inside) := by
  induction moves generalizing nest inside with
  | nil => exact kept
  | cons move moves ih =>
    refine ih (step_kept kept move fun tracer same => ?_) fun tracer among => ?_
    · exact members tracer (List.mem_filterMap.mpr ⟨move, List.mem_cons_self, same⟩)
    · obtain ⟨other, later, same⟩ := List.mem_filterMap.mp among
      exact members tracer (List.mem_filterMap.mpr ⟨other, List.mem_cons_of_mem move later, same⟩)

end Nest

/-- After any blocks have been entered and left, the tracer in force is that of the innermost one
    that is open. A survey adds one record of what it comes to, to the file of that tracer and to
    nothing else, and without a tracer it writes nothing. What it comes to is what the same call
    does without a tracer, on the file system as it is, and if the project lies outside of what the
    tracers write also as it was at first. Only a name that is no text cannot be recorded. -/
theorem blocks_recorded {host : Host} (rooted : host.tree.Rooted) (idle : host.tracers = [])
    (place : Tracer → Location) (moves : List Move)
    (ready : ∀ tracer ∈ Move.entered moves, tracer.Ready host.tree (place tracer))
    (apart : ∀ tracer ∈ Move.entered moves, ∀ other ∈ Move.entered moves,
      place tracer = place other → tracer = other)
    (project : Path) (options : Project.Options) :
    let nest := Nest.run { host } moves
    let (result, after) := nest.step (.survey project options)
    nest.host.tracer? = (Move.openBlocks moves).head? ∧
    after.host.tracer? = nest.host.tracer? ∧
    (∃ answer,
      answer = ((Project.survey project options).run.run { nest.host with tracers := [] }).1 ∧
      (FileTree.Outside options.ignored ((Move.entered moves).map place) host.tree nest.host.tree
          project →
        answer = ((Project.survey project options).run.run host).1) ∧
      Nest.Surveyed host.tree.machine nest after place (options.nameFor project) answer result) ∧
    (∀ tracer ∈ Move.entered moves, nest.host.tracer? ≠ some tracer →
      after.host.tree.bytesAt (place tracer) = nest.host.tree.bytesAt (place tracer)) ∧
    ∀ (α : Type) (tracer : Tracer) (action : HostM α) (begun : Host),
      (tracer.during action).run.run begun =
        match tracer.enter.run.run begun with
        | (.error fault, middle) => (.error fault, middle)
        | (.ok outer, middle) =>
          let (result, last) := action.run.run middle
          (Tracer.leave outer result).run.run last := by
  intro nest
  have start : Nest.Kept host.tree (Move.entered moves) place { host } [] :=
    ⟨rooted, idle, rfl, nofun, ready, .refl rooted⟩
  have kept : nest.Kept host.tree (Move.entered moves) place (Move.openBlocks moves) :=
    Nest.run_kept start moves fun _ => id
  obtain ⟨surveyed, _⟩ := Nest.survey_kept kept project options
  -- Without a tracer the answer is told by what is found, through which the file systems at first
  -- and now can be compared.
  have alone {other : Host} (none : other.tracers = []) :
      ((Project.survey project options).run.run other).1 =
        (other.tree.finding options.ignored project).map (·.named (options.nameFor project)) := by
    have idle : other.tracer? = .none := by rw [Host.tracer?, none]; rfl
    obtain ⟨errors, ran⟩ := Host.Ends.survey_untraced idle project options other.errors
    exact congrArg Prod.fst ran
  have bare : ({ nest.host with tracers := [] } : Host).tracers = [] := rfl
  refine ⟨congrArg List.head? kept.force, congrArg List.head? surveyed.tracers,
    ⟨_, (alone bare).symm, fun outside => ?_, surveyed⟩, ?_, fun _ => Tracer.during_run⟩
  · rw [alone idle, outside.finding kept.built (.refl kept.rooted)]
  · intro tracer member other
    refine surveyed.elsewhere _ fun current tracing same => other ?_
    have known : current ∈ Move.entered moves :=
      kept.known current (kept.force ▸ List.mem_of_mem_head? tracing)
    rw [tracing, apart tracer member current known same]

def outerTracer : Tracer := { serial := 0, runId := "r", path := ⟨.relative, ["t"]⟩ }

def innerTracer : Tracer := { serial := 1, runId := "s", path := ⟨.relative, ["u"]⟩ }

def nestedPlace (tracer : Tracer) : Location := tracer.path.parts

def nestedMoves : List Move := [
  .enter outerTracer, .enter innerTracer, .survey ⟨.relative, ["c"]⟩ {},
  .leave (.error .writerClosed), .enter outerTracer]

def nestedHost : Host := { tree := { root := .directory [("c", .directory [])] } }

theorem blocks_recorded_nested :
    let nest := Nest.run { host := nestedHost } nestedMoves
    let after := (nest.step (.survey ⟨.relative, ["d"]⟩ {})).2
    nestedHost.tree.Rooted ∧ nestedHost.tracers = [] ∧
    (∀ tracer ∈ Move.entered nestedMoves, tracer.Ready nestedHost.tree (nestedPlace tracer)) ∧
    (∀ tracer ∈ Move.entered nestedMoves, ∀ other ∈ Move.entered nestedMoves,
      nestedPlace tracer = nestedPlace other → tracer = other) ∧
    nest.host.tracer? = some outerTracer ∧
    after.host.tree.bytesAt ["u"] = nest.host.tree.bytesAt ["u"] ∧
    ∃ bytes line value,
      after.host.tree.bytesAt ["t"] = nest.host.tree.bytesAt ["t"] ++ bytes ∧
      Utf8.decode bytes = line ++ ['\n'] ∧ Json.read? line = some value ∧
      value.get? "run_id" = some (.string "r") ∧ value.get? "project" = some (.string "d") := by
  intro nest after
  have rooted : nestedHost.tree.Rooted := ⟨_, rfl⟩
  have entered : Move.entered nestedMoves = [outerTracer, innerTracer, outerTracer] := rfl
  have plain := Machine.encodable_all (m := nestedHost.tree.machine) rfl
  have proper : Json.Proper (.object []) := .object List.nodup_nil nofun
  have ready : ∀ tracer ∈ Move.entered nestedMoves,
      tracer.Ready nestedHost.tree (nestedPlace tracer) := by
    have outer : outerTracer.Ready nestedHost.tree (nestedPlace outerTracer) :=
      ⟨⟨⟨{ root := .directory [("c", .directory []), ("t", .file [])] }, by cbv⟩, fun _ _ => rfl,
        plain _, .all rfl proper⟩, proper⟩
    have inner : innerTracer.Ready nestedHost.tree (nestedPlace innerTracer) :=
      ⟨⟨⟨{ root := .directory [("c", .directory []), ("u", .file [])] }, by cbv⟩, fun _ _ => rfl,
        plain _, .all rfl proper⟩, proper⟩
    simpa [entered] using ⟨outer, inner, outer⟩
  have apart : ∀ tracer ∈ Move.entered nestedMoves, ∀ other ∈ Move.entered nestedMoves,
      nestedPlace tracer = nestedPlace other → tracer = other := by
    simp [entered, nestedPlace, outerTracer, innerTracer]
  obtain ⟨current, _, ⟨_, _, _, surveyed⟩, others, _⟩ := blocks_recorded rooted rfl nestedPlace
    nestedMoves ready apart ⟨.relative, ["d"]⟩ {}
  have current : nest.host.tracer? = some outerTracer := current
  obtain ⟨_, latency, bytes, added, line, value, text, _, read, shows⟩ :=
    surveyed.recorded outerTracer current (plain _)
  refine ⟨rooted, rfl, ready, apart, current, ?_, bytes, line, value, added, text, read,
    shows.runId, shows.project⟩
  refine others innerTracer (by simp [entered]) ?_
  rw [current]
  simp [outerTracer, innerTracer]

def linkedHost : Host where
  tree := { root := .directory [("p", .directory [("L.java", .link "../t")])] }

def linkedProject : Path := ⟨.relative, ["p"]⟩

def linkedFault : Fault := .refused .missing ⟨.relative, ["p", "L.java"]⟩

theorem linked_missing : linkedHost.tree.finding [] linkedProject = .error linkedFault := by
  have found : linkedHost.tree.find linkedProject =
    .ok (["p"], .directory [("L.java", .link "../t")]) := by cbv
  have lost : linkedHost.tree.source (linkedProject.child "L.java") = .error linkedFault := by cbv
  rw [FileTree.finding_single found rfl (by decide) (by cbv), if_pos ⟨by decide, by cbv⟩, lost,
    Except.map]

theorem linked_found (bytes : List UInt8) : ∃ finding,
    (linkedHost.tree.putBytes ["t"] bytes).finding [] linkedProject = .ok finding := by
  have found : (linkedHost.tree.putBytes ["t"] bytes).find linkedProject =
    .ok (["p"], .directory [("L.java", .link "../t")]) := by cbv
  have text : (linkedHost.tree.putBytes ["t"] bytes).source (linkedProject.child "L.java") =
    .ok (Utf8.decode bytes) := by cbv
  have entered : linkedHost.tree.machine.nesting ≠ 0 := by decide
  rw [FileTree.finding_single found rfl entered (by cbv), if_pos ⟨by decide, by cbv⟩, text]
  exact ⟨_, rfl⟩

theorem linked_appends (tree : FileTree) (text : List Char)
    (either : tree = linkedHost.tree ∨ ∃ bytes, tree = linkedHost.tree.putBytes ["t"] bytes) :
    ∃ bytes, tree.appending outerTracer.path text =
      (.ok (), linkedHost.tree.putBytes ["t"] bytes) := by
  have rooted : linkedHost.tree.Rooted := ⟨_, rfl⟩
  have plain : linkedHost.tree.machine.encodable text = true := Machine.encodable_all rfl text
  rcases either with rfl | ⟨old, rfl⟩
  · have opened : linkedHost.tree.openForWriting outerTracer.path =
      .ok (["t"], linkedHost.tree.putBytes ["t"] []) := by cbv
    rw [FileTree.appending_takes rooted opened (fun _ _ => rfl) plain, FileTree.putBytes_putBytes]
    exact ⟨_, rfl⟩
  · have opened : (linkedHost.tree.putBytes ["t"] old).openForWriting outerTracer.path =
      .ok (["t"], linkedHost.tree.putBytes ["t"] old) := by cbv
    have stands : (linkedHost.tree.putBytes ["t"] old).Rooted := ⟨_, rfl⟩
    rw [FileTree.appending_takes stands opened (fun _ _ => rfl) plain, FileTree.putBytes_putBytes]
    exact ⟨_, rfl⟩

theorem linked_survey {host : Host} (tracing : host.tracer? = some outerTracer)
    (either : host.tree = linkedHost.tree ∨
      ∃ bytes, host.tree = linkedHost.tree.putBytes ["t"] bytes) :
    ∃ bytes readings, Host.Ends (Project.survey linkedProject {}) host
      ((host.tree.finding [] linkedProject).map
        (·.named (Project.Options.nameFor {} linkedProject)))
      { host with tree := linkedHost.tree.putBytes ["t"] bytes, readings } := by
  have ends := Host.Ends.survey_traced tracing linkedProject {}
  obtain ⟨bytes, added⟩ := linked_appends host.tree (outerTracer.projectRecord
    (Project.Options.nameFor {} linkedProject)
    (host.clock (host.readings + 1) - host.clock host.readings)
    (host.tree.finding [] linkedProject)).line either
  dsimp only at ends
  rw [added] at ends
  exact ⟨bytes, _, ends⟩

theorem linked_traced :
    ∃ s, ((Nest.run { host := linkedHost } [.enter outerTracer, .survey linkedProject {}]).step
      (.survey linkedProject {})).1 = .ok (some s) := by
  let begun : Host := { linkedHost with tracers := [outerTracer] }
  obtain ⟨bytes, readings, ends⟩ := linked_survey (show begun.tracer? = _ from rfl) (.inl rfl)
  obtain ⟨errors, first⟩ := ends begun.errors
  let middle : Host :=
    { begun with tree := linkedHost.tree.putBytes ["t"] bytes, readings, errors }
  obtain ⟨_, _, again⟩ := linked_survey (show middle.tracer? = _ from rfl) (.inr ⟨bytes, rfl⟩)
  obtain ⟨_, second⟩ := again errors
  have once : Nest.run { host := linkedHost } [.enter outerTracer, .survey linkedProject {}] =
      { host := middle, saved := [[]] } := by
    change (({ host := begun, saved := [[]] } : Nest).step (.survey linkedProject {})).2 = _
    rw [Nest.step, first]
  obtain ⟨finding, found⟩ : ∃ finding, middle.tree.finding [] linkedProject = .ok finding :=
    linked_found bytes
  rw [once, Nest.step, second, found]
  exact ⟨_, rfl⟩

theorem linked_untraced :
    ((Nest.run { host := linkedHost } [.survey linkedProject {}]).step
      (.survey linkedProject {})).1 = .error linkedFault := by
  have ends := @Host.Ends.survey_untraced linkedHost rfl linkedProject {}
  rw [linked_missing] at ends
  obtain ⟨errors, first⟩ := ends linkedHost.errors
  obtain ⟨_, second⟩ := ends errors
  have once : Nest.run { host := linkedHost } [.survey linkedProject {}] =
      { host := { linkedHost with errors } } := by
    rw [Nest.run, List.foldl_cons, List.foldl_nil, Nest.step, first]
  rw [once, Nest.step, second]
  rfl

def garbledNest : Nest where
  host := {
    tree := {
      root := .directory [("pÿ", .directory [])]
      machine := { byte? := fun c => if c = 'ÿ' then some 0xff else none } }
    tracers := [outerTracer] }

set_option maxRecDepth 5000 in
theorem garbled_unrecorded :
    (garbledNest.step (.survey ⟨.relative, ["pÿ"]⟩ {})).1 = .error (.unencodable 0xff 49 49) ∧
      (garbledNest.step (.survey ⟨.relative, ["pÿ"]⟩ {})).2.host.tree.bytesAt ["t"] = [] := by
  constructor <;> cbv

/-- Where a source is a link to the file of the tracer, the tracer decides what the second survey
    comes to; and where the name of the project is no text, the tracer makes the survey fail, and
    there is no record. -/
theorem blocks_noticed :
    (outerTracer.Ready linkedHost.tree ["t"] ∧
      (∃ s, ((Nest.run { host := linkedHost } [.enter outerTracer, .survey linkedProject {}]).step
        (.survey linkedProject {})).1 = .ok (some s)) ∧
      ((Nest.run { host := linkedHost } [.survey linkedProject {}]).step
        (.survey linkedProject {})).1 = .error linkedFault) ∧
    garbledNest.host.tree.Opens outerTracer.path ["t"] ∧
      garbledNest.host.tree.machine.Takes ["t"] ∧
      (garbledNest.step (.survey ⟨.relative, ["pÿ"]⟩ {})).1 = .error (.unencodable 0xff 49 49) ∧
      (garbledNest.step (.survey ⟨.relative, ["pÿ"]⟩ {})).2.host.tree.bytesAt ["t"] = [] := by
  have proper : Json.Proper (.object []) := .object List.nodup_nil nofun
  have ready : outerTracer.Ready linkedHost.tree ["t"] :=
    ⟨⟨⟨linkedHost.tree.putBytes ["t"] [], by cbv⟩, fun _ _ => rfl, Machine.encodable_all rfl _,
      .all rfl proper⟩, proper⟩
  exact ⟨⟨ready, linked_traced, linked_untraced⟩, ⟨garbledNest.host.tree.putBytes ["t"] [], by cbv⟩,
    fun _ _ => rfl, garbled_unrecorded⟩

end FluentCensus
