import FluentCensus.Proofs.Text.Encodable
import FluentCensus.Proofs.Trace.Session

namespace FluentCensus

structure Call.Textual (m : Machine) (call : Call) : Prop where
  runId : m.encodable call.tracer.runId.toList = true
  added : m.Writes (.object call.tracer.extra)
  record : call.record.Textual m

theorem Call.Textual.line {m : Machine} {call : Call} (textual : call.Textual m) :
    m.encodable call.written.line = true :=
  Record.Textual.line {
    runId := textual.runId
    stage := textual.record.stage
    project := textual.record.project
    error := textual.record.error
    extra := textual.added.putMembers textual.record.extra }

structure Call.Proper (m : Machine) (call : Call) : Prop where
  base : Json.Proper (.object call.tracer.extra)
  record : call.record.Proper
  textual : call.Textual m

theorem Call.proper_written {call : Call} (base : Json.Proper (.object call.tracer.extra))
    (record : call.record.Proper) : call.written.Proper where
  extra := by
    have added := record.extra
    cases added with
    | object _ each => exact Json.proper_putMembers base each
  histogram := record.histogram

theorem Call.Proper.written {m : Machine} {call : Call} (proper : call.Proper m) :
    call.written.Proper := Call.proper_written proper.base proper.record

def Span.Proper (m : Machine) (span : Span) : Prop :=
  ∀ error stop, (∀ label, error = some label → m.encodable label.toList = true) →
    (span.call error stop).Proper m

theorem Span.Proper.entered {m : Machine} {span : Span} (proper : span.Proper m) (start : Nat) :
    ({ span with start } : Span).Proper m := by
  intro error stop named
  obtain ⟨base, record, runId, added, texts⟩ := proper error stop named
  exact ⟨base, ⟨record.extra, record.histogram⟩, runId, added,
    ⟨texts.runId, texts.stage, texts.project, texts.error, texts.extra⟩⟩

theorem Span.Proper.record {m : Machine} {span : Span} (proper : span.Proper m)
    {measures : Measures} {extra : List (String × Json)}
    (counted : ∀ h, measures.histogram = some h → h.lengths.Nodup)
    (added : Json.Proper (.object extra)) (texts : m.Writes (.object extra)) :
    (span.record measures extra).Proper m := by
  intro error stop named
  obtain ⟨base, old, runId, kept, known⟩ := proper error stop named
  refine ⟨base, ⟨?_, fun h measured => ?_⟩, runId, kept, { known with
    extra := known.extra.putMembers texts }⟩
  · cases added with
    | object _ each => exact Json.proper_putMembers old.extra each
  · change (measures.histogram <|> span.measures.histogram) = some h at measured
    cases given : measures.histogram with
    | none =>
      rw [given] at measured
      exact old.histogram h measured
    | some new =>
      rw [given] at measured
      exact counted h (given.trans measured)

namespace Step

def tracer? : Step → Option Tracer
  | .log tracer _ | .create _ tracer _ _ => some tracer
  | _ => none

def Proper (m : Machine) : Step → Prop
  | .log tracer entry => Call.Proper m ⟨tracer, entry⟩
  | .create _ tracer stage project => Span.Proper m { tracer, stage, project }
  | .enter _ => True
  | .record _ measures extra =>
    (∀ h, measures.histogram = some h → h.lengths.Nodup) ∧ Json.Proper (.object extra) ∧
      m.Writes (.object extra)
  | .finish _ error => ∀ label, error = some label → m.encodable label.toList = true

/-- What a step is given are values as they come about, and its tracer writes to the place. -/
structure Fits (step : Step) (tree : FileTree) (place : Location) : Prop where
  proper : step.Proper tree.machine
  opens : ∀ tracer, step.tracer? = some tracer → tree.Opens tracer.path place

theorem Fits.grew {step : Step} {tree after : FileTree} {place : Location} {bytes : List UInt8}
    (fits : step.Fits tree place) (grew : FileTree.Grew tree after place bytes) :
    step.Fits after place :=
  ⟨grew.machine ▸ fits.proper, fun tracer given =>
    grew.opens tracer.path (fits.opens tracer given)⟩

end Step

namespace Session

structure Sound (session : Session) (place : Location) : Prop where
  rooted : session.host.tree.Rooted
  takes : session.host.tree.machine.Takes place
  spans : ∀ id span, session.spans id = some span →
    span.Proper session.host.tree.machine ∧ session.host.tree.Opens span.tracer.path place

namespace Sound

variable {session : Session} {place : Location} {step : Step}

theorem call (sound : session.Sound place) (fits : step.Fits session.host.tree place) {call : Call}
    (called : session.call? step = some call) :
    call.Proper session.host.tree.machine ∧
      session.host.tree.Opens call.tracer.path place := by
  cases step with
  | log tracer record =>
    cases called
    exact ⟨fits.proper, fits.opens tracer rfl⟩
  | finish id error =>
    obtain ⟨span, found, rfl⟩ := Option.map_eq_some_iff.mp called
    obtain ⟨proper, opens⟩ := sound.spans id span found
    exact ⟨proper error session.now fits.proper, opens⟩
  | create | record | enter => cases called

theorem nextSpans (sound : session.Sound place) (fits : step.Fits session.host.tree place)
    {id : Nat} {span : Span} (found : session.nextSpans step id = some span) :
    span.Proper session.host.tree.machine ∧
      session.host.tree.Opens span.tracer.path place := by
  cases step with
  | log | finish => exact sound.spans id span found
  | create other tracer stage project =>
    by_cases same : id = other
    · rw [Session.nextSpans, same, Function.update_self] at found
      cases found
      exact ⟨fits.proper, fits.opens tracer rfl⟩
    · rw [Session.nextSpans, Function.update_of_ne same] at found
      exact sound.spans id span found
  | enter other =>
    by_cases same : id = other
    · rw [Session.nextSpans, same, Function.update_self] at found
      obtain ⟨old, known, rfl⟩ := Option.map_eq_some_iff.mp found
      obtain ⟨proper, opens⟩ := sound.spans other old known
      exact ⟨proper.entered session.now, opens⟩
    · rw [Session.nextSpans, Function.update_of_ne same] at found
      exact sound.spans id span found
  | record other measures extra =>
    by_cases same : id = other
    · rw [Session.nextSpans, same, Function.update_self] at found
      obtain ⟨old, known, rfl⟩ := Option.map_eq_some_iff.mp found
      obtain ⟨proper, opens⟩ := sound.spans other old known
      obtain ⟨counted, added, texts⟩ := fits.proper
      exact ⟨proper.record counted added texts, opens⟩
    · rw [Session.nextSpans, Function.update_of_ne same] at found
      exact sound.spans id span found

theorem stepped (sound : session.Sound place) (fits : step.Fits session.host.tree place) :
    (session.step step).Sound place ∧ (session.step step).faults = session.faults ∧
    FileTree.Grew session.host.tree (session.step step).host.tree place
      (Utf8.encode ((session.call? step).toList.flatMap fun call => call.written.line)) := by
  obtain ⟨faults, grew⟩ := step_grew sound.rooted sound.takes fun call called =>
    have able := sound.call fits called
    ⟨able.2, able.1.textual.line⟩
  refine ⟨⟨grew.rooted, grew.machine ▸ sound.takes, fun id span found => ?_⟩, faults, grew⟩
  rw [step_spans] at found
  obtain ⟨proper, opens⟩ := sound.nextSpans fits found
  exact ⟨grew.machine ▸ proper, grew.opens span.tracer.path opens⟩

theorem ran (sound : session.Sound place) {steps : List Step}
    (fits : ∀ step ∈ steps, step.Fits session.host.tree place) :
    (session.run steps).faults = session.faults ∧
    FileTree.Grew session.host.tree (session.run steps).host.tree place
      (Utf8.encode ((session.calls steps).flatMap fun call => call.written.line)) ∧
    ∀ call ∈ session.calls steps, call.Proper session.host.tree.machine := by
  -- What carries the induction is that a file that grows leaves every path leading where it led.
  induction steps generalizing session with
  | nil => exact ⟨rfl, .none sound.rooted, fun _ member => nomatch member⟩
  | cons first rest ih =>
    obtain ⟨now, later⟩ := List.forall_mem_cons.mp fits
    obtain ⟨kept, faults, grew⟩ := sound.stepped now
    obtain ⟨more, grown, proper⟩ := ih kept fun step member => (later step member).grew grew
    rw [grew.machine] at proper
    refine ⟨more.trans faults, ?_, List.forall_mem_append.mpr ⟨fun call member => ?_, proper⟩⟩
    · rw [run_cons, calls, List.flatMap_append, Utf8.encode_append]
      exact grew.trans grown
    · exact (sound.call now (Option.mem_toList.mp member)).1

end Sound

end Session

/-- Tracers that write to one file, in whatever order they and their spans are used, add one line
    for each record that they log. Each line is the object of its record. -/
theorem run_lines {host : Host} {place : Location} {steps : List Step} (rooted : host.tree.Rooted)
    (takes : host.tree.machine.Takes place) (fits : ∀ step ∈ steps, step.Fits host.tree place) :
    let session : Session := { host }
    (session.run steps).faults = [] ∧
    ∃ added lines,
      (session.run steps).host.tree.bytesAt place = host.tree.bytesAt place ++ added ∧
      (Utf8.decode added).splitOn '\n' = lines ++ [[]] ∧
      List.Forall₂ (fun line (call : Call) => line ≠ [] ∧
          ∃ value, Json.read? line = some value ∧ value.Proper ∧
            value.Shows { call.record with runId := call.tracer.runId } fun name =>
              call.record.extra.lookup name <|> call.tracer.extra.lookup name)
        lines (session.calls steps) := by
  intro session
  have sound : session.Sound place := ⟨rooted, takes, fun _ _ => nofun⟩
  obtain ⟨faults, grew, proper⟩ := sound.ran fits
  let lines := (session.calls steps).map fun call => call.written.toJson.text
  have text : (session.calls steps).flatMap (fun call => call.written.line) =
      lines.flatMap (· ++ ['\n']) := by
    rw [List.flatMap_map]
    rfl
  refine ⟨faults, _, lines, grew.added, ?_, ?_⟩
  · rw [Utf8.decode_encode, text, splitOn_lines]
    intro line member
    obtain ⟨call, called, rfl⟩ := List.mem_map.mp member
    exact (Record.line_reads (proper call called).written).2.2.1
  · rw [List.forall₂_map_left_iff, List.forall₂_same]
    intro call called
    have fine := proper call called
    obtain ⟨_, filled, _, read⟩ := Record.line_reads fine.written
    let given : Record := { call.record with runId := call.tracer.runId }
    refine ⟨filled, _, read, fine.written.toJson, Record.toJson_shows given fun name => ?_⟩
    have extra := fine.record.extra
    cases extra with
    | object distinct _ => rw [Json.lookup_putMembers, Json.last?_of_distinct distinct]

def sharedHost : Host where
  tree := { root := .directory [("t", .file (Utf8.encode "old\n".toList))] }

def quotedTracer : Tracer where
  serial := 0
  runId := "\"\n"
  path := ⟨.relative, ["t"]⟩
  extra := [("k", .string "é\\"), ("l", .int 1)]

def plainTracer : Tracer where
  serial := 1
  runId := "b"
  path := ⟨.root, ["t"]⟩

def sharedSteps : List Step := [
  .create 0 quotedTracer "project" (some "a\nb"),
  .enter 0,
  .log plainTracer { runId := "", stage := "run", error := some "E" },
  .record 0 { files := some 2, histogram := some ⟨[(1, 2), (-3, 4)]⟩ } [("k", .null)],
  .finish 0 none]

set_option maxRecDepth 2000 in
theorem run_lines_shared :
    sharedHost.tree.Rooted ∧ sharedHost.tree.machine.Takes ["t"] ∧
    (∀ step ∈ sharedSteps, step.Fits sharedHost.tree ["t"]) ∧
    ∃ added first second value,
      (({ host := sharedHost } : Session).run sharedSteps).host.tree.bytesAt ["t"] =
        sharedHost.tree.bytesAt ["t"] ++ added ∧
      (Utf8.decode added).splitOn '\n' = [first, second, []] ∧
      Json.read? second = some value ∧ value.get? "project" = some (.string "a\nb") := by
  have rooted : sharedHost.tree.Rooted := ⟨_, rfl⟩
  have quoted : sharedHost.tree.Opens quotedTracer.path ["t"] := ⟨sharedHost.tree, by cbv⟩
  have plain : sharedHost.tree.Opens plainTracer.path ["t"] := ⟨sharedHost.tree, by cbv⟩
  have empty : Json.Proper (.object []) := .object List.nodup_nil (by simp)
  have base : Json.Proper (.object quotedTracer.extra) :=
    .object (by decide) (by simpa [quotedTracer] using ⟨.string _, .int _⟩)
  have given : Json.Proper (.object [("k", .null)]) :=
    .object (by decide) (by simpa using Json.Proper.null)
  have counted : ∀ h : Histogram, some ⟨[(1, 2), (-3, 4)]⟩ = some h → h.lengths.Nodup := by
    rintro h ⟨⟩
    decide
  have uncounted : ∀ h : Histogram, none = some h → h.lengths.Nodup := by
    rintro h ⟨⟩
  have takes : sharedHost.tree.machine.Takes ["t"] := fun _ _ => rfl
  have bare : sharedHost.tree.machine.byte? = fun _ => none := rfl
  have proper {tracer : Tracer} {record : Record} (base : Json.Proper (.object tracer.extra))
      (entry : record.Proper) : Call.Proper sharedHost.tree.machine ⟨tracer, record⟩ :=
    ⟨base, entry, Machine.encodable_all bare _, .all bare base, .all bare entry⟩
  have fits : ∀ step ∈ sharedSteps, step.Fits sharedHost.tree ["t"] := by
    simp only [sharedSteps, List.forall_mem_cons, List.not_mem_nil, false_implies, implies_true,
      and_true]
    refine ⟨⟨fun _ _ _ => proper base ⟨empty, uncounted⟩, ?_⟩, ⟨trivial, by rintro _ ⟨⟩⟩,
      ⟨proper empty ⟨empty, uncounted⟩, ?_⟩, ⟨⟨counted, given, .all bare given⟩, by rintro _ ⟨⟩⟩,
      by rintro _ ⟨⟩, by rintro _ ⟨⟩⟩
    · rintro tracer ⟨⟩
      exact quoted
    · rintro tracer ⟨⟩
      exact plain
  have projects : (({ host := sharedHost } : Session).calls sharedSteps).map (·.record.project) =
      [none, some "a\nb"] := by cbv
  refine ⟨rooted, takes, fits, ?_⟩
  obtain ⟨_, added, lines, appended, split, each⟩ := run_lines rooted takes fits
  generalize ({ host := sharedHost } : Session).calls sharedSteps = calls at projects each
  obtain ⟨run, others, rfl, _, rest⟩ := List.map_eq_cons_iff.mp projects
  obtain ⟨finish, none_left, rfl, project, last⟩ := List.map_eq_cons_iff.mp rest
  obtain rfl := List.map_eq_nil_iff.mp last
  cases each with
  | cons first each =>
    cases each with
    | cons second each =>
      cases each
      obtain ⟨_, value, read, _, shows⟩ := second
      refine ⟨added, _, _, value, appended, split, read, ?_⟩
      rw [shows.project]
      dsimp only
      rw [project]
      rfl

end FluentCensus
