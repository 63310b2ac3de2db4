import FluentCensus.Proofs.Trace.Lines

namespace FluentCensus

def latest {α β : Type} (value? : α → Option β) (items : List α) : Option β :=
  items.reverse.findSome? value?

theorem latest_cons {α β : Type} (value? : α → Option β) (first : α) (items : List α) :
    latest value? (first :: items) = (latest value? items <|> value? first) := by
  rw [latest, List.reverse_cons, List.findSome?_append, List.findSome?_singleton, ← latest]
  cases latest value? items <;> rfl

abbrev Recording := Measures × List (String × Json)

def Measures.latest (recorded : List Recording) : Measures where
  files := FluentCensus.latest (·.1.files) recorded
  chains := FluentCensus.latest (·.1.chains) recorded
  histogram := FluentCensus.latest (·.1.histogram) recorded

theorem Measures.update_latest (old : Measures) (first : Recording) (recorded : List Recording) :
    old.update (latest (first :: recorded)) = (old.update first.1).update (latest recorded) := by
  have assoc {α : Type} (a b c : Option α) : ((a <|> b) <|> c) = (a <|> b <|> c) := by
    cases a <;> rfl
  simp only [update, latest, latest_cons, assoc]

def Span.records (span : Span) (recorded : List Recording) : Span :=
  recorded.foldl (fun span r => span.record r.1 r.2) span

/-- Recordings add up: of each measure the last value counts, and the extras of all are put in. -/
theorem Span.records_eq (span : Span) (recorded : List Recording) :
    span.records recorded = { span with
      measures := span.measures.update (.latest recorded)
      extra := Json.putMembers span.extra (recorded.flatMap Prod.snd) } := by
  induction recorded generalizing span with
  | nil => rfl
  | cons first recorded ih =>
    rw [records, List.foldl_cons, ← records, ih, Measures.update_latest, List.flatMap_cons,
      Json.putMembers_append]
    rfl

theorem Span.records_start (span : Span) (start : Nat) (recorded : List Recording) :
    ({ span with start } : Span).records recorded = { span.records recorded with start } := by
  rw [records_eq, records_eq]

theorem Measures.update_empty (new : Measures) : ({} : Measures).update new = new := by
  have empty {α : Type} (a : Option α) : (a <|> none) = a := by
    cases a <;> rfl
  simp only [update, empty]

theorem Span.records_call (tracer : Tracer) (stage : String) (project : Option String)
    (start stop : Nat) (recorded : List Recording) (error : Option String) :
    (({ tracer, stage, project, start } : Span).records recorded).call error stop = {
      tracer
      record := {
        runId := tracer.runId
        stage
        project
        measures := .latest recorded
        latency := some (stop - start)
        error
        extra := Json.putMembers [] (recorded.flatMap Prod.snd) } } := by
  rw [records_eq, call, Measures.update_empty]

namespace Step

def Creates (id : Nat) : Step → Prop
  | .create other .. => other = id
  | _ => False

def Enters (id : Nat) : Step → Prop
  | .enter other => other = id
  | _ => False

def recorded? (id : Nat) : Step → Option Recording
  | .record other measures extra => if other = id then some (measures, extra) else none
  | _ => none

end Step

def recordings (id : Nat) (steps : List Step) : List Recording := steps.filterMap (·.recorded? id)

def Recording.Proper (r : Recording) : Prop :=
  (∀ h, r.1.histogram = some h → h.lengths.Nodup) ∧ Json.Proper (.object r.2)

theorem Recording.proper_latest {recorded : List Recording}
    (proper : ∀ r ∈ recorded, Recording.Proper r) :
    (∀ h, (Measures.latest recorded).histogram = some h → h.lengths.Nodup) ∧
    Json.Proper (.object (Json.putMembers [] (recorded.flatMap Prod.snd))) := by
  constructor
  · intro h last
    obtain ⟨r, member, given⟩ := List.exists_of_findSome?_eq_some last
    exact (proper r (List.mem_reverse.mp member)).1 h given
  · refine Json.proper_putMembers (.object List.nodup_nil nofun) fun e inside => ?_
    obtain ⟨r, member, here⟩ := List.mem_flatMap.mp inside
    have added := (proper r member).2
    cases added with
    | object _ each => exact each e here

namespace Session

theorem step_span (session : Session) (step : Step) {id : Nat} (fresh : ¬ step.Creates id)
    {span : Span} (known : session.spans id = some span) :
    ∃ start,
      (session.step step).spans id =
        some { span.records (step.recorded? id).toList with start } ∧
      (step.Enters id → start = session.now) ∧ (¬ step.Enters id → start = span.start) := by
  rw [step_spans]
  cases step with
  | log | finish => exact ⟨span.start, known, False.elim, fun _ => rfl⟩
  | create other tracer stage project =>
    rw [nextSpans, Function.update_of_ne (Ne.symm fresh)]
    exact ⟨span.start, known, False.elim, fun _ => rfl⟩
  | enter other =>
    by_cases same : other = id
    · subst same
      rw [nextSpans, Function.update_self, known]
      exact ⟨session.now, rfl, fun _ => rfl, fun other => absurd rfl other⟩
    · rw [nextSpans, Function.update_of_ne (Ne.symm same)]
      exact ⟨span.start, known, fun also => absurd also same, fun _ => rfl⟩
  | record other measures extra =>
    by_cases same : other = id
    · subst same
      rw [nextSpans, Function.update_self, known, Step.recorded?, if_pos rfl]
      exact ⟨span.start, rfl, False.elim, fun _ => rfl⟩
    · rw [nextSpans, Function.update_of_ne (Ne.symm same), Step.recorded?, if_neg same]
      exact ⟨span.start, known, False.elim, fun _ => rfl⟩

theorem run_span {session : Session} {steps : List Step} {id : Nat} {span : Span}
    (fresh : ∀ step ∈ steps, ¬ step.Creates id) (known : session.spans id = some span) :
    ∃ start,
      (session.run steps).spans id = some { span.records (recordings id steps) with start } ∧
      ((∀ step ∈ steps, ¬ step.Enters id) → start = span.start) := by
  induction steps generalizing session span with
  | nil => exact ⟨span.start, known, fun _ => rfl⟩
  | cons step steps ih =>
    obtain ⟨first, others⟩ := List.forall_mem_cons.mp fresh
    obtain ⟨middle, stepped, _, still⟩ := step_span session _ first known
    obtain ⟨start, ran, kept⟩ := ih others stepped
    refine ⟨start, ?_, fun apart => ?_⟩
    · rw [run_cons, ran, Span.records_start, recordings, recordings, List.filterMap_cons]
      cases step.recorded? id <;> rfl
    · obtain ⟨here, later⟩ := List.forall_mem_cons.mp apart
      rw [kept later, ← still here]

end Session

/-- The record of a span that ends is one line of the file that its tracer writes to, unless that
    file cannot be written or a text has no encoding. The stage and the project are those that the
    span was created with, and the measures and extras come from what was recorded to it since,
    whatever else has been done; the error is that of the end, and the time runs from where the span
    was last entered. The extras are a member of their own, so that none of them takes the place of
    another member. -/
theorem finish_isolated {host : Host} (rooted : host.tree.Rooted) (earlier later : List Step)
    (id : Nat) (tracer : Tracer) (stage : String) (project error : Option String)
    (fresh : ∀ step ∈ later, ¬ step.Creates id) (base : Json.Proper (.object tracer.extra))
    (proper : ∀ r ∈ recordings id later, Recording.Proper r) :
    let session := ({ host } : Session).run (earlier ++ .create id tracer stage project :: later)
    let after := session.step (.finish id error)
    after.spans = session.spans ∧
    ∃ start : Nat,
      (∀ before rest, later = before ++ .enter id :: rest → (∀ step ∈ rest, ¬ step.Enters id) →
        start = (({ host } : Session).run
          (earlier ++ .create id tracer stage project :: before)).now) ∧
      let given : Record := {
        runId := tracer.runId
        stage
        project
        measures := .latest (recordings id later)
        latency := some (session.now - start)
        error
        extra := Json.putMembers [] ((recordings id later).flatMap Prod.snd) }
      ((∃ fault, after.faults = fault :: session.faults ∧
        (session.host.tree.openForWriting tracer.path = .error fault ∨
          after.host.tree.Stopped tracer.path fault ∨
          ¬ Call.Textual session.host.tree.machine ⟨tracer, given⟩)) ∨
      ∃ (place : Location) (added : List UInt8), session.host.tree.Opens tracer.path place ∧
        after.faults = session.faults ∧
        FileTree.Grew session.host.tree after.host.tree place added ∧
        given.Logged (fun name => Json.last? ((recordings id later).flatMap Prod.snd) name <|>
          tracer.extra.lookup name) added) := by
  intro session after
  let begun := ({ host } : Session).run earlier
  let created := begun.step (.create id tracer stage project)
  let span : Span := { tracer, stage, project }
  have parts : session = created.run later := Session.run_append _ earlier _
  have stands : session.host.tree.Rooted := Session.run_rooted rooted _
  have made : created.spans id = some span := by
    rw [Session.step_spans, Session.nextSpans, Function.update_self]
  -- Whatever the earlier steps left under this number, creating the span replaced it.
  obtain ⟨start, known, _⟩ := Session.run_span fresh made
  rw [← parts] at known
  refine ⟨Session.step_spans session _, start, fun before rest split apart => ?_, ?_⟩
  · obtain ⟨_, entering, _⟩ := Session.run_span
      (fun step member => fresh step (split ▸ List.mem_append_left _ member)) made
    obtain ⟨entered, stepped, here, _⟩ :=
      Session.step_span (created.run before) (.enter id) not_false entering
    obtain ⟨last, ran, still⟩ := Session.run_span
      (fun step member => fresh step (split ▸ List.mem_append_right before
        (List.mem_cons_of_mem _ member))) stepped
    rw [parts, split, Session.run_append, Session.run_cons, ran] at known
    have same : last = start := congrArg Span.start (Option.some.inj known)
    rw [← same, still apart]
    exact (here rfl).trans (by rw [Session.run_append]; rfl)
  intro given
  have called : session.call? (.finish id error) = some ⟨tracer, given⟩ := by
    rw [Session.call?, known, Option.map_some, ← Span.records_start, Span.records_call]
  have stepped := Session.step_call called
  have ended : after = _ := stepped
  have logged := FileTree.appending_appends stands tracer.path (Call.written ⟨tracer, given⟩).line
  cases result : (session.host.tree.appending tracer.path
      (Call.written ⟨tracer, given⟩).line).1 with
  | error fault =>
    rw [result] at logged ended
    refine .inl ⟨fault, by rw [ended], ?_⟩
    rw [ended]
    refine logged.failed.imp_right (.imp_right fun unencodable textual => ?_)
    cases (Machine.unencodable?_none.mpr textual.line).symm.trans unencodable
  | ok _ =>
    obtain ⟨place, opens, grew⟩ := FileTree.appending_grew stands (Prod.ext result rfl)
    rw [result] at ended
    obtain ⟨counted, added⟩ := Recording.proper_latest proper
    have distinct : (given.extra.map Prod.fst).Nodup := by
      cases added with
      | object distinct _ => exact distinct
    refine .inr ⟨place, _, opens, by rw [ended], by rw [ended]; exact grew, ?_⟩
    have written : (Call.written ⟨tracer, given⟩).Proper :=
      Call.proper_written base ⟨added, counted⟩
    refine Record.logged given (fun name => ?_) written
    rw [Json.lookup_putMembers, Json.last?_of_distinct distinct, Json.lookup_putMembers]
    cases Json.last? ((recordings id later).flatMap Prod.snd) name <;> rfl

def interleavedTracer : Tracer where
  serial := 0
  runId := "r"
  path := ⟨.relative, ["t"]⟩
  extra := [("k", .int 0), ("l", .null)]

def interleavedSteps : List Step := [
  .record 0 { files := some 1, chains := some 2 } [("stage", .bool true), ("k", .int 1)],
  .create 1 interleavedTracer "run" none,
  .enter 0,
  .record 1 { files := some 7 } [("k", .int 7)],
  .finish 0 (some "E"),
  .record 0 { chains := some 3 } [("k", .int 2)],
  .finish 1 none]

def emptyHost : Host := {}

def interleaved : Session :=
  ({ host := emptyHost } : Session).run
    ([] ++ .create 0 interleavedTracer "project" none :: interleavedSteps)

set_option maxRecDepth 4000 in
theorem interleaved_faultless : (interleaved.step (.finish 0 none)).faults = [] := by cbv

theorem finish_isolated_interleaved :
    emptyHost.tree.Rooted ∧ (∀ step ∈ interleavedSteps, ¬ step.Creates 0) ∧
    Json.Proper (.object interleavedTracer.extra) ∧
    (∀ r ∈ recordings 0 interleavedSteps, Recording.Proper r) ∧
    ∃ (place : Location) (added : List UInt8) (line : List Char) (value : Json)
        (extra : List (String × Json)),
      FileTree.Grew interleaved.host.tree (interleaved.step (.finish 0 none)).host.tree place
        added ∧
      Utf8.decode added = line ++ ['\n'] ∧ Json.read? line = some value ∧
      value.get? "stage" = some (.string "project") ∧ value.get? "files" = some (.int 1) ∧
      value.get? "chains" = some (.int 3) ∧ value.get? "ok" = some (.bool true) ∧
      value.get? "extra" = some (.object extra) ∧ extra.lookup "k" = some (.int 2) ∧
      extra.lookup "l" = some .null ∧ extra.lookup "stage" = some (.bool true) := by
  have rooted : emptyHost.tree.Rooted := ⟨[], rfl⟩
  have fresh : ∀ step ∈ interleavedSteps, ¬ step.Creates 0 := by
    simp [interleavedSteps, Step.Creates]
  have base : Json.Proper (.object interleavedTracer.extra) :=
    .object (by decide) (by simpa [interleavedTracer] using ⟨.int _, .null⟩)
  have first : Recording.Proper
      ({ files := some 1, chains := some 2 }, [("stage", .bool true), ("k", .int 1)]) :=
    ⟨nofun, .object (by decide) (by simpa using ⟨.bool _, .int _⟩)⟩
  have second : Recording.Proper ({ chains := some 3 }, [("k", .int 2)]) :=
    ⟨nofun, .object (by decide) (by simpa using .int _)⟩
  have proper : ∀ r ∈ recordings 0 interleavedSteps, Recording.Proper r :=
    List.forall_mem_cons.mpr ⟨first, List.forall_mem_singleton.mpr second⟩
  refine ⟨rooted, fresh, base, proper, ?_⟩
  obtain ⟨_, start, _, ⟨fault, failed, _⟩ | ⟨place, added, _, _, grew, line, value, text, _, read,
    shows⟩⟩ := finish_isolated rooted [] interleavedSteps 0 interleavedTracer "project" none
      none fresh base proper
  · cases interleaved_faultless.symm.trans failed
  · obtain ⟨ok, known, sound⟩ := shows.ok
    obtain ⟨extra, there, values⟩ := shows.extra
    refine ⟨place, added, line, value, extra, grew, text, read, shows.stage, shows.files,
      shows.chains, ?_, there, ?_⟩
    · rw [known, sound.mpr rfl]
    · exact ⟨(values "k").trans rfl, (values "l").trans rfl, (values "stage").trans rfl⟩

end FluentCensus
