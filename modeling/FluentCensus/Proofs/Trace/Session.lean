import FluentCensus.Proofs.Host.Outcome
import FluentCensus.Proofs.Json.Member

namespace FluentCensus

namespace FileTree

/-- The bytes have been added at the place, and nothing else has changed. -/
structure Grew (tree after : FileTree) (place : Location) (bytes : List UInt8) : Prop where
  rooted : after.Rooted
  machine : after.machine = tree.machine
  added : after.bytesAt place = tree.bytesAt place ++ bytes
  same : ∀ other, other ≠ place → after.bytesAt other = tree.bytesAt other
  opens : ∀ path, tree.Opens path place → after.Opens path place

namespace Grew

variable {tree middle after : FileTree} {place : Location} {first second : List UInt8}

theorem none (rooted : tree.Rooted) : Grew tree tree place [] :=
  ⟨rooted, rfl, (List.append_nil _).symm, fun _ _ => rfl, fun _ => id⟩

theorem trans (begun : Grew tree middle place first) (ended : Grew middle after place second) :
    Grew tree after place (first ++ second) := by
  refine ⟨ended.rooted, ended.machine.trans begun.machine, ?_, fun other apart => ?_,
    fun path => ended.opens path ∘ begun.opens path⟩
  · rw [ended.added, begun.added, List.append_assoc]
  · rw [ended.same other apart, begun.same other apart]

end Grew

theorem appending_grew {tree after : FileTree} {path : Path} {text : List Char}
    (rooted : tree.Rooted) (done : tree.appending path text = (.ok (), after)) :
    ∃ place, tree.Opens path place ∧ Grew tree after place (Utf8.encode text) := by
  obtain ⟨place, made, opened, rfl⟩ := appending_ok rooted done
  obtain ⟨writes, leads⟩ := openForWriting_writes rooted opened
  have kept := openForWriting_bytes rooted opened
  have later := leads.putBytes writes.rooted (made.bytesAt place ++ Utf8.encode text)
  refine ⟨place, ⟨made, opened⟩, later.rooted, later.machine.trans writes.machine, ?_,
    fun other apart => ?_, fun other opens => ?_⟩
  · rw [bytesAt_putBytes writes.rooted leads.file, kept]
  · rw [bytesAt_putBytes_other writes.rooted leads.file apart]
    exact writes.elsewhere (.refl writes.rooted) nofun
  · obtain ⟨also, opens⟩ := opens
    -- Opening the one path made the file that the other leads to, if it was not there before.
    have shared : made.Leads other place :=
      ⟨openForWriting_shared rooted opened opens, leads.file⟩
    exact ⟨_, (later.leads shared).opens⟩

theorem appending_taken {tree : FileTree} {path : Path} {place : Location} {text : List Char}
    (rooted : tree.Rooted) (opens : tree.Opens path place) (takes : tree.machine.Takes place)
    (plain : tree.machine.encodable text = true) :
    ∃ after, tree.appending path text = (.ok (), after) ∧
      Grew tree after place (Utf8.encode text) := by
  obtain ⟨made, opened⟩ := opens
  have done := appending_takes rooted opened takes plain
  obtain ⟨_, ⟨_, also⟩, grew⟩ := appending_grew rooted done
  cases opened.symm.trans also
  exact ⟨_, done, grew⟩

end FileTree

structure Call where
  tracer : Tracer
  record : Record

def Call.written (call : Call) : Record :=
  { call.record with
    runId := call.tracer.runId
    extra := Json.putMembers call.tracer.extra call.record.extra }

def Span.call (span : Span) (error : Option String) (stop : Nat) : Call where
  tracer := span.tracer
  record := {
    runId := span.tracer.runId
    stage := span.stage
    project := span.project
    measures := span.measures
    latency := some (stop - span.start)
    error
    extra := span.extra }

/-- One thing that is done with tracers and spans, each span known by a number. -/
inductive Step where
  | log (tracer : Tracer) (record : Record)
  | create (id : Nat) (tracer : Tracer) (stage : String) (project : Option String)
  | enter (id : Nat)
  | record (id : Nat) (measures : Measures) (extra : List (String × Json))
  | finish (id : Nat) (error : Option String)

structure Session where
  spans : Nat → Option Span := fun _ => none
  host : Host
  /-- What steps have failed with, the last one first. -/
  faults : List Fault := []

namespace Session

def act (spans : Nat → Option Span) : Step → HostM (Nat → Option Span)
  | .log tracer record => do
    tracer.log record
    return spans
  | .create id tracer stage project =>
    return Function.update spans id (some { tracer, stage, project })
  | .enter id => do
    match spans id with
    | none => return spans
    | some span => return Function.update spans id (some (← span.enter))
  | .record id measures extra =>
    return Function.update spans id ((spans id).map (·.record measures extra))
  | .finish id error => do
    match spans id with
    | none => return spans
    | some span =>
      span.finish error
      return spans

/-- A step that fails is noted, and the steps go on after it. -/
def step (session : Session) (step : Step) : Session :=
  match (act session.spans step).run.run session.host with
  | (.ok spans, host) => { session with spans, host }
  | (.error fault, host) => { session with host, faults := fault :: session.faults }

def run (session : Session) (steps : List Step) : Session := steps.foldl Session.step session

theorem run_cons (session : Session) (step : Step) (steps : List Step) :
    session.run (step :: steps) = (session.step step).run steps := rfl

theorem run_append (session : Session) (first second : List Step) :
    session.run (first ++ second) = (session.run first).run second := List.foldl_append

def now (session : Session) : Nat := session.host.clock session.host.readings

/-- What a step has logged: the record that it is given, or that of a span that ends. -/
def call? (session : Session) : Step → Option Call
  | .log tracer record => some ⟨tracer, record⟩
  | .finish id error => (session.spans id).map (·.call error session.now)
  | _ => none

def calls (session : Session) : List Step → List Call
  | [] => []
  | step :: rest => (session.call? step).toList ++ (session.step step).calls rest

def nextSpans (session : Session) : Step → Nat → Option Span
  | .create id tracer stage project =>
    Function.update session.spans id (some { tracer, stage, project })
  | .enter id =>
    Function.update session.spans id
      ((session.spans id).map ({ · with start := session.now }))
  | .record id measures extra =>
    Function.update session.spans id ((session.spans id).map (·.record measures extra))
  | _ => session.spans

def reads (session : Session) : Step → Nat
  | .enter id | .finish id _ => if (session.spans id).isSome then 1 else 0
  | _ => 0

theorem run_log (call : Call) (host : Host) :
    (call.tracer.log call.record).run.run host =
      let logged := host.tree.appending call.tracer.path call.written.line
      (logged.1, { host with tree := logged.2 }) :=
  Host.Ends.run_appendText _ _ host

section Step

variable {session : Session} {step : Step} {call : Call}

theorem step_call (called : session.call? step = some call) :
    let logged := session.host.tree.appending call.tracer.path call.written.line
    session.step step = { session with
      host := { session.host with
        tree := logged.2, readings := session.host.readings + session.reads step }
      faults := match logged.1 with
        | .ok _ => session.faults
        | .error fault => fault :: session.faults } := by
  intro logged
  have kept {action : HostM Unit} {host : Host}
      (ran : action.run.run session.host = (logged.1, host)) :
      (do action; return session.spans : HostM (Nat → Option Span)).run.run session.host =
        (logged.1.map fun _ => session.spans, host) := by
    rw [Host.Ends.run_bind, ran]
    cases logged.1 <;> rfl
  have acted : (act session.spans step).run.run session.host =
      (logged.1.map fun _ => session.spans,
        { session.host with
          tree := logged.2, readings := session.host.readings + session.reads step }) := by
    cases step with
    | log tracer record =>
      cases called
      exact kept (run_log ⟨tracer, record⟩ session.host)
    | finish id error =>
      obtain ⟨span, found, rfl⟩ := Option.map_eq_some_iff.mp called
      have once : session.reads (.finish id error) = 1 := by simp [reads, found]
      rw [act, found, once]
      exact kept (run_log (span.call error session.now)
        { session.host with readings := session.host.readings + 1 })
    | create | record | enter => cases called
  rw [Session.step, acted]
  cases logged.1 <;> rfl

theorem step_quiet (quiet : session.call? step = none) :
    session.step step = { session with
      spans := session.nextSpans step
      host := { session.host with readings := session.host.readings + session.reads step } } := by
  cases step with
  | log tracer record => cases quiet
  | create id tracer stage project => rfl
  | record id measures extra => rfl
  | enter id =>
    cases found : session.spans id with
    | none =>
      have same : Function.update session.spans id none = session.spans := by
        rw [← found, Function.update_eq_self]
      simp [Session.step, act, found, nextSpans, reads, same]
      rfl
    | some span =>
      simp [Session.step, act, found, nextSpans, reads]
      rfl
  | finish id error =>
    have missing : session.spans id = none := by
      cases found : session.spans id with
      | none => rfl
      | some span => simp [call?, found] at quiet
    simp [Session.step, act, missing, nextSpans, reads]
    rfl

theorem step_spans (session : Session) (step : Step) :
    (session.step step).spans = session.nextSpans step := by
  cases called : session.call? step with
  | none => rw [step_quiet called]
  | some call =>
    have kept : session.nextSpans step = session.spans := by
      cases step with
      | log | finish => rfl
      | create | record | enter => cases called
    rw [step_call called, kept]

theorem step_rooted (rooted : session.host.tree.Rooted) (step : Step) :
    (session.step step).host.tree.Rooted := by
  cases called : session.call? step with
  | none =>
    rw [step_quiet called]
    exact rooted
  | some call =>
    rw [step_call called]
    exact ((FileTree.appending_appends rooted _ _).later rooted).rooted

theorem run_rooted (rooted : session.host.tree.Rooted) (steps : List Step) :
    (session.run steps).host.tree.Rooted := by
  induction steps generalizing session with
  | nil => exact rooted
  | cons step steps ih => exact ih (step_rooted rooted step)

/-- A call that finds its file adds its line there, and a step without a call changes no file. -/
theorem step_grew {place : Location} (rooted : session.host.tree.Rooted)
    (takes : session.host.tree.machine.Takes place)
    (able : ∀ call, session.call? step = some call →
      session.host.tree.Opens call.tracer.path place ∧
        session.host.tree.machine.encodable call.written.line = true) :
    (session.step step).faults = session.faults ∧
    FileTree.Grew session.host.tree (session.step step).host.tree place
      (Utf8.encode ((session.call? step).toList.flatMap fun call => call.written.line)) := by
  cases called : session.call? step with
  | none =>
    rw [step_quiet called]
    exact ⟨rfl, .none rooted⟩
  | some call =>
    obtain ⟨opens, plain⟩ := able call called
    obtain ⟨after, done, grew⟩ := FileTree.appending_taken rooted opens takes plain
    rw [step_call called, done]
    refine ⟨rfl, ?_⟩
    rw [Option.toList_some, List.flatMap_singleton]
    exact grew

end Step

end Session

end FluentCensus
