import FluentCensus.Proofs.Plan.Report

namespace FluentCensus.Host

def Silent {α : Type} (action : HostM α) : Prop :=
  ∀ host, (action.run.run host).2.errors = host.errors

namespace Silent

variable {α β : Type} {action : HostM α} {next : α → HostM β}

theorem pure (a : α) : Silent (Pure.pure a : HostM α) := fun _ => rfl

theorem throw (fault : Fault) : Silent (MonadExcept.throw fault : HostM α) := fun _ => rfl

theorem get : Silent (MonadState.get : HostM Host) := fun _ => rfl

theorem changed {change : Host → Host} (same : ∀ host, (change host).errors = host.errors) :
    Silent (modify change : HostM Unit) :=
  same

theorem setTree (tree : FileTree) : Silent (Host.setTree tree) := fun _ => rfl

theorem ask (question : FileTree → Except Fault α) : Silent (Host.ask question) := by
  intro host
  rw [Ends.run_ask]

theorem bind (first : Silent action) (second : ∀ a, Silent (next a)) :
    Silent (action >>= next) := by
  intro host
  have kept := first host
  rw [Ends.run_bind]
  cases ran : action.run.run host with
  | mk result middle =>
    rw [ran] at kept
    cases result with
    | ok a => exact (second a middle).trans kept
    | error fault => exact kept

theorem tryCatch {handler : Fault → HostM α} (first : Silent action)
    (second : ∀ fault, Silent (handler fault)) :
    Silent (MonadExcept.tryCatch action handler) := by
  intro host
  have kept := first host
  rw [Ends.run_tryCatch]
  cases ran : action.run.run host with
  | mk result middle =>
    rw [ran] at kept
    cases result with
    | ok a => exact kept
    | error fault => exact (second fault middle).trans kept

theorem progress (line : String) : Silent (Host.progress true line) := pure ()

theorem ensureDirectory (path : Path) : Silent (Host.ensureDirectory path) := by
  refine tryCatch (bind (ask _) setTree) fun fault => ?_
  dsimp only
  by_cases standing : (fault.ofFiles && fault != .refused .missing path) = true
  · rw [if_pos standing]
    refine bind (ask _) fun there => ?_
    cases there with
    | true => exact pure ()
    | false => exact throw fault
  · rw [if_neg standing]
    exact throw fault

theorem ensureLevels (path : Path) (levels : Nat) : Silent (Host.ensureLevels path levels) := by
  fun_induction Host.ensureLevels path levels with
  | case1 levels path ih =>
    refine tryCatch (ensureDirectory path) fun fault => ?_
    split
    · cases levels with
      | zero => exact throw _
      | succ levels => exact bind ih fun _ => ensureDirectory path
    · exact throw fault

theorem ensureDirectories (path : Path) : Silent (Host.ensureDirectories path) :=
  bind get fun _ => ensureLevels _ _

theorem openWrite (path : Path) : Silent (Host.openWrite path) :=
  bind (ask _) fun _ => bind (setTree _) fun _ => pure _

theorem encode (text : List Char) : Silent (Host.encode text) := by
  refine bind get fun host => ?_
  split
  · exact throw _
  · exact pure _

theorem store (place : Location) (offset : Nat) (bytes : List UInt8) :
    Silent (Host.store place offset bytes) := by
  intro host
  rw [Ends.run_store]

theorem write (handle : Handle) (text : List Char) : Silent (handle.write text) :=
  bind (encode text) fun _ => pure _

theorem flush (handle : Handle) : Silent handle.flush :=
  bind (store _ _ _) fun _ => pure _

theorem writeText (path : Path) (text : List Char) : Silent (Host.writeText path text) :=
  bind (openWrite path) fun _ => bind (write _ _) fun _ => bind (flush _) fun _ => pure _

theorem appendText (path : Path) (text : List Char) : Silent (Host.appendText path text) := by
  intro host
  rw [Ends.run_appendText]

theorem makeTracer (runId : String) (path : Path) (extra : List (String × Json)) :
    Silent (Tracer.make runId path extra) :=
  bind (ensureDirectories _) fun _ => bind get fun _ => bind (changed fun _ => rfl) fun _ => pure _

theorem tracing (tracer : Tracer) (silent : Silent action) : Silent (tracer.during action) := by
  have restore (outer : List Tracer) :
      Silent (modify fun host => { host with tracers := outer } : HostM Unit) :=
    changed fun _ => rfl
  refine bind get fun host => bind (restore _) fun _ => ?_
  refine bind (tryCatch silent fun fault => ?_) fun a => bind (restore _) fun _ => pure a
  exact bind (restore _) fun _ => throw fault

theorem readClock : Silent Host.readClock := fun _ => rfl

theorem enter (span : Span) : Silent span.enter := bind readClock fun _ => pure _

theorem finish (span : Span) (error : Option String) : Silent (span.finish error) :=
  bind readClock fun _ => appendText _ _

theorem guard (span : Span) (silent : Silent action) : Silent (span.guard action) :=
  tryCatch silent fun fault => bind (finish span _) fun _ => throw fault

theorem measure (project : Path) {options : Project.Options} (quiet : options.quiet = true) :
    Silent (Project.measure project options) := by
  unfold Project.measure
  rw [quiet]
  exact bind (ask _) fun _ => bind (progress _) fun _ => bind (ask _) fun _ => pure _

theorem survey (project : Path) {options : Project.Options} (quiet : options.quiet = true) :
    Silent (Project.survey project options) := by
  refine bind get fun host => ?_
  dsimp only
  cases host.tracer? with
  | none => exact bind (measure project quiet) fun _ => pure _
  | some tracer =>
    refine bind (enter _) fun begun => bind (guard begun (measure project quiet)) fun found => ?_
    exact bind (finish _ none) fun _ => pure _

theorem orStop (attempt : String) (silent : Silent action) : Silent (Plan.orStop attempt action) :=
  tryCatch silent fun _ => throw _

theorem close (writer : Csv.Writer) : Silent writer.close := by
  unfold Csv.Writer.close
  cases writer.handle with
  | none => exact pure _
  | some handle => exact bind (flush handle) fun _ => pure _

theorem start (writer : Csv.Writer) : Silent writer.start := by
  refine bind (ensureDirectories _) fun _ => bind (openWrite _) fun _ => ?_
  refine bind (tryCatch (bind (close _) fun _ => pure _) fun _ => pure _) fun _ => ?_
  exact bind (write _ _) fun _ => pure _

theorem add (writer : Csv.Writer) (s : Survey) : Silent (writer.add s) := by
  unfold Csv.Writer.add
  cases writer.handle with
  | none => exact throw _
  | some handle => exact bind (write handle _) fun _ => pure _

theorem flushWriter (writer : Csv.Writer) : Silent writer.flush := by
  unfold Csv.Writer.flush
  cases writer.handle with
  | none => exact pure _
  | some handle => exact bind (flush handle) fun _ => pure _

theorem closing (writer : Csv.Writer) (silent : Silent action) :
    Silent (Plan.closing writer action) :=
  tryCatch silent fun fault => bind (close writer) fun _ => throw fault

section Plan

variable {plan : Plan} (quiet : plan.quiet = true)

include quiet

theorem surveyEach (total index : Nat) (writer : Csv.Writer) (projects : List Path) :
    Silent (plan.surveyEach total index writer projects) := by
  induction projects generalizing index writer with
  | nil => exact pure _
  | cons project rest ih =>
    unfold Plan.surveyEach
    rw [quiet]
    refine bind get fun host => bind (progress _) fun _ => ?_
    refine bind (closing _ (orStop _ (survey project rfl))) fun s => bind (progress _) fun _ => ?_
    refine bind (closing _ (orStop _ (add _ s))) fun added => ?_
    refine bind (closing _ (orStop _ (flushWriter _))) fun flushed => ?_
    have next := bind (ih (index + 1) flushed) fun found => pure (s :: found.1, found.2)
    by_cases chains : s.chains ≠ 0
    · rw [if_pos chains]
      refine bind get fun host => ?_
      cases s.stats host.tree.machine.memory with
      | ok figures => exact bind (progress _) fun _ => next
      | error e => exact bind (closing _ (throw _)) fun _ => next
    · rw [if_neg chains]
      exact next

theorem surveyInto (projects : List Path) : Silent (plan.surveyInto projects) :=
  bind (orStop _ (start _)) fun writer => surveyEach quiet _ _ writer projects

theorem surveyTraced (projects : List Path) (path : Path) :
    Silent (plan.surveyTraced projects path) := by
  refine bind get fun host => bind (orStop _ (makeTracer _ _ _)) fun tracer => tracing tracer ?_
  refine bind (enter _) fun begun => bind (guard _ (surveyInto quiet projects)) fun found => ?_
  exact bind (guard _ (close found.2)) fun _ => bind (finish _ none) fun _ => pure _

theorem surveyUntraced (projects : List Path) : Silent (plan.surveyUntraced projects) :=
  bind (surveyInto quiet projects) fun found => bind (close found.2) fun _ => pure _

end Plan

theorem projects (plan : Plan) : Silent plan.projects := by
  unfold Plan.projects
  split
  · refine bind (ask _) fun there => ?_
    cases there with
    | true => exact pure _
    | false => exact bind (throw _) fun _ => pure _
  · exact orStop _ (ask _)

theorem writeSummary (surveys : List Survey) (path : Path) :
    Silent (Summary.write surveys path) := by
  refine bind (ensureDirectories _) fun _ => bind get fun host => ?_
  cases Summary.json host.tree.machine.memory surveys with
  | ok value => exact writeText _ _
  | error e => exact throw (.stats e)

theorem conclude {plan : Plan} (quiet : plan.quiet = true) (surveys : List Survey) :
    Silent (plan.conclude surveys) := by
  unfold Plan.conclude
  rw [quiet]
  cases plan.summary with
  | nowhere => exact bind (progress _) fun _ => pure surveys
  | unnamed => exact bind (throw _) fun _ => bind (progress _) fun _ => pure surveys
  | file path =>
    refine bind (orStop _ (writeSummary surveys path)) fun _ => bind get fun _ => ?_
    exact bind (progress _) fun _ => bind (progress _) fun _ => pure surveys

/-- A run that is asked to be quiet prints nothing to standard error, whatever it comes to. -/
theorem run {plan : Plan} (quiet : plan.quiet = true) : Silent plan.run := by
  have silent (line : String) : Silent (Host.progress plan.quiet line) := by
    rw [quiet]
    exact progress line
  unfold Plan.run
  refine bind (projects plan) fun listed => bind (silent _) fun _ => bind (silent _) fun _ => ?_
  cases plan.tracePath with
  | some path => exact bind (surveyTraced quiet listed path) (conclude quiet)
  | none => exact bind (surveyUntraced quiet listed) (conclude quiet)

end Silent

end FluentCensus.Host
