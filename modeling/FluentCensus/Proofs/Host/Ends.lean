import FluentCensus.Proofs.Tree.Files
import FluentCensus.Trace.Tracer

namespace FluentCensus.Host

/-- Whatever standard error holds at first, the action comes to the result and leaves the host as
    it is afterwards, but for what standard error holds then. -/
def Ends {α : Type} (action : HostM α) (host : Host) (result : Except Fault α) (after : Host) :
    Prop :=
  ∀ errors, ∃ more, action.run.run { host with errors } = (result, { after with errors := more })

namespace Ends

variable {α β : Type} {host middle after : Host} {action : HostM α} {next : α → HostM β}

theorem run_bind (action : HostM α) (next : α → HostM β) (host : Host) :
    (action >>= next).run.run host =
      match action.run.run host with
      | (.ok a, middle) => (next a).run.run middle
      | (.error fault, middle) => (.error fault, middle) := by
  rw [ExceptT.run_bind, StateT.run_bind]
  change (match action.run.run host with | (result, middle) => _) = _
  rcases action.run.run host with ⟨fault | a, middle⟩ <;> rfl

theorem run_tryCatch (action : HostM α) (handler : Fault → HostM α) (host : Host) :
    (tryCatch action handler).run.run host =
      match action.run.run host with
      | (.ok a, middle) => (.ok a, middle)
      | (.error fault, middle) => (handler fault).run.run middle := by
  change (ExceptT.tryCatch action handler).run.run host = _
  rw [ExceptT.tryCatch]
  change (StateT.run (action.run >>= fun _ => _) host) = _
  rw [StateT.run_bind]
  change (match action.run.run host with | (result, middle) => _) = _
  rcases action.run.run host with ⟨fault | a, middle⟩ <;> rfl

theorem run_get (host : Host) :
    (MonadState.get : HostM Host).run.run host = (.ok host, host) := rfl

theorem run_ask (question : FileTree → Except Fault α) (host : Host) :
    (Host.ask question).run.run host = (question host.tree, host) := by
  rw [Host.ask, run_bind, run_get]
  dsimp only
  cases question host.tree <;> rfl

theorem pure (a : α) (host : Host) : Ends (Pure.pure a : HostM α) host (.ok a) host :=
  fun errors => ⟨errors, rfl⟩

theorem throw (fault : Fault) (host : Host) :
    Ends (MonadExcept.throw fault : HostM α) host (.error fault) host :=
  fun errors => ⟨errors, rfl⟩

theorem bind {a : α} {result : Except Fault β} (first : Ends action host (.ok a) middle)
    (second : Ends (next a) middle result after) : Ends (action >>= next) host result after := by
  intro errors
  obtain ⟨more, ran⟩ := first errors
  rw [run_bind, ran]
  exact second more

theorem bind_error {fault : Fault} (first : Ends action host (.error fault) after) :
    Ends (action >>= next) host (.error fault) after := by
  intro errors
  obtain ⟨more, ran⟩ := first errors
  rw [run_bind, ran]
  exact ⟨more, rfl⟩

theorem bind_total {action : HostM Unit} {next : HostM β} {result : Except Fault Unit}
    {value : Except Fault β} (first : Ends action host result after)
    (second : Ends next after value after) :
    Ends (action >>= fun _ => next) host (result >>= fun _ => value) after := by
  cases result with
  | error fault => exact bind_error first
  | ok _ => exact bind first second

theorem bind_failed {result : Except Fault Unit} {fault : Fault}
    (first : Ends action host (result >>= fun _ => .error fault) after) :
    Ends (action >>= next) host (result >>= fun _ => .error fault) after := by
  cases result with
  | error other => exact bind_error first
  | ok _ => exact bind_error first

theorem tryCatch {handler : Fault → HostM α} {a : α} (ends : Ends action host (.ok a) after) :
    Ends (MonadExcept.tryCatch action handler) host (.ok a) after := by
  intro errors
  obtain ⟨more, ran⟩ := ends errors
  exact ⟨more, by rw [run_tryCatch, ran]⟩

theorem tryCatch_error {handler : Fault → HostM α} {fault : Fault} {result : Except Fault α}
    (first : Ends action host (.error fault) middle)
    (second : Ends (handler fault) middle result after) :
    Ends (MonadExcept.tryCatch action handler) host result after := by
  intro errors
  obtain ⟨more, ran⟩ := first errors
  rw [run_tryCatch, ran]
  exact second more

/-- What follows may depend on everything in the host but standard error. -/
theorem get {next : Host → HostM β} {result : Except Fault β}
    (blind : ∀ errors, next { host with errors } = next host)
    (ends : Ends (next host) host result after) :
    Ends (MonadState.get >>= next) host result after := by
  intro errors
  rw [run_bind]
  change ∃ more, (next { host with errors }).run.run { host with errors } = _
  rw [blind]
  exact ends errors

theorem setTracers (tracers : List Tracer) (host : Host) :
    Ends (modify fun host => { host with tracers } : HostM Unit) host (.ok ())
      { host with tracers } :=
  fun errors => ⟨errors, rfl⟩

theorem readClock (host : Host) :
    Ends Host.readClock host (.ok (host.clock host.readings))
      { host with readings := host.readings + 1 } :=
  fun errors => ⟨errors, rfl⟩

theorem setTree (tree : FileTree) (host : Host) :
    Ends (Host.setTree tree) host (.ok ()) { host with tree } :=
  fun errors => ⟨errors, rfl⟩

theorem ask {question : FileTree → Except Fault α} {a : α} (answer : question host.tree = .ok a) :
    Ends (Host.ask question) host (.ok a) host := by
  refine get (fun _ => rfl) ?_
  simp only [answer]
  exact pure a host

theorem ask_error {question : FileTree → Except Fault α} {fault : Fault}
    (answer : question host.tree = .error fault) :
    Ends (Host.ask question) host (.error fault) host := by
  refine get (fun _ => rfl) ?_
  simp only [answer]
  exact throw fault host

theorem progress (quiet : Bool) (line : String) (host : Host) :
    Ends (Host.progress quiet line) host (.ok ()) host := by
  cases quiet with
  | true => exact pure () host
  | false => exact fun errors => ⟨_, rfl⟩

end Ends

end FluentCensus.Host
