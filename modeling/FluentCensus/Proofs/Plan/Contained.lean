import FluentCensus.Plan
import FluentCensus.Proofs.Host.Ends

namespace FluentCensus

theorem Fault.stopping_ofFiles (fault : Fault) (attempt : String) :
    (fault.stopping attempt).ofFiles = false := by
  unfold stopping
  cases files : fault.ofFiles with
  | true => rfl
  | false => exact files

namespace Host

/-- No cause in the file system leaves the action in its own words. -/
def Contained {α : Type} (action : HostM α) : Prop :=
  ∀ host fault after, action.run.run host = (.error fault, after) → fault.ofFiles = false

namespace Contained

variable {α β : Type}

theorem of_ok {action : HostM α} (ok : ∀ host, ∃ a after, action.run.run host = (.ok a, after)) :
    Contained action := by
  intro host fault after ran
  obtain ⟨a, other, same⟩ := ok host
  cases same.symm.trans ran

theorem pure (a : α) : Contained (Pure.pure a : HostM α) := of_ok fun host => ⟨a, host, rfl⟩

theorem get : Contained (MonadState.get : HostM Host) := of_ok fun host => ⟨host, host, rfl⟩

theorem changed (change : Host → Host) : Contained (modify change : HostM Unit) :=
  of_ok fun host => ⟨(), change host, rfl⟩

theorem throw {fault : Fault} (files : fault.ofFiles = false) :
    Contained (MonadExcept.throw fault : HostM α) := by
  intro host other after ran
  cases ran
  exact files

theorem bind {action : HostM α} {next : α → HostM β} (first : Contained action)
    (second : ∀ a, Contained (next a)) : Contained (action >>= next) := by
  intro host fault after ran
  rw [Ends.run_bind] at ran
  cases started : action.run.run host with
  | mk result middle =>
    rw [started] at ran
    cases result with
    | ok a => exact second a middle fault after ran
    | error other =>
      cases ran
      exact first host _ _ started

theorem progress (quiet : Bool) (line : String) : Contained (Host.progress quiet line) := by
  cases quiet with
  | true => exact pure ()
  | false => exact changed _

theorem orStop (attempt : String) (action : HostM α) : Contained (Plan.orStop attempt action) := by
  intro host fault after ran
  rw [Plan.orStop, Ends.run_tryCatch] at ran
  cases started : action.run.run host with
  | mk result middle =>
    rw [started] at ran
    cases result with
    | ok a => cases ran
    | error other =>
      cases ran
      exact other.stopping_ofFiles attempt

end Contained

namespace Ends

variable {α : Type} {action : HostM α} {host after : Host}

theorem ran {final : Host} {result other : Except Fault α} (ends : Ends action host result after)
    (ran : action.run.run host = (other, final)) :
    other = result ∧ ∃ errors, final = { after with errors } := by
  obtain ⟨errors, same⟩ := ends host.errors
  cases same.symm.trans ran
  exact ⟨rfl, errors, rfl⟩

theorem result {result : Except Fault α} (ends : Ends action host result after) :
    (action.run.run host).1 = result := by
  obtain ⟨errors, same⟩ := ends host.errors
  exact congrArg Prod.fst same

theorem contained {fault : Fault} (ends : Ends action host (.error fault) after)
    (contained : Contained action) : fault.ofFiles = false := by
  obtain ⟨_, ran⟩ := ends host.errors
  exact contained _ _ _ ran

end Ends

end Host

end FluentCensus
