import FluentCensus.Proofs.Host.Actions

namespace FluentCensus

namespace FileTree

theorem withDirectory_writes {tree after : FileTree} (rooted : tree.Rooted) {path : Path}
    (made : tree.withDirectory path = .ok after) : Writes [] tree after := by
  rcases withDirectory_ok made with made | ⟨_, _, _, _, _, rfl⟩
  · exact makeDirectory_writes rooted made
  · exact .refl [] rooted

end FileTree

open FileTree (Writes)

/-- Where the path leads in the end, if no other path leads there, the records have been added. -/
def FileTree.Adds (path : Path) (others : List Path) (records : List Record)
    (tree after : FileTree) : Prop :=
  ∀ last place, Later after last → last.Leads path place →
    (∀ other ∈ others, ¬ last.Leads other place) →
      after.bytesAt place = tree.bytesAt place ++ Utf8.encode (records.flatMap Record.line)

namespace FileTree.Adds

variable {path : Path} {others : List Path} {tree middle after : FileTree}

theorem none (writes : Writes others tree after) : Adds path others [] tree after := by
  intro last place later _ apart
  rw [writes.elsewhere later apart]
  exact (List.append_nil _).symm

theorem once {record : Record} {place : Location} (leads : after.Leads path place)
    (added : after.bytesAt place = tree.bytesAt place ++ Utf8.encode record.line) :
    Adds path others [record] tree after := by
  intro last other later also _
  rw [(later.leads leads).unique also, added, List.flatMap_cons, List.flatMap_nil, List.append_nil]

theorem trans {first second : List Record} (begun : Adds path others first tree middle)
    (later : Later middle after) (ended : Adds path others second middle after) :
    Adds path others (first ++ second) tree after := by
  intro last place more leads apart
  rw [ended last place more leads apart, begun last place (later.trans more) leads apart,
    List.append_assoc, List.flatMap_append, Utf8.encode, Utf8.encode, Utf8.encode,
    List.flatMap_append]

end FileTree.Adds

namespace Host.Ends

variable {host : Host}

theorem ensureLevels_writes (rooted : host.tree.Rooted) (path : Path) (levels : Nat) :
    ∃ tree, Ends (Host.ensureLevels path levels) host
        ((host.tree.withLevels path levels).map fun _ => ()) { host with tree } ∧
      Writes [] host.tree tree ∧
      ∀ made, host.tree.withLevels path levels = .ok made → made = tree := by
  fun_induction Host.ensureLevels path levels with
  | case1 levels path ih =>
    have first := ensureDirectory path host
    rw [FileTree.withLevels.eq_def]
    cases attempt : host.tree.withDirectory path with
    | ok made =>
      rw [attempt] at first
      refine ⟨made, tryCatch first, FileTree.withDirectory_writes rooted attempt, fun _ same => ?_⟩
      exact (Except.ok.inj same).symm
    | error fault =>
      rw [attempt] at first
      dsimp only
      by_cases missing : path.parts ≠ [] ∧ fault = .refused .missing path
      · rw [if_pos missing]
        cases levels with
        | zero =>
          refine ⟨host.tree, tryCatch_error first ?_, .refl [] rooted, fun _ same => ?_⟩
          · rw [if_pos missing]
            exact throw _ host
          · cases same
        | succ levels =>
          dsimp only
          obtain ⟨above, ends, writes, same⟩ := ih
          cases made : host.tree.withLevels path.parent levels with
          | error other =>
            rw [made] at ends
            refine ⟨above, tryCatch_error first ?_, writes, fun _ same => ?_⟩
            · rw [if_pos missing]
              exact bind_error ends
            · cases same
          | ok middle =>
            obtain rfl := same middle made
            rw [made] at ends
            have last := ensureDirectory path { host with tree := middle }
            rw [ok_bind]
            cases again : middle.withDirectory path with
            | error other =>
              rw [again] at last
              refine ⟨middle, tryCatch_error first ?_, writes, fun _ same => ?_⟩
              · rw [if_pos missing]
                exact bind ends last
              · cases same
            | ok made =>
              rw [again] at last
              have more := FileTree.withDirectory_writes writes.rooted again
              refine ⟨made, tryCatch_error first ?_, writes.trans more, fun _ same => ?_⟩
              · rw [if_pos missing]
                exact bind ends last
              · exact (Except.ok.inj same).symm
      · rw [if_neg missing]
        refine ⟨host.tree, tryCatch_error first ?_, .refl [] rooted, fun _ same => ?_⟩
        · rw [if_neg missing]
          exact throw fault host
        · cases same

theorem ensureDirectories_writes (rooted : host.tree.Rooted) (path : Path) :
    ∃ tree, Ends (Host.ensureDirectories path) host
        ((host.tree.withDirectories path).map fun _ => ()) { host with tree } ∧
      Writes [] host.tree tree ∧
      ∀ made, host.tree.withDirectories path = .ok made → made = tree := by
  obtain ⟨tree, ends, written⟩ := ensureLevels_writes rooted path (host.tree.machine.missing path)
  exact ⟨tree, get (fun _ => rfl) ends, written⟩

theorem ensureDirectories_refused {path : Path} {fault : Fault}
    (refused : host.tree.withDirectory path = .error fault)
    (other : fault ≠ .refused .missing path) :
    Ends (Host.ensureDirectories path) host (.error fault) host := by
  have first := ensureDirectory path host
  rw [refused] at first
  refine get (fun _ => rfl) ?_
  rw [Host.ensureLevels.eq_def]
  refine tryCatch_error first ?_
  rw [if_neg fun missing => other missing.2]
  exact throw fault host

theorem flush_stored (handle : Handle) (host : Host) :
    let stored := host.tree.storing handle.place handle.offset handle.pending
    Ends handle.flush host
      (stored.1.map fun _ =>
        { handle with offset := handle.offset + handle.pending.length, pending := [] })
      { host with tree := stored.2 } := by
  have ends := store handle.place handle.offset handle.pending host
  unfold Handle.flush
  dsimp only
  cases done : (host.tree.storing handle.place handle.offset handle.pending).1 with
  | error fault =>
    rw [done] at ends
    exact bind_error ends
  | ok _ =>
    rw [done] at ends
    exact bind ends (pure _ _)

end Host.Ends

def Span.last {α : Type} (span : Span) (measures : α → Measures) (stop : Nat) :
    Except Fault α → Record
  | .ok a => (span.record (measures a)).ended stop none
  | .error fault => span.ended stop (some fault.label)

namespace Host.Ends

variable {α β : Type} {host middle : Host}

/-- A fault of the work goes on, unless the record of it cannot be added to the trace. -/
theorem guard_failed (span : Span) {action : HostM α} {fault : Fault}
    (work : Ends action host (.error fault) middle) :
    let logged := middle.tree.appending span.tracer.path
      (span.ended (middle.clock middle.readings) (some fault.label)).line
    Ends (span.guard action) host (logged.1 >>= fun _ => .error fault)
      { middle with readings := middle.readings + 1, tree := logged.2 } :=
  tryCatch_error work (bind_total (finish span (some fault.label) middle) (throw fault _))

theorem span_total (span : Span) {action : HostM α} {result : Except Fault α}
    (work : Ends action host result middle) (value : α → β) (measures : α → Measures) :
    let logged := middle.tree.appending span.tracer.path
      (span.last measures (middle.clock middle.readings) result).line
    Ends (do
        let a ← span.guard action
        (span.record (measures a)).finish
        return value a)
      host (logged.1 >>= fun _ => result.map value)
      { middle with readings := middle.readings + 1, tree := logged.2 } := by
  cases result with
  | error fault => exact bind_failed (guard_failed span work)
  | ok a =>
    exact bind (guard span work)
      (bind_total (finish (span.record (measures a)) none middle) (pure (value a) _))

end Host.Ends

end FluentCensus
