import FluentCensus.Proofs.Plan.Run
import FluentCensus.Proofs.Host.Outcome

namespace FluentCensus

open FileTree (Writes Stores)

namespace Csv

/-- The open file stands where the path leads, and with what is pending it is the document of the
    surveys so far, unless one of the other paths leads there too. -/
structure Writer.Open (writer : Writer) (path : Path) (others : List Path) (surveys : List Survey)
    (handle : Host.Handle) (tree : FileTree) : Prop where
  held : writer.handle = some handle
  leads : tree.Leads path handle.place
  text : ∃ written, tree.Holds others handle.place written ∧ handle.offset = written.length ∧
    written ++ handle.pending = Utf8.encode (document surveys)

def Filed (tree : FileTree) (path : Path) (others : List Path) (surveys : List Survey) : Prop :=
  ∃ place, tree.Leads path place ∧ tree.Holds others place (Utf8.encode (document surveys))

theorem Filed.later {tree after : FileTree} {path : Path} {others : List Path}
    {surveys : List Survey} (filed : Filed tree path others surveys)
    (writes : Writes others tree after) : Filed after path others surveys := by
  obtain ⟨place, leads, holds⟩ := filed
  exact ⟨place, writes.leads leads, holds.writes writes⟩

namespace Writer

variable {path : Path} {others : List Path} {surveys : List Survey} {writer : Writer}
  {handle : Host.Handle}

theorem Open.writes {tree after : FileTree} (isOpen : writer.Open path others surveys handle tree)
    (writes : Writes others tree after) : writer.Open path others surveys handle after := by
  obtain ⟨written, holds, offset, text⟩ := isOpen.text
  exact ⟨isOpen.held, writes.leads isOpen.leads, written, holds.writes writes, offset, text⟩

theorem close_stored (held : writer.handle = some handle) (host : Host) :
    let stored := host.tree.storing handle.place handle.offset handle.pending
    Host.Ends writer.close host (stored.1.map fun _ => { writer with handle := none })
      { host with tree := stored.2 } := by
  have ends := Host.Ends.flush_stored handle host
  unfold close
  rw [held]
  dsimp only at ends ⊢
  cases done : (host.tree.storing handle.place handle.offset handle.pending).1 with
  | error fault =>
    rw [done] at ends
    exact .bind_error ends
  | ok _ =>
    rw [done] at ends
    exact .bind ends (.pure _ _)

/-- A fault that is none of the file system's goes on once the file is closed, unless what was
    pending cannot be written. -/
theorem closing_stored {α : Type} {action : HostM α} {host middle : Host} {fault : Fault}
    (held : writer.handle = some handle) (rooted : middle.tree.Rooted)
    (leads : middle.tree.Leads path handle.place)
    (ends : Host.Ends action host (.error fault) middle) (told : fault.ofFiles = false) :
    ∃ tree raised, Host.Ends (Plan.closing writer action) host (.error raised)
        { middle with tree } ∧
      Stores path middle.tree tree ∧ (raised.ofFiles = true → tree.Stopped path raised) := by
  have close := close_stored held middle
  have stores := FileTree.storing_stores rooted leads handle.offset handle.pending
  dsimp only at close
  cases done : (middle.tree.storing handle.place handle.offset handle.pending).1 with
  | ok _ =>
    rw [done] at close
    refine ⟨_, fault, .closing_error ends close, stores, fun files => ?_⟩
    cases told.symm.trans files
  | error other =>
    rw [done] at close
    refine ⟨_, other, .tryCatch_error ends (.bind_error close), stores, fun _ => ?_⟩
    exact (FileTree.storing_stopped leads done).later stores.toLater

namespace Open

variable {host : Host} (isOpen : writer.Open path others surveys handle host.tree)

include isOpen

theorem close_cases (rooted : host.tree.Rooted) :
    ∃ tree, Stores path host.tree tree ∧
      ((∃ fault, Host.Ends writer.close host (.error fault) { host with tree } ∧
        tree.Stopped path fault) ∨
      ∃ closed, Host.Ends writer.close host (.ok closed) { host with tree } ∧
        Filed tree path others surveys) := by
  obtain ⟨written, holds, offset, text⟩ := isOpen.text
  have close := close_stored isOpen.held host
  have stores := FileTree.storing_stores rooted isOpen.leads handle.offset handle.pending
  refine ⟨_, stores, ?_⟩
  dsimp only at close
  cases done : (host.tree.storing handle.place handle.offset handle.pending).1 with
  | error fault =>
    rw [done] at close
    exact .inl ⟨fault, close, (FileTree.storing_stopped isOpen.leads done).later stores.toLater⟩
  | ok _ =>
    rw [done] at close
    refine .inr ⟨_, close, _, stores.leads isOpen.leads, ?_⟩
    rw [offset] at done ⊢
    exact text ▸ FileTree.storing_holds rooted isOpen.leads holds done

theorem flush_cases (rooted : host.tree.Rooted) :
    ∃ tree, Stores path host.tree tree ∧
      ((∃ fault, Host.Ends writer.flush host (.error fault) { host with tree }) ∨
      ∃ flushed next, Host.Ends writer.flush host (.ok flushed) { host with tree } ∧
        flushed.Open path others surveys next tree) := by
  obtain ⟨written, holds, offset, text⟩ := isOpen.text
  have flush := Host.Ends.flush_stored handle host
  have stores := FileTree.storing_stores rooted isOpen.leads handle.offset handle.pending
  refine ⟨_, stores, ?_⟩
  unfold Writer.flush
  rw [isOpen.held]
  dsimp only at flush ⊢
  cases done : (host.tree.storing handle.place handle.offset handle.pending).1 with
  | error fault =>
    rw [done] at flush
    exact .inl ⟨fault, .bind_error flush⟩
  | ok _ =>
    rw [done] at flush
    refine .inr ⟨_, _, .bind flush (.pure _ _), rfl, stores.leads isOpen.leads,
      written ++ handle.pending, ?_, ?_, ?_⟩
    · rw [offset] at done ⊢
      exact FileTree.storing_holds rooted isOpen.leads holds done
    · rw [List.length_append, offset]
    · rw [List.append_nil, text]

theorem add (s : Survey) :
    (∃ fault, fault.ofFiles = false ∧ Host.Ends (writer.add s) host (.error fault) host) ∨
    ∃ filled next, Host.Ends (writer.add s) host (.ok ((rows s).length, filled)) host ∧
      filled.Open path others (surveys ++ [s]) next host.tree := by
  have ends (result)
      (wrote : Host.Ends (handle.write ((rows s).flatMap endLine)) host result host) :
      Host.Ends (writer.add s) host
        (result.map fun next => ((rows s).length, { writer with handle := some next })) host := by
    unfold Writer.add
    rw [isOpen.held]
    cases result with
    | error fault => exact .bind_error wrote
    | ok next => exact .bind wrote (.pure _ _)
  cases garbled : host.tree.machine.unencodable? ((rows s).flatMap endLine) with
  | some fault =>
    exact .inl ⟨fault, Machine.unencodable?_ofFiles garbled, ends _ (.write_garbled handle garbled)⟩
  | none =>
    obtain ⟨written, holds, offset, text⟩ := isOpen.text
    have wrote : Host.Ends (handle.write ((rows s).flatMap endLine)) host _ host :=
      .write handle (Machine.unencodable?_none.mp garbled)
    refine .inr ⟨_, _, ends _ wrote, rfl, isOpen.leads, written, holds, offset, ?_⟩
    rw [document_append, Utf8.encode_append, ← text, List.append_assoc]

end Open

end Writer

theorem Writer.start_cases {host : Host} (rooted : host.tree.Rooted) (path : Path)
    (others : List Path) :
    ∃ tree, Writes [path] host.tree tree ∧
      ((∃ fault, Host.Ends (start { path }) host (.error fault) { host with tree }) ∨
        ∃ writer handle, Host.Ends (start { path }) host (.ok writer) { host with tree } ∧
          writer.Open path others [] handle tree) := by
  obtain ⟨above, ends, writes, made⟩ :=
    Host.Ends.ensureDirectories_writes rooted path.parent
  cases housed : host.tree.withDirectories path.parent with
  | error fault =>
    rw [housed] at ends
    exact ⟨above, writes.mono nofun, .inl ⟨fault, .bind_error ends⟩⟩
  | ok directory =>
    obtain rfl := made directory housed
    rw [housed] at ends
    cases opened : directory.openForWriting path with
    | error fault =>
      refine ⟨directory, writes.mono nofun, .inl ⟨fault, ?_⟩⟩
      exact .bind ends (.bind_error (.bind_error (.ask_error opened)))
    | ok found =>
      obtain ⟨place, tree⟩ := found
      obtain ⟨second, leads⟩ := FileTree.openForWriting_writes writes.rooted opened
      have third := leads.putBytes second.rooted []
      refine ⟨tree.putBytes place [], ((writes.trans second).mono nofun).trans third, .inr
        ⟨_, _, .startWriter housed opened, rfl, third.leads leads, [], ?_, rfl, ?_⟩⟩
      · intro _ _ _
        exact FileTree.bytesAt_putBytes second.rooted leads.file []
      · simp [document]

end Csv

end FluentCensus
