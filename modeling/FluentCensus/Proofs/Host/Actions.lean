import FluentCensus.Proofs.Host.Ends
import FluentCensus.Proofs.Tree.Storing

namespace FluentCensus

namespace FileTree

def withDirectory (tree : FileTree) (path : Path) : Except Fault FileTree :=
  match tree.makeDirectory path with
  | .ok made => .ok made
  | .error fault =>
    if fault.ofFiles && fault != .refused .missing path then do
      unless ← tree.isDirectory path do throw fault
      return tree
    else .error fault

def withLevels (tree : FileTree) (path : Path) (levels : Nat) : Except Fault FileTree :=
  match tree.withDirectory path with
  | .ok made => .ok made
  | .error fault =>
    if path.parts ≠ [] ∧ fault = .refused .missing path then
      match levels with
      | 0 => .error .tooManyMissing
      | levels + 1 => do (← tree.withLevels path.parent levels).withDirectory path
    else .error fault

def withDirectories (tree : FileTree) (path : Path) : Except Fault FileTree :=
  tree.withLevels path (tree.machine.missing path)

theorem withDirectory_ok {tree after : FileTree} {path : Path}
    (made : tree.withDirectory path = .ok after) :
    tree.makeDirectory path = .ok after ∨
    ∃ fault, tree.makeDirectory path = .error fault ∧ fault.ofFiles = true ∧
      fault ≠ .refused .missing path ∧ tree.isDirectory path = .ok true ∧ after = tree := by
  unfold withDirectory at made
  cases attempt : tree.makeDirectory path with
  | ok made_now =>
    rw [attempt] at made
    cases made
    exact .inl rfl
  | error fault =>
    rw [attempt] at made
    dsimp only at made
    split at made
    · rename_i standing
      obtain ⟨files, other⟩ : fault.ofFiles = true ∧ fault ≠ .refused .missing path := by
        simpa using standing
      cases there : tree.isDirectory path with
      | error other =>
        rw [there] at made
        cases made
      | ok there_now =>
        rw [there] at made
        cases there_now
        · cases made
        · cases made
          exact .inr ⟨fault, rfl, files, other, rfl, rfl⟩
    · cases made

theorem withDirectory_grown {tree after : FileTree} (rooted : tree.Rooted) {path : Path}
    (made : tree.withDirectory path = .ok after) (new : List Location) : Grown tree after new := by
  rcases withDirectory_ok made with made | ⟨_, _, _, _, _, rfl⟩
  · exact makeDirectory_grown rooted made new
  · exact .refl _ _

theorem withLevels_grown {tree after : FileTree} (rooted : tree.Rooted) {path : Path}
    {levels : Nat} (made : tree.withLevels path levels = .ok after) (new : List Location) :
    Grown tree after new := by
  fun_induction withLevels tree path levels generalizing after with
  | case1 path levels made_now attempt =>
    cases made
    exact withDirectory_grown rooted attempt new
  | case2 path fault attempt missing => cases made
  | case3 path fault attempt missing levels ih =>
    obtain ⟨middle, above, made⟩ := bind_ok made
    have first := ih above
    exact first.trans (withDirectory_grown (first.rooted rooted) made new)
  | case4 path levels fault attempt other => cases made

theorem withDirectories_grown {tree after : FileTree} (rooted : tree.Rooted) {path : Path}
    (made : tree.withDirectories path = .ok after) (new : List Location) : Grown tree after new :=
  withLevels_grown rooted made new

section Put

variable {tree : FileTree} {place : Location} (rooted : tree.Rooted) (file : tree.FileAt place)
  (bytes : List UInt8)

include rooted file

theorem withDirectory_putBytes (path : Path) :
    (tree.putBytes place bytes).withDirectory path =
      (tree.withDirectory path).map (·.putBytes place bytes) := by
  unfold withDirectory
  rw [makeDirectory_putBytes rooted file, isDirectory_putBytes rooted file]
  cases tree.makeDirectory path with
  | ok made => rfl
  | error fault =>
    simp only [Except.map]
    split
    · cases tree.isDirectory path with
      | error other => rfl
      | ok there => cases there <;> rfl
    · rfl

theorem withLevels_putBytes (path : Path) (levels : Nat) :
    (tree.putBytes place bytes).withLevels path levels =
      (tree.withLevels path levels).map (·.putBytes place bytes) := by
  fun_induction withLevels tree path levels with
  | case1 path levels made attempt =>
    rw [withLevels.eq_def, withDirectory_putBytes rooted file, attempt]
    rfl
  | case2 path fault attempt missing =>
    rw [withLevels, withDirectory_putBytes rooted file, attempt]
    exact if_pos missing
  | case3 path fault attempt missing levels ih =>
    rw [withLevels, withDirectory_putBytes rooted file, attempt]
    refine (if_pos missing).trans ?_
    rw [ih]
    cases above : tree.withLevels path.parent levels with
    | error other => rfl
    | ok middle =>
      have grown := withLevels_grown rooted above []
      exact withDirectory_putBytes (grown.rooted rooted) (grown.fileAt file) bytes path
  | case4 path levels fault attempt other =>
    rw [withLevels.eq_def, withDirectory_putBytes rooted file, attempt]
    exact if_neg other

theorem withDirectories_putBytes (path : Path) :
    (tree.putBytes place bytes).withDirectories path =
      (tree.withDirectories path).map (·.putBytes place bytes) :=
  withLevels_putBytes rooted file bytes path _

end Put

end FileTree

namespace Host.Ends

variable {host : Host} {path : Path} {tree : FileTree} {place : Location}

theorem makeDirectory (made : host.tree.makeDirectory path = .ok tree) :
    Ends (Host.makeDirectory path) host (.ok ()) { host with tree } :=
  bind (ask made) (setTree tree host)

theorem ensureDirectory (path : Path) (host : Host) :
    Ends (Host.ensureDirectory path) host ((host.tree.withDirectory path).map fun _ => ())
      { host with tree := (host.tree.withDirectory path).toOption.getD host.tree } := by
  unfold FileTree.withDirectory
  cases attempt : host.tree.makeDirectory path with
  | ok made => exact tryCatch (makeDirectory attempt)
  | error fault =>
    refine tryCatch_error (bind_error (ask_error attempt)) ?_
    dsimp only
    by_cases standing : (fault.ofFiles && fault != .refused .missing path) = true
    · rw [if_pos standing, if_pos standing]
      cases there : host.tree.isDirectory path with
      | error other => exact bind_error (ask_error there)
      | ok there_now =>
        refine bind (ask there) ?_
        cases there_now
        · exact throw fault host
        · exact pure _ host
    · rw [if_neg standing, if_neg standing]
      exact throw fault host

theorem ensureLevels {levels : Nat} (made : host.tree.withLevels path levels = .ok tree) :
    Ends (Host.ensureLevels path levels) host (.ok ()) { host with tree } := by
  fun_induction Host.ensureLevels path levels generalizing tree with
  | case1 levels path ih =>
    have first := ensureDirectory path host
    rw [FileTree.withLevels.eq_def] at made
    cases attempt : host.tree.withDirectory path with
    | ok made_now =>
      rw [attempt] at made first
      cases made
      exact tryCatch first
    | error fault =>
      rw [attempt] at made first
      refine tryCatch_error first ?_
      dsimp only at made ⊢
      split at made
      · rename_i missing
        rw [if_pos missing]
        cases levels with
        | zero => cases made
        | succ levels =>
          dsimp only at made
          cases above : host.tree.withLevels path.parent levels with
          | error other =>
            rw [above] at made
            cases made
          | ok middle =>
            rw [above, ok_bind] at made
            have last := ensureDirectory path { host with tree := middle }
            rw [made] at last
            exact bind (ih above) last
      · cases made

theorem ensureDirectories (made : host.tree.withDirectories path = .ok tree) :
    Ends (Host.ensureDirectories path) host (.ok ()) { host with tree } :=
  get (fun _ => rfl) (ensureLevels made)

theorem openWrite (opened : host.tree.openForWriting path = .ok (place, tree)) :
    Ends (Host.openWrite path) host (.ok { place }) { host with tree := tree.putBytes place [] } :=
  bind (ask opened) (bind (setTree _ host) (pure _ _))

theorem encode {text : List Char} (plain : host.tree.machine.encodable text = true) :
    Ends (Host.encode text) host (.ok (Utf8.encode text)) host := by
  refine get (fun _ => rfl) ?_
  rw [Machine.unencodable?_none.mpr plain]
  exact pure _ host

theorem run_store (place : Location) (offset : Nat) (bytes : List UInt8) (host : Host) :
    (Host.store place offset bytes).run.run host =
      ((host.tree.storing place offset bytes).1,
        { host with tree := (host.tree.storing place offset bytes).2 }) := by
  unfold Host.store FileTree.storing
  by_cases nothing : bytes = []
  · rw [if_pos (by simp [nothing]), if_pos nothing]
    rfl
  · rw [if_neg (by simpa using nothing), if_neg nothing, run_bind, run_get]
    dsimp only
    cases host.tree.machine.stops host.tree.root place bytes with
    | none => rfl
    | some stop =>
      obtain ⟨refusal, written⟩ := stop
      dsimp only
      by_cases some_written : written = 0
      · rw [if_neg (not_not.mpr some_written), if_pos some_written]
        rfl
      · rw [if_pos some_written, if_neg some_written]
        rfl

theorem run_appendText (path : Path) (text : List Char) (host : Host) :
    (Host.appendText path text).run.run host =
      ((host.tree.appending path text).1,
        { host with tree := (host.tree.appending path text).2 }) := by
  rw [Host.appendText, run_bind, run_ask, FileTree.appending]
  cases host.tree.openForWriting path with
  | error fault => rfl
  | ok found =>
    obtain ⟨place, made⟩ := found
    have set : (Host.setTree made).run.run host = (.ok (), { host with tree := made }) := rfl
    dsimp only
    rw [run_bind, set]
    dsimp only
    rw [run_bind, Host.encode, run_bind, run_get]
    dsimp only
    cases made.machine.unencodable? text with
    | some fault => rfl
    | none => exact run_store _ _ _ { host with tree := made }

theorem store (place : Location) (offset : Nat) (bytes : List UInt8) (host : Host) :
    Ends (Host.store place offset bytes) host (host.tree.storing place offset bytes).1
      { host with tree := (host.tree.storing place offset bytes).2 } :=
  fun errors => ⟨errors, run_store place offset bytes { host with errors }⟩

theorem appendText (path : Path) (text : List Char) (host : Host) :
    Ends (Host.appendText path text) host (host.tree.appending path text).1
      { host with tree := (host.tree.appending path text).2 } :=
  fun errors => ⟨errors, run_appendText path text { host with errors }⟩

theorem flush_over (handle : Handle) (takes : host.tree.machine.Takes handle.place)
    (inside : handle.offset ≤ (host.tree.bytesAt handle.place).length)
    (standing : host.tree.putBytes handle.place (host.tree.bytesAt handle.place) = host.tree) :
    Ends handle.flush host
      (.ok { handle with offset := handle.offset + handle.pending.length, pending := [] })
      { host with
        tree := host.tree.putBytes handle.place
          (FileTree.overwrite (host.tree.bytesAt handle.place) handle.offset handle.pending) } := by
  have stored := store handle.place handle.offset handle.pending host
  rw [FileTree.storing_takes takes inside standing] at stored
  exact bind stored (pure _ _)

theorem write (handle : Handle) {text : List Char}
    (plain : host.tree.machine.encodable text = true) :
    Ends (handle.write text) host
      (.ok { handle with pending := handle.pending ++ Utf8.encode text }) host :=
  bind (encode plain) (pure _ _)

theorem write_garbled (handle : Handle) {text : List Char} {fault : Fault}
    (garbled : host.tree.machine.unencodable? text = some fault) :
    Ends (handle.write text) host (.error fault) host := by
  refine bind_error (get (fun _ => rfl) ?_)
  rw [garbled]
  exact throw fault host

theorem flush (handle : Handle) (takes : host.tree.machine.Takes handle.place)
    {written : List UInt8} (offset : handle.offset = written.length)
    (held : host.tree.bytesAt handle.place = written)
    (standing : host.tree.putBytes handle.place written = host.tree)
    (added : host.tree.putBytes handle.place (written ++ handle.pending) = tree) :
    Ends handle.flush host
      (.ok { handle with offset := (written ++ handle.pending).length, pending := [] })
      { host with tree } := by
  subst added held
  have ends := flush_over handle takes (Nat.le_of_eq offset) standing
  rw [offset, FileTree.overwrite_end] at ends
  rw [List.length_append]
  exact ends

theorem writeText (rooted : host.tree.Rooted)
    (opened : host.tree.openForWriting path = .ok (place, tree))
    (takes : host.tree.machine.Takes place) {text : List Char}
    (plain : host.tree.machine.encodable text = true) :
    Ends (Host.writeText path text) host (.ok ())
      { host with tree := tree.putBytes place (Utf8.encode text) } := by
  have grown := FileTree.openForWriting_grown rooted opened
  have file := FileTree.openForWriting_file rooted opened
  have empty : (tree.putBytes place []).bytesAt place = [] :=
    FileTree.bytesAt_putBytes (grown.rooted rooted) file []
  rw [← grown.machine] at takes plain
  refine bind (openWrite opened) (bind (write _ plain) (bind (flush _ takes rfl empty ?_ ?_)
    (pure _ _)))
  · exact FileTree.putBytes_putBytes _ _ _ _
  · exact FileTree.putBytes_putBytes _ _ _ _

end Host.Ends

def Span.ended (span : Span) (stop : Nat) (error : Option String) : Record where
  runId := span.tracer.runId
  stage := span.stage
  project := span.project
  measures := span.measures
  latency := some (stop - span.start)
  error
  extra := Json.putMembers span.tracer.extra span.extra

namespace Host.Ends

variable {α : Type} {host middle after : Host} {tracer : Tracer} {result : Except Fault α}

theorem during (after : Host) {action : HostM α} {final : Host}
    (ends : Ends action { host with tracers := tracer :: host.tracers } result after)
    (restored : final = { after with tracers := host.tracers }) :
    Ends (tracer.during action) host result final := by
  subst restored
  refine get (fun _ => rfl) (bind (setTracers _ host) ?_)
  cases result with
  | ok a => exact bind (tryCatch ends) (bind (setTracers _ after) (pure a _))
  | error fault =>
    exact bind_error (tryCatch_error ends (bind (setTracers _ after) (throw fault _)))

theorem enter (span : Span) (host : Host) :
    Ends span.enter host (.ok { span with start := host.clock host.readings })
      { host with readings := host.readings + 1 } :=
  bind (readClock host) (pure _ _)

theorem finish (span : Span) (error : Option String) (host : Host) :
    let logged := host.tree.appending span.tracer.path
      (span.ended (host.clock host.readings) error).line
    Ends (span.finish error) host logged.1
      { host with readings := host.readings + 1, tree := logged.2 } :=
  bind (readClock host) (appendText _ _ { host with readings := host.readings + 1 })

theorem guard (span : Span) {action : HostM α} {a : α} (work : Ends action host (.ok a) after) :
    Ends (span.guard action) host (.ok a) after :=
  tryCatch work

theorem guard_error {span : Span} {action : HostM α} {fault : Fault}
    (work : Ends action host (.error fault) middle)
    (last : Ends (span.finish (some fault.label)) middle (.ok ()) after) :
    Ends (span.guard action) host (.error fault) after :=
  tryCatch_error work (bind last (throw fault after))

end Host.Ends

end FluentCensus
