import FluentCensus.Csv.Writer
import FluentCensus.Proofs.Csv.Document
import FluentCensus.Proofs.Text.Encodable
import FluentCensus.Proofs.Text.Encoding
import FluentCensus.Proofs.Tree.Sight

namespace FluentCensus

def Host.Handle.wrote (handle : Handle) (text : List Char) : Handle :=
  { handle with pending := handle.pending ++ Utf8.encode text }

theorem Host.Handle.wrote_nil (handle : Handle) : handle.wrote [] = handle := by
  simp [wrote, Utf8.encode]

namespace Csv

namespace Writer

inductive Step where
  | enter
  | append (s : Survey)
  | exit

def act (w : Writer) : Step → HostM (Option Nat × Writer)
  | .enter => return (none, ← w.start)
  | .append s => do
    let (rows, w) ← w.append s
    return (some rows, w)
  | .exit => return (none, ← w.close)

structure Session where
  writer : Writer
  host : Host

namespace Session

/-- A step that fails leaves the writer as it is, and more steps may follow it. -/
def step (session : Session) (step : Step) : Except Fault (Option Nat) × Session :=
  match (session.writer.act step).run.run session.host with
  | (.ok (answer, writer), host) => (.ok answer, { writer, host })
  | (.error fault, host) => (.error fault, { session with host })

def run (session : Session) (steps : List Step) : Session :=
  steps.foldl (fun session step => (session.step step).2) session

end Session

def plain (m : Machine) (s : Survey) : Bool := m.encodable ((rows s).flatMap endLine)

/-- What has been appended since the writer was last entered, if it has not been left since. -/
def Step.follow (m : Machine) : Option (List Survey) → Step → Option (List Survey)
  | _, .enter => some []
  | surveys, .append s => if plain m s then surveys.map (· ++ [s]) else surveys
  | _, .exit => none

def current (m : Machine) (steps : List Step) : Option (List Survey) :=
  steps.foldl (Step.follow m) none

/-- The path leads to a file with the header and the rows of the surveys and nothing else. -/
structure Session.Wrote (session : Session) (place : Location) (surveys : List Survey) : Prop where
  leads : session.host.tree.Leads session.writer.path place
  whole : session.host.tree.bytesAt place = Utf8.encode (document surveys)

/-- What a step comes to after surveys have been appended to an open writer, or on one that is not
    open. -/
def Step.Fulfilled (place : Location) (before : Session) (answer : Except Fault (Option Nat))
    (after : Session) : Option (List Survey) → Step → Prop
  | _, .enter => answer = .ok none ∧ after.writer.handle.isSome
  | some surveys, .append s =>
    if plain before.host.tree.machine s then
      answer = .ok (some (rows s).length) ∧ after.Wrote place (surveys ++ [s])
    else ∃ fault, answer = .error fault ∧ fault.label = "UnicodeEncodeError" ∧ after = before
  | none, .append _ =>
    ∃ fault, answer = .error fault ∧ fault.label = "RuntimeError" ∧ after = before
  | some surveys, .exit =>
    answer = .ok none ∧ after.writer.handle = none ∧ after.Wrote place surveys
  | none, .exit => answer = .ok none ∧ after = before

def Enters (tree : FileTree) (path : Path) (place : Location) (begun : FileTree) : Prop :=
  ∃ above made, tree.withDirectories path.parent = .ok above ∧
    above.openForWriting path = .ok (place, made) ∧ begun = made.putBytes place []

structure Begun (begun : FileTree) (path : Path) (place : Location) : Prop where
  takes : begun.machine.Takes place
  rooted : begun.Rooted
  leads : begun.Leads path place
  standing : begun.withDirectories path.parent = .ok begun
  empty : begun.putBytes place [] = begun

theorem Enters.begins {tree begun : FileTree} {path : Path} {place : Location}
    (enters : Enters tree path place begun) (rooted : tree.Rooted)
    (seen : tree.allow .look path.parent = .ok ()) (takes : tree.machine.Takes place) :
    Begun begun path place ∧ begun.machine = tree.machine := by
  obtain ⟨above, made, housed, opened, rfl⟩ := enters
  have grown := FileTree.withDirectories_grown rooted housed []
  have directories := grown.rooted rooted
  have stands :=
    (FileTree.withDirectories_stands rooted seen housed).openForWriting directories opened
  obtain ⟨writes, leads⟩ := FileTree.openForWriting_writes directories opened
  have emptied := leads.putBytes writes.rooted []
  have machine : (made.putBytes place []).machine = tree.machine :=
    writes.machine.trans grown.machine
  refine ⟨⟨machine ▸ takes, emptied.rooted, emptied.leads leads, ?_,
    FileTree.putBytes_putBytes _ _ _ _⟩, machine⟩
  rw [FileTree.withDirectories_putBytes writes.rooted leads.file, stands.withDirectories]
  rfl

namespace Begun

variable {begun : FileTree} {path : Path} {place : Location} (started : Begun begun path place)
  (bytes : List UInt8)

include started

theorem bytesAt : (begun.putBytes place bytes).bytesAt place = bytes :=
  FileTree.bytesAt_putBytes started.rooted started.leads.file bytes

theorem leads_putBytes : (begun.putBytes place bytes).Leads path place :=
  (started.leads.putBytes started.rooted bytes).leads started.leads

theorem again : Enters (begun.putBytes place bytes) path place begun := by
  refine ⟨_, _, ?_, (started.leads_putBytes bytes).opens, ?_⟩
  · rw [FileTree.withDirectories_putBytes started.rooted started.leads.file, started.standing]
    rfl
  · rw [FileTree.putBytes_putBytes, started.empty]

end Begun

/-- The handle will make the file one of the surveys once what is pending is written over what the
    file holds. Only the header is ever pending, and with nothing before it. -/
structure Holding (place : Location) (bytes : List UInt8) (surveys : List Survey)
    (handle : Host.Handle) : Prop where
  place : handle.place = place
  inside : handle.offset ≤ bytes.length
  short : bytes.length ≤ handle.offset + handle.pending.length
  whole : bytes.take handle.offset ++ handle.pending = Utf8.encode (document surveys)
  waiting : handle.pending = [] ∨ handle.offset = 0 ∧ surveys = []

namespace Holding

variable {place : Location} {bytes : List UInt8} {surveys : List Survey} {handle : Host.Handle}

theorem more (holding : Holding place bytes surveys handle) (text : List Char) :
    FileTree.overwrite bytes handle.offset (handle.wrote text).pending =
        Utf8.encode (document surveys ++ text) ∧
      handle.offset + (handle.wrote text).pending.length =
        (Utf8.encode (document surveys ++ text)).length := by
  obtain ⟨_, inside, short, whole, _⟩ := holding
  have gap : handle.offset - bytes.length = 0 := Nat.sub_eq_zero_of_le inside
  have rest : bytes.drop (handle.offset + (handle.wrote text).pending.length) = [] := by
    rw [List.drop_eq_nil_iff, Host.Handle.wrote, List.length_append]
    omega
  rw [FileTree.overwrite, gap, rest, Host.Handle.wrote, Utf8.encode_append, ← whole]
  refine ⟨by simp, ?_⟩
  rw [List.length_append, List.length_append, List.length_append, List.length_take_of_le inside,
    Nat.add_assoc]

theorem flush {host : Host} (takes : host.tree.machine.Takes place) (file : host.tree.FileAt place)
    (holding : Holding place (host.tree.bytesAt place) surveys handle) (text : List Char) :
    Host.Ends (handle.wrote text).flush host
      (.ok { place, offset := (Utf8.encode (document surveys ++ text)).length })
      { host with
        tree := host.tree.putBytes place (Utf8.encode (document surveys ++ text)) } := by
  obtain ⟨whole, length⟩ := holding.more text
  obtain ⟨rfl, inside, _, _, _⟩ := holding
  have ends : Host.Ends (handle.wrote text).flush host _ _ :=
    .flush_over _ takes inside file.putBytes_self
  have start : (handle.wrote text).offset = handle.offset := rfl
  have place : (handle.wrote text).place = handle.place := rfl
  rw [start, place, whole, length] at ends
  exact ends

theorem fresh (place : Location) :
    Holding place [] [] (Host.Handle.wrote { place } (endLine header)) :=
  ⟨rfl, Nat.zero_le _, Nat.zero_le _, by simp [Host.Handle.wrote, document], .inr ⟨rfl, rfl⟩⟩

theorem flushed (place : Location) (surveys : List Survey) :
    Holding place (Utf8.encode (document surveys)) surveys
      { place, offset := (Utf8.encode (document surveys)).length } :=
  ⟨rfl, Nat.le_refl _, Nat.le_refl _, by simp, .inl rfl⟩

/-- A writer that is entered again gives up its handle when the file is already emptied for the
    new one, which will write the header over whatever the old one leaves. -/
theorem give_up {host : Host} (takes : host.tree.machine.Takes place)
    (file : host.tree.FileAt place) (empty : host.tree.bytesAt place = [])
    (holding : Holding place bytes surveys handle) :
    ∃ closed left, Host.Ends handle.flush host (.ok closed)
        { host with tree := host.tree.putBytes place left } ∧
      Holding place left [] (Host.Handle.wrote { place } (endLine header)) := by
  rcases holding.waiting with nothing | ⟨start, rfl⟩
  · have stored := Host.Ends.store handle.place handle.offset [] host
    rw [← nothing] at stored
    rw [FileTree.storing, if_pos nothing] at stored
    have still : host.tree.putBytes place [] = host.tree := by
      rw [← empty, file.putBytes_self]
    refine ⟨{ handle with offset := handle.offset + handle.pending.length, pending := [] }, [], ?_,
      fresh place⟩
    rw [still]
    exact .bind stored (.pure _ _)
  · have pending : handle.pending = Utf8.encode (document []) := by
      have whole := holding.whole
      rwa [start, List.take_zero, List.nil_append] at whole
    have emptied : Holding place (host.tree.bytesAt place) [] handle := by
      rw [empty]
      exact ⟨holding.place, by simp [start], by simp, by simp [pending], .inr ⟨start, rfl⟩⟩
    have ends := emptied.flush takes file []
    rw [handle.wrote_nil, List.append_nil] at ends
    refine ⟨_, _, ends, rfl, Nat.zero_le _, ?_, ?_, .inr ⟨rfl, rfl⟩⟩
    · simp [Host.Handle.wrote, document]
    · simp [Host.Handle.wrote, document]

end Holding

/-- The writer is open just if surveys may be appended, and the file is on the way to hold those
    that were. -/
structure Session.Known (session : Session) (path : Path) (place : Location) (begun : FileTree)
    (surveys : Option (List Survey)) : Prop where
  named : session.writer.path = path
  machine : session.host.tree.machine = begun.machine
  enters : Enters session.host.tree path place begun
  shut : surveys = none → session.writer.handle = none
  held : ∀ those, surveys = some those → ∃ handle bytes, session.writer.handle = some handle ∧
    session.host.tree = begun.putBytes place bytes ∧ Holding place bytes those handle

namespace Session

variable {session : Session} {path : Path} {place : Location} {begun : FileTree}

theorem step_ok (step : Step) {answer : Option Nat} {writer : Writer} {after : Host}
    (ends : Host.Ends (session.writer.act step) session.host (.ok (answer, writer)) after) :
    ∃ errors, session.step step = (.ok answer, { writer, host := { after with errors } }) := by
  obtain ⟨errors, ran⟩ := ends session.host.errors
  exact ⟨errors, by rw [Session.step, ran]⟩

theorem enter_known {surveys : Option (List Survey)} (started : Begun begun path place)
    (known : session.Known path place begun surveys) :
    ∃ after, session.step .enter = (.ok none, after) ∧ after.writer.handle.isSome ∧
      after.Known path place begun (some []) := by
  obtain ⟨rfl, machine, ⟨above, made, housed, opened, same⟩, shut, held⟩ := known
  -- The file is emptied before the old handle is given up, so whatever that one holds back still
  -- goes into the new file.
  have close : ∃ closed left, Host.Ends session.writer.close { session.host with tree := begun }
        (.ok closed) { session.host with tree := begun.putBytes place left } ∧
      closed.path = session.writer.path ∧
      Holding place left [] (Host.Handle.wrote { place } (endLine header)) := by
    unfold close
    cases surveys with
    | none =>
      rw [shut rfl]
      refine ⟨{ session.writer with handle := none }, [], ?_, rfl, .fresh place⟩
      rw [started.empty]
      exact .pure _ _
    | some surveys =>
      obtain ⟨handle, bytes, holds, _, holding⟩ := held surveys rfl
      rw [holds]
      let emptied : Host := { session.host with tree := begun }
      have file : emptied.tree.FileAt place := started.leads.file
      have empty : emptied.tree.bytesAt place = [] := by
        have empty := started.bytesAt []
        rwa [started.empty] at empty
      obtain ⟨closed, left, ends, fresh⟩ := holding.give_up started.takes file empty
      exact ⟨_, left, .bind ends (.pure _ _), rfl, fresh⟩
  obtain ⟨closed, left, close, named, fresh⟩ := close
  rw [same] at close
  have ascii (m : Machine) : m.encodable (endLine header) = true := Machine.encodable_ascii rfl
  have start : Host.Ends session.writer.start session.host (.ok _) _ :=
    .bind (Host.Ends.ensureDirectories housed)
      (.bind (Host.Ends.openWrite opened) (.bind (.tryCatch (.bind close (.pure _ _)))
        (.bind (.write _ (ascii _)) (.pure _ _))))
  obtain ⟨errors, stepped⟩ := step_ok .enter (.bind start (.pure _ _))
  refine ⟨_, stepped, rfl, rfl, ?_, ?_, nofun, fun those also => ?_⟩
  · rw [same]
    rfl
  · rw [← same]
    exact started.again left
  · cases also
    exact ⟨_, left, rfl, by rw [same], fresh⟩

theorem Known.flush {surveys : List Survey} (started : Begun begun path place)
    (known : session.Known path place begun (some surveys)) :
    ∃ handle, session.writer.handle = some handle ∧ ∀ text,
      Host.Ends (handle.wrote text).flush session.host
        (.ok { place, offset := (Utf8.encode (document surveys ++ text)).length })
        { session.host with
          tree := begun.putBytes place (Utf8.encode (document surveys ++ text)) } := by
  obtain ⟨handle, bytes, holds, standing, holding⟩ := known.held surveys rfl
  have file : session.host.tree.FileAt place := standing ▸ (started.leads_putBytes bytes).file
  have held : session.host.tree.bytesAt place = bytes := standing ▸ started.bytesAt bytes
  refine ⟨handle, holds, fun text => ?_⟩
  have takes : session.host.tree.machine.Takes place := known.machine ▸ started.takes
  have ends := (held.symm ▸ holding).flush takes file text
  rwa [standing, FileTree.putBytes_putBytes] at ends

theorem append_known {surveys : List Survey} (started : Begun begun path place)
    (known : session.Known path place begun (some surveys)) {s : Survey}
    (text : plain session.host.tree.machine s = true) :
    ∃ after, session.step (.append s) = (.ok (some (rows s).length), after) ∧
      after.Wrote place (surveys ++ [s]) ∧
      after.Known path place begun (some (surveys ++ [s])) := by
  obtain ⟨handle, holds, flush⟩ := known.flush started
  obtain ⟨rfl, machine, _, _, _⟩ := known
  have flushed := flush ((rows s).flatMap endLine)
  rw [← document_append] at flushed
  have added : Host.Ends (session.writer.add s) session.host
      (.ok ((rows s).length, { session.writer with
        handle := some (handle.wrote ((rows s).flatMap endLine)) })) session.host := by
    rw [add, holds]
    exact .bind (.write handle text) (.pure _ _)
  have appended : Host.Ends (session.writer.append s) session.host _ _ :=
    .bind added (.bind (.bind flushed (.pure _ _)) (.pure _ _))
  obtain ⟨errors, stepped⟩ := step_ok (.append s) (.bind appended (.pure _ _))
  refine ⟨_, stepped, ⟨started.leads_putBytes _, started.bytesAt _⟩, rfl, rfl, started.again _,
    nofun, ?_⟩
  intro those also
  cases also
  exact ⟨_, _, rfl, rfl, .flushed place _⟩

theorem append_garbled {surveys : List Survey}
    (known : session.Known path place begun (some surveys)) {s : Survey}
    (garbled : ¬ plain session.host.tree.machine s = true) :
    ∃ fault, session.step (.append s) = (.error fault, session) ∧
      fault.label = "UnicodeEncodeError" := by
  obtain ⟨handle, _, holds, _, _⟩ := known.held surveys rfl
  obtain ⟨fault, unencodable⟩ := Option.ne_none_iff_exists'.mp
    (mt Machine.unencodable?_none.mp garbled)
  refine ⟨fault, ?_, Machine.unencodable?_label unencodable⟩
  rw [Session.step, act, append, add, holds]
  simp only [Host.Ends.run_bind, Host.Handle.write, Host.encode, Host.Ends.run_get, unencodable]
  rfl

theorem exit_known {surveys : List Survey} (started : Begun begun path place)
    (known : session.Known path place begun (some surveys)) :
    ∃ after, session.step .exit = (.ok none, after) ∧ after.writer.handle = none ∧
      after.Wrote place surveys ∧ after.Known path place begun none := by
  obtain ⟨handle, holds, flush⟩ := known.flush started
  obtain ⟨rfl, machine, _, _, _⟩ := known
  have flushed := flush []
  rw [handle.wrote_nil, List.append_nil] at flushed
  obtain ⟨errors, stepped⟩ := step_ok .exit (by
    rw [act, close, holds]
    exact .bind (.bind flushed (.pure _ _)) (.pure _ _))
  exact ⟨_, stepped, rfl, ⟨started.leads_putBytes _, started.bytesAt _⟩, rfl, rfl, started.again _,
    fun _ => rfl, nofun⟩

theorem append_shut (shut : session.writer.handle = none) (s : Survey) :
    session.step (.append s) = (.error .writerClosed, session) := by
  rw [Session.step, act, append, add, shut]
  rfl

theorem exit_shut (shut : session.writer.handle = none) :
    session.step .exit = (.ok none, session) := by
  obtain ⟨⟨path, handle⟩, host⟩ := session
  obtain rfl : handle = none := shut
  rfl

theorem step_known {surveys : Option (List Survey)} (started : Begun begun path place)
    (known : session.Known path place begun surveys) (step : Step) :
    step.Fulfilled place session (session.step step).1 (session.step step).2 surveys ∧
      (session.step step).2.Known path place begun (step.follow begun.machine surveys) := by
  cases step with
  | enter =>
    obtain ⟨after, stepped, open_now, known⟩ := enter_known started known
    rw [stepped]
    exact ⟨by cases surveys <;> exact ⟨rfl, open_now⟩, known⟩
  | append s =>
    cases surveys with
    | some surveys =>
      rw [Step.Fulfilled, Step.follow, ← known.machine]
      by_cases text : plain session.host.tree.machine s = true
      · rw [if_pos text, if_pos text]
        obtain ⟨after, stepped, wrote, known⟩ := append_known started known text
        rw [stepped]
        exact ⟨⟨rfl, wrote⟩, known⟩
      · rw [if_neg text, if_neg text]
        obtain ⟨fault, stepped, label⟩ := append_garbled known text
        rw [stepped]
        exact ⟨⟨fault, rfl, label, rfl⟩, known⟩
    | none =>
      rw [append_shut (known.shut rfl), Step.follow, Option.map_none, ite_self]
      exact ⟨⟨_, rfl, rfl, rfl⟩, known⟩
  | exit =>
    cases surveys with
    | some surveys =>
      obtain ⟨after, stepped, closed, wrote, known⟩ := exit_known started known
      rw [stepped]
      exact ⟨⟨rfl, closed, wrote⟩, known⟩
    | none =>
      rw [exit_shut (known.shut rfl)]
      exact ⟨⟨rfl, rfl⟩, known⟩

theorem run_known {surveys : Option (List Survey)} (started : Begun begun path place)
    (known : session.Known path place begun surveys) (steps : List Step) :
    (session.run steps).Known path place begun
      (steps.foldl (Step.follow begun.machine) surveys) := by
  induction steps generalizing session surveys with
  | nil => exact known
  | cons step steps ih => exact ih (step_known started known step).2

end Session

/-- In whatever order a writer is entered, appended to and left, each append tells its rows, and
    it and each exit leave the file with the header and the rows of what has been appended since the
    writer was last entered. Rows that are no text are not appended. On a writer that is not open an
    append fails, and neither it nor an exit changes anything. -/
theorem steps_fulfilled {host : Host} {path : Path} {above made : FileTree} {place : Location}
    (rooted : host.tree.Rooted) (seen : host.tree.allow .look path.parent = .ok ())
    (housed : host.tree.withDirectories path.parent = .ok above)
    (opened : above.openForWriting path = .ok (place, made))
    (takes : host.tree.machine.Takes place) (steps : List Step) (next : Step) :
    let session := Session.run { writer := { path }, host } steps
    next.Fulfilled place session (session.step next).1 (session.step next).2
      (current host.tree.machine steps) := by
  have enters : Enters host.tree path place (made.putBytes place []) :=
    ⟨above, made, housed, opened, rfl⟩
  obtain ⟨started, machine⟩ := enters.begins rooted seen takes
  have known :
      Session.Known { writer := { path }, host } path place (made.putBytes place []) none :=
    ⟨rfl, machine.symm, enters, fun _ => rfl, nofun⟩
  rw [← machine]
  exact (Session.step_known started (Session.run_known started known steps) next).1

def staleHost : Host := { tree := { root := .directory [("o", .file [120, 10])] } }

def twiceEntered : List Step := [
  .append ⟨"a", {}, 1, ⟨[(1, 12)]⟩⟩, .enter, .append ⟨"a", {}, 1, ⟨[(1, 12)]⟩⟩, .exit, .enter,
  .enter,
  .append ⟨"b", {}, 1, ⟨[(1, 5), (2, 7)]⟩⟩]

theorem steps_fulfilled_twice :
    let path : Path := ⟨.relative, ["o"]⟩
    let session := Session.run { writer := { path }, host := staleHost } twiceEntered
    staleHost.tree.Rooted ∧ staleHost.tree.allow .look path.parent = .ok () ∧
    staleHost.tree.withDirectories path.parent = .ok staleHost.tree ∧
    staleHost.tree.openForWriting path = .ok (["o"], staleHost.tree) ∧
    staleHost.tree.machine.Takes ["o"] ∧
    (session.step .exit).2.writer.handle = none ∧
    (session.step .exit).2.host.tree.bytesAt ["o"] =
      Utf8.encode "project, chain length, frequency\nb, 2, 7\nb, 1, 5\n".toList := by
  have rooted : staleHost.tree.Rooted := ⟨_, rfl⟩
  have housed : staleHost.tree.withDirectories (Path.parent ⟨.relative, ["o"]⟩) =
      .ok staleHost.tree := by cbv
  have opened : staleHost.tree.openForWriting ⟨.relative, ["o"]⟩ = .ok (["o"], staleHost.tree) := by
    cbv
  have seen : staleHost.tree.allow .look (Path.parent ⟨.relative, ["o"]⟩) = .ok () := by cbv
  have takes : staleHost.tree.machine.Takes ["o"] := fun _ _ => rfl
  have appended : current staleHost.tree.machine twiceEntered =
      some [⟨"b", {}, 1, ⟨[(1, 5), (2, 7)]⟩⟩] := by cbv
  have ended := steps_fulfilled rooted seen housed opened takes twiceEntered .exit
  rw [appended] at ended
  obtain ⟨_, closed, wrote⟩ := ended
  refine ⟨rooted, seen, housed, opened, takes, closed, ?_⟩
  rw [wrote.whole]
  cbv

end Writer

end Csv

end FluentCensus
