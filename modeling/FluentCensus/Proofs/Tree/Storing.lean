import FluentCensus.Proofs.Tree.Later
import Mathlib.Data.List.TakeWhile

namespace FluentCensus

namespace Machine

/-- Every write to the file at a place goes through. -/
def Takes (m : Machine) (place : Location) : Prop := ∀ root bytes, m.stops root place bytes = none

theorem unencodable?_none {m : Machine} {text : List Char} :
    m.unencodable? text = none ↔ m.encodable text = true := by
  unfold unencodable? encodable
  rw [List.all_eq_true]
  cases rest : text.dropWhile fun c => (m.standIn? c).isNone with
  | nil => simpa using List.dropWhile_eq_nil_iff.mp rest
  | cons c more =>
    simp only [reduceCtorEq, false_iff]
    intro plain
    rw [List.dropWhile_eq_nil_iff.mpr plain] at rest
    cases rest

theorem unencodable?_some {m : Machine} {text : List Char} {fault : Fault}
    (unencodable : m.unencodable? text = some fault) :
    ∃ byte first last, fault = .unencodable byte first last := by
  unfold unencodable? at unencodable
  split at unencodable
  · cases unencodable
  · cases unencodable
    exact ⟨_, _, _, rfl⟩

theorem unencodable?_ofFiles {m : Machine} {text : List Char} {fault : Fault}
    (unencodable : m.unencodable? text = some fault) : fault.ofFiles = false := by
  obtain ⟨_, _, _, rfl⟩ := unencodable?_some unencodable
  rfl

theorem unencodable?_label {m : Machine} {text : List Char} {fault : Fault}
    (unencodable : m.unencodable? text = some fault) : fault.label = "UnicodeEncodeError" := by
  obtain ⟨_, _, _, rfl⟩ := unencodable?_some unencodable
  rfl

end Machine

namespace FileTree

def storing (tree : FileTree) (place : Location) (offset : Nat) (bytes : List UInt8) :
    Except Fault Unit × FileTree :=
  let put (bytes : List UInt8) := tree.putBytes place (overwrite (tree.bytesAt place) offset bytes)
  if bytes = [] then (.ok (), tree)
  else match tree.machine.stops tree.root place bytes with
    | none => (.ok (), put bytes)
    | some (refusal, written) =>
      (.error (.unwritten refusal), if written = 0 then tree else put (bytes.take written))

/-- What adding a text to the file at a path comes to, and the file system then. -/
def appending (tree : FileTree) (path : Path) (text : List Char) :
    Except Fault Unit × FileTree :=
  match tree.openForWriting path with
  | .error fault => (.error fault, tree)
  | .ok (place, made) =>
    match made.machine.unencodable? text with
    | some fault => (.error fault, made)
    | none => made.storing place (made.bytesAt place).length (Utf8.encode text)

theorem overwrite_end (old new : List UInt8) : overwrite old old.length new = old ++ new := by
  simp [overwrite]

def Stopped (tree : FileTree) (path : Path) (fault : Fault) : Prop :=
  ∃ place refusal root bytes written, tree.Leads path place ∧
    tree.machine.stops root place bytes = some (refusal, written) ∧ fault = .unwritten refusal

theorem Stopped.later {tree after : FileTree} {path : Path} {fault : Fault}
    (stopped : tree.Stopped path fault) (later : Later tree after) : after.Stopped path fault := by
  obtain ⟨place, refusal, root, bytes, written, leads, stops, same⟩ := stopped
  exact ⟨place, refusal, root, bytes, written, later.leads leads, later.machine ▸ stops, same⟩

theorem Stopped.untaken {tree : FileTree} {path : Path} {place : Location} {fault : Fault}
    (stopped : tree.Stopped path fault) (leads : tree.Leads path place) :
    ¬ tree.machine.Takes place := by
  obtain ⟨other, refusal, root, bytes, written, also, stops, _⟩ := stopped
  obtain rfl := leads.unique also
  intro takes
  cases (takes root bytes).symm.trans stops

structure Stores (path : Path) (tree after : FileTree) : Prop extends Writes [path] tree after where
  still : ∀ {other fault}, tree.openForWriting other = .error fault →
    after.openForWriting other = .error fault

theorem Stores.refl {tree : FileTree} (path : Path) (rooted : tree.Rooted) :
    Stores path tree tree :=
  ⟨.refl [path] rooted, id⟩

theorem Stores.trans {tree middle after : FileTree} {path : Path}
    (first : Stores path tree middle) (second : Stores path middle after) :
    Stores path tree after :=
  ⟨first.toWrites.trans second.toWrites, second.still ∘ first.still⟩

section Storing

variable {tree : FileTree} {path : Path} {place : Location}

theorem storing_total (tree : FileTree) (place : Location) (offset : Nat) (bytes : List UInt8) :
    bytes = [] ∧ tree.storing place offset bytes = (.ok (), tree) ∨
      tree.storing place offset bytes =
        (.ok (), tree.putBytes place (overwrite (tree.bytesAt place) offset bytes)) ∨
      ∃ refusal written, tree.machine.stops tree.root place bytes = some (refusal, written) ∧
        (tree.storing place offset bytes).1 = .error (.unwritten refusal) := by
  unfold storing
  dsimp only
  split
  · exact .inl ⟨‹_›, rfl⟩
  · right
    cases stops : tree.machine.stops tree.root place bytes with
    | none => exact .inl rfl
    | some stop => exact .inr ⟨stop.1, stop.2, rfl, rfl⟩

theorem storing_put (tree : FileTree) (place : Location) (offset : Nat) (bytes : List UInt8) :
    (tree.storing place offset bytes).2 = tree ∨
      ∃ new, (tree.storing place offset bytes).2 = tree.putBytes place new := by
  unfold storing
  dsimp only
  split
  · exact .inl rfl
  · split
    · exact .inr ⟨_, rfl⟩
    · dsimp only
      split
      · exact .inl rfl
      · exact .inr ⟨_, rfl⟩

theorem storing_stores (rooted : tree.Rooted) (leads : tree.Leads path place) (offset : Nat)
    (bytes : List UInt8) : Stores path tree (tree.storing place offset bytes).2 := by
  rcases storing_put tree place offset bytes with same | ⟨new, put⟩
  · exact same.symm ▸ .refl path rooted
  · rw [put]
    exact ⟨leads.putBytes rooted new,
      fun closed => openForWriting_putBytes_error rooted leads.file closed new⟩

theorem storing_stopped (leads : tree.Leads path place) {offset : Nat} {bytes : List UInt8}
    {fault : Fault} (failed : (tree.storing place offset bytes).1 = .error fault) :
    tree.Stopped path fault := by
  rcases storing_total tree place offset bytes with
    ⟨_, stored⟩ | stored | ⟨refusal, written, stops, stored⟩
  · cases (congrArg Prod.fst stored).symm.trans failed
  · cases (congrArg Prod.fst stored).symm.trans failed
  · cases stored.symm.trans failed
    exact ⟨place, refusal, tree.root, bytes, written, leads, stops, rfl⟩

theorem storing_holds (rooted : tree.Rooted) (leads : tree.Leads path place) {others : List Path}
    {written : List UInt8} (holds : tree.Holds others place written) {bytes : List UInt8}
    (done : (tree.storing place written.length bytes).1 = .ok ()) :
    (tree.storing place written.length bytes).2.Holds others place (written ++ bytes) := by
  have stores := storing_stores rooted leads written.length bytes
  intro last later apart
  have held := holds last (stores.toLater.trans later) apart
  rcases storing_total tree place written.length bytes with
    ⟨nothing, stored⟩ | stored | ⟨refusal, _, _, stored⟩
  · rw [stored, nothing, List.append_nil]
    exact held
  · rw [stored, bytesAt_putBytes rooted leads.file, held, overwrite_end]
  · cases stored.symm.trans done

theorem overwrite_nothing {old : List UInt8} {offset : Nat} (inside : offset ≤ old.length) :
    overwrite old offset [] = old := by
  have gap : offset - old.length = 0 := by omega
  simp [overwrite, gap]

theorem storing_ok (standing : tree.putBytes place (tree.bytesAt place) = tree) {offset : Nat}
    (inside : offset ≤ (tree.bytesAt place).length) {bytes : List UInt8}
    (done : (tree.storing place offset bytes).1 = .ok ()) :
    tree.storing place offset bytes =
      (.ok (), tree.putBytes place (overwrite (tree.bytesAt place) offset bytes)) := by
  rcases storing_total tree place offset bytes with
    ⟨rfl, stored⟩ | stored | ⟨refusal, written, _, stored⟩
  · rw [stored, overwrite_nothing inside, standing]
  · exact stored
  · cases stored.symm.trans done

theorem storing_takes (takes : tree.machine.Takes place) {offset : Nat}
    (inside : offset ≤ (tree.bytesAt place).length)
    (standing : tree.putBytes place (tree.bytesAt place) = tree) (bytes : List UInt8) :
    tree.storing place offset bytes =
      (.ok (), tree.putBytes place (overwrite (tree.bytesAt place) offset bytes)) := by
  refine storing_ok standing inside ?_
  rcases storing_total tree place offset bytes with
    ⟨_, stored⟩ | stored | ⟨refusal, written, stops, _⟩
  · exact congrArg Prod.fst stored
  · exact congrArg Prod.fst stored
  · cases (takes tree.root bytes).symm.trans stops

end Storing

/-- What comes of adding a text to the file at a path: the file cannot be opened, the text cannot be
    encoded, the write is stopped, or all goes well. -/
inductive Appends (tree : FileTree) (path : Path) (text : List Char) :
    Except Fault Unit → FileTree → Prop
  | closed {fault : Fault} (refused : tree.openForWriting path = .error fault) :
      Appends tree path text (.error fault) tree
  | garbled {fault : Fault} {after : FileTree} {place : Location}
      (leads : after.Leads path place) (writes : Writes [] tree after)
      (unencodable : tree.machine.unencodable? text = some fault) :
      Appends tree path text (.error fault) after
  | stopped {fault : Fault} {after : FileTree} (stopped : after.Stopped path fault)
      (writes : Writes [path] tree after) : Appends tree path text (.error fault) after
  | added {after : FileTree} {place : Location} (leads : after.Leads path place)
      (writes : Writes [path] tree after) (plain : tree.machine.encodable text = true)
      (added : after.bytesAt place = tree.bytesAt place ++ Utf8.encode text) :
      Appends tree path text (.ok ()) after

theorem Appends.failed {tree after : FileTree} {path : Path} {text : List Char} {fault : Fault}
    (appends : tree.Appends path text (.error fault) after) :
    tree.openForWriting path = .error fault ∨ after.Stopped path fault ∨
      tree.machine.unencodable? text = some fault := by
  cases appends with
  | closed refused => exact .inl refused
  | garbled _ _ unencodable => exact .inr (.inr unencodable)
  | stopped stopped _ => exact .inr (.inl stopped)

theorem appending_appends {tree : FileTree} (rooted : tree.Rooted) (path : Path)
    (text : List Char) :
    tree.Appends path text (tree.appending path text).1 (tree.appending path text).2 := by
  cases opened : tree.openForWriting path with
  | error fault =>
    simp only [appending, opened]
    exact .closed opened
  | ok found =>
    obtain ⟨place, made⟩ := found
    obtain ⟨first, leads⟩ := openForWriting_writes rooted opened
    have kept := openForWriting_bytes rooted opened
    simp only [appending, opened, first.machine]
    cases garbled : tree.machine.unencodable? text with
    | some fault => exact .garbled leads first garbled
    | none =>
      dsimp only
      have second := storing_stores first.rooted leads (made.bytesAt place).length
        (Utf8.encode text)
      have writes := (first.mono (List.nil_subset [path])).trans second.toWrites
      cases done : (made.storing place (made.bytesAt place).length (Utf8.encode text)).1 with
      | error fault => exact .stopped ((storing_stopped leads done).later second.toLater) writes
      | ok _ =>
        refine .added (second.leads leads) writes (Machine.unencodable?_none.mp garbled) ?_
        rw [storing_ok leads.file.putBytes_self (Nat.le_refl _) done, overwrite_end,
          bytesAt_putBytes first.rooted leads.file, kept]

theorem Appends.later {tree after : FileTree} {path : Path} {text : List Char}
    {result : Except Fault Unit} (appends : tree.Appends path text result after)
    (rooted : tree.Rooted) : Later tree after := by
  cases appends with
  | closed _ => exact .refl rooted
  | garbled _ writes _ => exact writes.toLater
  | stopped _ writes => exact writes.toLater
  | added _ writes _ _ => exact writes.toLater

def Opens (tree : FileTree) (path : Path) (place : Location) : Prop :=
  ∃ made, tree.openForWriting path = .ok (place, made)

theorem appending_ok {tree after : FileTree} (rooted : tree.Rooted) {path : Path}
    {text : List Char} (done : tree.appending path text = (.ok (), after)) :
    ∃ place made, tree.openForWriting path = .ok (place, made) ∧
      after = made.putBytes place (made.bytesAt place ++ Utf8.encode text) := by
  cases opened : tree.openForWriting path with
  | error fault =>
    rw [appending, opened] at done
    cases done
  | ok found =>
    obtain ⟨place, made⟩ := found
    refine ⟨place, made, rfl, ?_⟩
    rw [appending, opened] at done
    dsimp only at done
    split at done
    · cases done
    · obtain ⟨_, leads⟩ := openForWriting_writes rooted opened
      have stored := storing_ok leads.file.putBytes_self (Nat.le_refl _) (congrArg Prod.fst done)
      rw [done, overwrite_end] at stored
      exact congrArg Prod.snd stored

theorem appending_takes {tree made : FileTree} {path : Path} {place : Location} {text : List Char}
    (rooted : tree.Rooted) (opened : tree.openForWriting path = .ok (place, made))
    (takes : tree.machine.Takes place) (plain : tree.machine.encodable text = true) :
    tree.appending path text =
      (.ok (), made.putBytes place (made.bytesAt place ++ Utf8.encode text)) := by
  obtain ⟨first, leads⟩ := openForWriting_writes rooted opened
  rw [← first.machine] at takes plain
  have stored := storing_takes takes (Nat.le_refl _) leads.file.putBytes_self (Utf8.encode text)
  rw [overwrite_end] at stored
  simp only [appending, opened, Machine.unencodable?_none.mpr plain]
  exact stored

end FileTree

end FluentCensus
