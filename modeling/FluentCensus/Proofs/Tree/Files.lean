import FluentCensus.Host.Files
import FluentCensus.Proofs.Tree.Opening

namespace FluentCensus

theorem Node.Room.file_put {root new : Node} {place other : Location} (room : root.Room place)
    (leaf : ∀ name, new.child? name = none) (apart : other ≠ place) (bytes : List UInt8) :
    (root.put new place).at? other = some (.file bytes) ↔ root.at? other = some (.file bytes) := by
  have same := room.put_bare leaf other
  rw [if_neg apart] at same
  rw [← Node.bare_file, same, Node.bare_file]

theorem Node.isDirectory_outline (node : Node) : node.outline.isDirectory = node.isDirectory := by
  cases node <;> rfl

namespace FileTree

def FileAt (tree : FileTree) (place : Location) : Prop :=
  ∃ bytes, tree.root.at? place = some (.file bytes)

theorem bytesAt_file {tree : FileTree} {place : Location} {bytes : List UInt8}
    (file : tree.root.at? place = some (.file bytes)) : tree.bytesAt place = bytes := by
  rw [bytesAt, file]

theorem bytesAt_congr {tree other : FileTree} {place : Location}
    (same : ∀ bytes, tree.root.at? place = some (.file bytes) ↔
      other.root.at? place = some (.file bytes)) : tree.bytesAt place = other.bytesAt place := by
  by_cases file : tree.FileAt place
  · obtain ⟨bytes, file⟩ := file
    rw [bytesAt_file file, bytesAt_file ((same bytes).mp file)]
  · have nothing {tree : FileTree} (none : ¬ tree.FileAt place) : tree.bytesAt place = [] := by
      unfold bytesAt
      split
      · rename_i bytes file
        exact absurd ⟨bytes, file⟩ none
      · rfl
    have none : ¬ other.FileAt place := fun ⟨bytes, there⟩ => file ⟨bytes, (same bytes).mpr there⟩
    rw [nothing file, nothing none]

theorem FileAt.bytes {tree : FileTree} {place : Location} (file : tree.FileAt place) :
    tree.root.at? place = some (.file (tree.bytesAt place)) := by
  obtain ⟨bytes, file⟩ := file
  rw [bytesAt_file file, file]

theorem FileAt.putBytes_self {tree : FileTree} {place : Location} (file : tree.FileAt place) :
    tree.putBytes place (tree.bytesAt place) = tree := by
  rw [putBytes, Node.put_at?_self file.bytes]

theorem putBytes_putBytes (tree : FileTree) (place : Location) (old new : List UInt8) :
    (tree.putBytes place old).putBytes place new = tree.putBytes place new := by
  simp only [putBytes, Node.put_put]

/-- The second file system has what the first one has, and on top of it files at the given places
    alone. -/
structure Grown (tree after : FileTree) (new : List Location) : Prop where
  machine : after.machine = tree.machine
  rooted : tree.Rooted → after.Rooted
  file : ∀ {place bytes}, tree.root.at? place = some (.file bytes) →
    after.root.at? place = some (.file bytes)
  old : ∀ {place bytes}, place ∉ new → after.root.at? place = some (.file bytes) →
    tree.root.at? place = some (.file bytes)

namespace Grown

theorem refl (tree : FileTree) (new : List Location) : Grown tree tree new :=
  ⟨rfl, id, id, fun _ => id⟩

theorem trans {tree middle after : FileTree} {new : List Location} (first : Grown tree middle new)
    (second : Grown middle after new) : Grown tree after new :=
  ⟨second.machine.trans first.machine, second.rooted ∘ first.rooted, second.file ∘ first.file,
    fun apart standing => first.old apart (second.old apart standing)⟩

theorem fileAt {tree after : FileTree} {new : List Location} (grown : Grown tree after new)
    {place : Location} (file : tree.FileAt place) : after.FileAt place := by
  obtain ⟨bytes, file⟩ := file
  exact ⟨bytes, grown.file file⟩

theorem same {tree after : FileTree} {new : List Location} (grown : Grown tree after new)
    {place : Location} (outside : place ∉ new) (bytes : List UInt8) :
    after.root.at? place = some (.file bytes) ↔ tree.root.at? place = some (.file bytes) :=
  ⟨grown.old outside, grown.file⟩

theorem put {tree : FileTree} {place : Location} {new : Node} (room : tree.root.Room place)
    (free : tree.root.at? place = none) (leaf : ∀ name, new.child? name = none)
    (solid : ∀ target, new ≠ .link target) {places : List Location}
    (known : (∃ bytes, new = .file bytes) → place ∈ places) :
    Grown tree { tree with root := tree.root.put new place } places := by
  refine ⟨rfl, fun rooted => rooted.extended (room.extended leaf solid (.inl free)) ⟨rfl, rfl⟩,
    ?_, ?_⟩
  · intro other bytes file
    refine (room.file_put leaf ?_ bytes).mpr file
    rintro rfl
    rw [free] at file
    cases file
  · intro other bytes outside standing
    refine (room.file_put leaf ?_ bytes).mp standing
    rintro rfl
    rw [room.put_self new] at standing
    exact outside (known ⟨bytes, Option.some.inj standing⟩)

end Grown

section Put

variable {tree : FileTree} {place other : Location} (rooted : tree.Rooted)

include rooted

theorem FileAt.room (file : tree.FileAt place) : tree.root.Room place := by
  obtain ⟨bytes, file⟩ := file
  exact Node.room_file rooted.directory file

theorem FileAt.extended (file : tree.FileAt place) (bytes : List UInt8) :
    Extended tree.root (tree.putBytes place bytes).root place := by
  refine (file.room rooted).extended (Node.file_leaf bytes) (fun _ => nofun) (.inr ?_)
  rw [file.bytes]
  rfl

theorem rooted_putBytes (file : tree.FileAt place) (bytes : List UInt8) :
    (tree.putBytes place bytes).Rooted :=
  rooted.extended (file.extended rooted bytes) ⟨rfl, rfl⟩

theorem putBytes_same (file : tree.FileAt place) (apart : other ≠ place)
    (bytes inside : List UInt8) :
    (tree.putBytes place bytes).root.at? other = some (.file inside) ↔
      tree.root.at? other = some (.file inside) :=
  (file.room rooted).file_put (Node.file_leaf bytes) apart inside

theorem bytesAt_putBytes (file : tree.FileAt place) (bytes : List UInt8) :
    (tree.putBytes place bytes).bytesAt place = bytes :=
  bytesAt_file ((file.room rooted).put_self _)

theorem bytesAt_putBytes_other (file : tree.FileAt place) (apart : other ≠ place)
    (bytes : List UInt8) :
    (tree.putBytes place bytes).bytesAt other = tree.bytesAt other :=
  bytesAt_congr (putBytes_same rooted file apart bytes)

theorem FileAt.put (kept : tree.FileAt other) (file : tree.FileAt place) (bytes : List UInt8) :
    (tree.putBytes place bytes).FileAt other := by
  by_cases same : other = place
  · exact ⟨bytes, same ▸ (file.room rooted).put_self _⟩
  · exact ⟨_, (putBytes_same rooted file same bytes _).mpr kept.bytes⟩

theorem putBytes_comm (file : tree.FileAt place) (also : tree.FileAt other) (apart : other ≠ place)
    (first second : List UInt8) :
    (tree.putBytes place first).putBytes other second =
      (tree.putBytes other second).putBytes place first := by
  obtain ⟨above, below⟩ := Node.file_apart file.bytes (also.room rooted) apart
  simp only [putBytes, Node.put_comm file.bytes above below]

theorem locate_putBytes (file : tree.FileAt place) (bytes : List UInt8) (ending : Ending)
    (path : Path) : (tree.putBytes place bytes).locate ending path = tree.locate ending path := by
  rcases locate_extended rooted (file.extended rooted bytes) ⟨rfl, rfl⟩ ending path with
    same | ⟨free, _⟩
  · exact same
  · rw [file.bytes] at free
    cases free

omit rooted in
theorem put_putBytes (file : tree.FileAt place) (bytes : List UInt8) {directory : Location}
    {name : String} {new : Node} (room : tree.root.Room (directory ++ [name]))
    (free : tree.root.at? (directory ++ [name]) = none) :
    (tree.putBytes place bytes).root.put new (directory ++ [name]) =
      (tree.root.put new (directory ++ [name])).put (.file bytes) place := by
  have apart : directory ++ [name] ≠ place := by
    rintro same
    rw [same, file.bytes] at free
    cases free
  obtain ⟨above, below⟩ := Node.file_apart file.bytes room apart
  exact Node.put_comm file.bytes above below _ _

theorem makeDirectory_putBytes (file : tree.FileAt place) (bytes : List UInt8) (path : Path) :
    (tree.putBytes place bytes).makeDirectory path =
      (tree.makeDirectory path).map (·.putBytes place bytes) := by
  unfold makeDirectory
  rw [locate_putBytes rooted file]
  cases led : tree.locate .entry path with
  | error fault => rfl
  | ok target =>
    cases target with
    | found here | self here => rfl
    | free directory name =>
      obtain ⟨room, free⟩ := locate_free rooted led
      simp only [ok_bind, pure_ok, Except.map, put_putBytes file bytes room free]
      rfl

theorem outline_putBytes (file : tree.FileAt place) (bytes : List UInt8) (here : Location) :
    ((tree.putBytes place bytes).root.at? here).map Node.outline =
      (tree.root.at? here).map Node.outline := by
  by_cases same : here = place
  · subst same
    rw [file.bytes, (file.put rooted file bytes).bytes]
    rfl
  · exact (file.extended rooted bytes).elsewhere here same

theorem isDirectory_putBytes (file : tree.FileAt place) (bytes : List UInt8) (path : Path) :
    (tree.putBytes place bytes).isDirectory path = tree.isDirectory path := by
  unfold isDirectory check find
  rw [locate_putBytes rooted file]
  cases led : tree.locate .target path with
  | error fault => rfl
  | ok target =>
    cases target with
    | free directory name => rfl
    | found here | self here =>
      have outline := outline_putBytes rooted file bytes here
      simp only [ok_bind]
      cases before : tree.root.at? here with
      | none =>
        rw [before, Option.map_none, Option.map_eq_none_iff] at outline
        rw [outline]
      | some node =>
        rw [before] at outline
        obtain ⟨new, after, same⟩ := Option.map_eq_some_iff.mp outline
        rw [after]
        change Except.ok new.isDirectory = Except.ok node.isDirectory
        rw [← Node.isDirectory_outline new, same, Node.isDirectory_outline]

end Put

theorem makeDirectory_ok {tree after : FileTree} {path : Path}
    (made : tree.makeDirectory path = .ok after) :
    ∃ directory name, tree.locate .entry path = .ok (.free directory name) ∧
      after = { tree with root := tree.root.put (.directory []) (directory ++ [name]) } := by
  obtain ⟨target, led, made⟩ := bind_ok made
  cases target with
  | found here | self here => cases made
  | free directory name =>
    cases made
    exact ⟨directory, name, led, rfl⟩

theorem makeDirectory_grown {tree after : FileTree} (rooted : tree.Rooted) {path : Path}
    (made : tree.makeDirectory path = .ok after) (new : List Location) : Grown tree after new := by
  obtain ⟨directory, name, led, rfl⟩ := makeDirectory_ok made
  obtain ⟨room, free⟩ := locate_free rooted led
  exact .put room free Node.empty_leaf (fun _ => nofun) nofun

theorem openForWriting_ok {tree after : FileTree} {path : Path} {place : Location}
    (opened : tree.openForWriting path = .ok (place, after)) :
    tree.locate .written path = .ok (.found place) ∧ tree.FileAt place ∧ after = tree ∨
    ∃ directory name, tree.locate .written path = .ok (.free directory name) ∧
      place = directory ++ [name] ∧ after = tree.putBytes place [] := by
  obtain ⟨target, led, opened⟩ := bind_ok opened
  cases target with
  | self here => cases opened
  | free directory name =>
    cases opened
    exact .inr ⟨directory, name, led, rfl, rfl⟩
  | found here =>
    dsimp only at opened
    split at opened
    · rename_i bytes file
      cases opened
      exact .inl ⟨led, ⟨bytes, file⟩, rfl⟩
    · cases opened

section Opened

variable {tree after : FileTree} {path : Path} {place : Location} (rooted : tree.Rooted)
  (opened : tree.openForWriting path = .ok (place, after))

include rooted opened

theorem openForWriting_grown : Grown tree after [place] := by
  rcases openForWriting_ok opened with ⟨_, _, rfl⟩ | ⟨directory, name, led, rfl, rfl⟩
  · exact .refl _ _
  · obtain ⟨room, free⟩ := locate_free rooted led
    exact .put room free (Node.file_leaf []) (fun _ => nofun) (fun _ => List.mem_singleton_self _)

theorem openForWriting_file : after.FileAt place := by
  rcases openForWriting_ok opened with ⟨_, file, rfl⟩ | ⟨directory, name, led, rfl, rfl⟩
  · exact file
  · exact ⟨[], (locate_free rooted led).1.put_self _⟩

theorem openForWriting_bytes : after.bytesAt place = tree.bytesAt place := by
  rcases openForWriting_ok opened with ⟨_, _, rfl⟩ | ⟨directory, name, led, rfl, rfl⟩
  · rfl
  · obtain ⟨room, free⟩ := locate_free rooted led
    have before : tree.bytesAt (directory ++ [name]) = [] := by rw [bytesAt, free]
    rw [before]
    exact bytesAt_file (room.put_self (.file []))

/-- A file that was made for writing is found by every path that would have made it. -/
theorem openForWriting_shared {other : Path} {also : FileTree}
    (opens : tree.openForWriting other = .ok (place, also)) :
    after.locate .written other = .ok (.found place) := by
  have file := openForWriting_file rooted opened
  have grown := openForWriting_grown rooted opened
  rcases openForWriting_ok opened with ⟨_, standing, rfl⟩ | ⟨directory, name, led, rfl, rfl⟩
  · rcases openForWriting_ok opens with ⟨found, _, _⟩ | ⟨directory, name, free, rfl, _⟩
    · exact found
    · have nothing := (locate_free rooted free).2
      rw [standing.bytes] at nothing
      cases nothing
  · obtain ⟨room, free⟩ := locate_free rooted led
    have extended : Extended tree.root (tree.putBytes (directory ++ [name]) []).root
        (directory ++ [name]) :=
      room.extended (Node.file_leaf []) (fun _ => nofun) (.inl free)
    rcases locate_extended rooted extended ⟨rfl, rfl⟩ .written other with
      same | ⟨_, missing | found⟩
    · rcases openForWriting_ok opens with ⟨_, standing, _⟩ | ⟨_, _, empty, split, _⟩
      · rw [standing.bytes] at free
        cases free
      · rw [empty] at same
        have nothing := (locate_free (grown.rooted rooted) same).2
        rw [← split, file.bytes] at nothing
        cases nothing
    · rw [openForWriting, missing] at opens
      cases opens
    · obtain ⟨_, _, _, _, found⟩ := found
      exact found

theorem openForWriting_again : after.openForWriting path = .ok (place, after) := by
  have file := openForWriting_file rooted opened
  rw [openForWriting, openForWriting_shared rooted opened opened, ok_bind]
  dsimp only
  rw [file.bytes]
  rfl

theorem openForWriting_putBytes {other : Location} (file : tree.FileAt other) (bytes : List UInt8) :
    (tree.putBytes other bytes).openForWriting path = .ok (place, after.putBytes other bytes) := by
  rw [openForWriting, locate_putBytes rooted file]
  rcases openForWriting_ok opened with ⟨led, found, rfl⟩ | ⟨directory, name, led, rfl, rfl⟩
  · rw [led, ok_bind]
    dsimp only
    rw [(found.put rooted file bytes).bytes]
    rfl
  · rw [led, ok_bind]
    obtain ⟨room, free⟩ := locate_free rooted led
    dsimp only
    rw [put_putBytes file bytes room free]
    rfl

end Opened

end FileTree

end FluentCensus
