import FluentCensus.Proofs.Tree.Files

namespace FluentCensus.FileTree

/-- The path leads to a file at the place, be it through links. -/
structure Leads (tree : FileTree) (path : Path) (place : Location) : Prop where
  found : tree.locate .written path = .ok (.found place)
  file : tree.FileAt place

theorem Leads.opens {tree : FileTree} {path : Path} {place : Location}
    (leads : tree.Leads path place) : tree.openForWriting path = .ok (place, tree) := by
  obtain ⟨bytes, file⟩ := leads.file
  rw [openForWriting, leads.found, ok_bind]
  dsimp only
  rw [file]
  rfl

theorem Leads.unique {tree : FileTree} {path : Path} {place other : Location}
    (leads : tree.Leads path place) (also : tree.Leads path other) : other = place := by
  have same := also.found.symm.trans leads.found
  cases same
  rfl

/-- The second file system is one that the first may come to: paths still lead to the files to which
    they led. -/
structure Later (tree after : FileTree) : Prop where
  machine : after.machine = tree.machine
  rooted : after.Rooted
  leads : ∀ {path place}, tree.Leads path place → after.Leads path place

theorem Later.refl {tree : FileTree} (rooted : tree.Rooted) : Later tree tree :=
  ⟨rfl, rooted, id⟩

theorem Later.trans {tree middle after : FileTree} (first : Later tree middle)
    (second : Later middle after) : Later tree after :=
  ⟨second.machine.trans first.machine, second.rooted, second.leads ∘ first.leads⟩

structure Writes (paths : List Path) (tree after : FileTree) : Prop extends Later tree after where
  same : ∀ place, after.bytesAt place = tree.bytesAt place ∨ ∃ path ∈ paths, after.Leads path place

namespace Writes

variable {paths others : List Path} {tree middle after : FileTree}

theorem refl (paths : List Path) (rooted : tree.Rooted) : Writes paths tree tree :=
  ⟨.refl rooted, fun _ => .inl rfl⟩

theorem trans (first : Writes paths tree middle) (second : Writes paths middle after) :
    Writes paths tree after := by
  refine ⟨first.toLater.trans second.toLater, fun place => ?_⟩
  rcases second.same place with same | written
  · rcases first.same place with also | ⟨path, member, leads⟩
    · exact .inl (same.trans also)
    · exact .inr ⟨path, member, second.leads leads⟩
  · exact .inr written

theorem mono (writes : Writes paths tree after) (more : paths ⊆ others) :
    Writes others tree after := by
  refine ⟨writes.toLater, fun place => ?_⟩
  rcases writes.same place with same | ⟨path, member, leads⟩
  · exact .inl same
  · exact .inr ⟨path, more member, leads⟩

theorem elsewhere (writes : Writes paths tree after) {last : FileTree} (later : Later after last)
    {place : Location} (apart : ∀ path ∈ paths, ¬ last.Leads path place) :
    after.bytesAt place = tree.bytesAt place := by
  rcases writes.same place with same | ⟨path, member, leads⟩
  · exact same
  · exact absurd (later.leads leads) (apart path member)

end Writes

/-- The file holds the bytes, unless it will turn out that another path leads to it as well. -/
def Holds (tree : FileTree) (others : List Path) (place : Location) (bytes : List UInt8) : Prop :=
  ∀ last, Later tree last → (∀ other ∈ others, ¬ last.Leads other place) →
    tree.bytesAt place = bytes

theorem Holds.writes {tree after : FileTree} {others : List Path} {place : Location}
    {bytes : List UInt8} (holds : tree.Holds others place bytes)
    (writes : Writes others tree after) : after.Holds others place bytes := by
  intro last later apart
  rw [writes.elsewhere later apart]
  exact holds last (writes.toLater.trans later) apart

section Steps

variable {tree after : FileTree} (rooted : tree.Rooted)

include rooted

theorem later_extended {changed : FileTree} {spot : Location}
    (extended : Extended tree.root changed.root spot) (alike : tree.Alike changed)
    (kept : ∀ {place}, tree.FileAt place → changed.FileAt place) : Later tree changed := by
  refine ⟨alike.machine, rooted.extended extended alike,
    fun {path place} leads => ⟨?_, kept leads.file⟩⟩
  rcases locate_extended rooted extended alike .written path with equal | ⟨_, missing | free⟩
  · exact equal.trans leads.found
  · rw [leads.found] at missing
    cases missing
  · obtain ⟨_, _, _, free, _⟩ := free
    rw [leads.found] at free
    cases free

theorem put_writes {place : Location} {new : Node} (room : tree.root.Room place)
    (free : tree.root.at? place = none) (empty : new = .directory [] ∨ new = .file []) :
    Writes [] tree { tree with root := tree.root.put new place } := by
  have leaf : ∀ name, new.child? name = none := by
    rcases empty with rfl | rfl
    · exact Node.empty_leaf
    · exact Node.file_leaf []
  have solid : ∀ target, new ≠ .link target := by
    rcases empty with rfl | rfl <;> exact fun _ => nofun
  have grown : Grown tree _ [place] :=
    .put room free leaf solid fun _ => List.mem_singleton_self _
  refine ⟨later_extended rooted (room.extended leaf solid (.inl free)) ⟨rfl, rfl⟩ grown.fileAt, ?_⟩
  intro other
  left
  by_cases here : other = place
  · -- A new file or directory holds no more bytes than what was missing there.
    have before : tree.bytesAt place = [] := by rw [bytesAt, free]
    rw [here, before, bytesAt, room.put_self]
    rcases empty with rfl | rfl <;> rfl
  · exact bytesAt_congr (grown.same (by simpa using here))

theorem makeDirectory_writes {path : Path} (made : tree.makeDirectory path = .ok after) :
    Writes [] tree after := by
  obtain ⟨directory, name, led, rfl⟩ := makeDirectory_ok made
  obtain ⟨room, free⟩ := locate_free rooted led
  exact put_writes rooted room free (.inl rfl)

theorem openForWriting_writes {path : Path} {place : Location}
    (opened : tree.openForWriting path = .ok (place, after)) :
    Writes [] tree after ∧ after.Leads path place := by
  have leads : after.Leads path place :=
    ⟨openForWriting_shared rooted opened opened, openForWriting_file rooted opened⟩
  refine ⟨?_, leads⟩
  rcases openForWriting_ok opened with ⟨_, _, rfl⟩ | ⟨directory, name, led, rfl, rfl⟩
  · exact .refl [] rooted
  · obtain ⟨room, free⟩ := locate_free rooted led
    exact put_writes rooted room free (.inr rfl)

theorem Leads.putBytes {path : Path} {place : Location} (leads : tree.Leads path place)
    (bytes : List UInt8) : Writes [path] tree (tree.putBytes place bytes) := by
  have later : Later tree (tree.putBytes place bytes) :=
    later_extended rooted (leads.file.extended rooted bytes) ⟨rfl, rfl⟩
      fun file => file.put rooted leads.file bytes
  refine ⟨later, fun other => ?_⟩
  by_cases here : other = place
  · exact .inr ⟨path, List.mem_singleton_self path, here ▸ later.leads leads⟩
  · exact .inl (bytesAt_putBytes_other rooted leads.file here bytes)

theorem openForWriting_putBytes_error {path : Path} {place : Location} {fault : Fault}
    (file : tree.FileAt place) (closed : tree.openForWriting path = .error fault)
    (bytes : List UInt8) :
    (tree.putBytes place bytes).openForWriting path = .error fault := by
  have outline := outline_putBytes rooted file bytes
  unfold openForWriting at closed ⊢
  rw [locate_putBytes rooted file]
  cases led : tree.locate .written path with
  | error other =>
    rw [led] at closed
    exact closed
  | ok target =>
    rw [led, ok_bind] at closed
    rw [ok_bind]
    cases target with
    | free directory name => cases closed
    | self here => exact closed
    | found here =>
      have same := outline here
      dsimp only at closed ⊢
      cases before : tree.root.at? here with
      | none =>
        rw [before, Option.map_none, Option.map_eq_none_iff] at same
        rw [before] at closed
        rw [same]
        exact closed
      | some node =>
        rw [before] at same closed
        obtain ⟨new, after, alike⟩ := Option.map_eq_some_iff.mp same
        rw [after]
        cases node with
        | file inside => cases closed
        | directory entries | link target => cases new <;> first | exact closed | cases alike

end Steps

end FluentCensus.FileTree
