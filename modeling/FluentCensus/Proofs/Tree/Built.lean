import FluentCensus.Proofs.Tree.Later
import FluentCensus.Proofs.Tree.Sight

namespace FluentCensus

namespace Node

theorem put_apart {node new : Node} {place other : Location} (above : ¬ place <+: other)
    (below : ¬ other <+: place) : (node.put new place).at? other = node.at? other := by
  induction place generalizing node other with
  | nil => exact absurd List.nil_prefix above
  | cons name rest ih =>
    cases other with
    | nil => exact absurd List.nil_prefix below
    | cons first others =>
      rw [at?, at?]
      by_cases same : first = name
      · subst same
        cases found : node.child? first with
        | none =>
          cases node with
          | directory entries =>
            have above : ¬ rest <+: others := by simpa using above
            have below : ¬ others <+: rest := by simpa using below
            have listed : entries.lookup first = none := found
            obtain ⟨next, more, rfl⟩ : ∃ next more, others = next :: more := by
              cases others with
              | nil => exact absurd List.nil_prefix below
              | cons next more => exact ⟨next, more, rfl⟩
            simp only [put, child?, lookup_putEntry, if_true, listed, Option.getD_none,
              Option.bind_some, Option.bind_none]
            rw [ih above below]
            rfl
          | file bytes | link target => rfl
        | some child =>
          have above : ¬ rest <+: others := by simpa using above
          have below : ¬ others <+: rest := by simpa using below
          rw [put_child found]
          exact ih above below
      · rw [put_child_other same]

end Node

namespace FileTree

/-- The second file system has what the first one has, and the only files whose bytes may have
    changed are those at the given places. -/
structure Built (written : List Location) (tree after : FileTree) : Prop
    extends Later tree after where
  sight : ∀ path, after.sight path = tree.sight path ∨
    tree.sight path = .error (.refused .missing path)
  stands : ∀ {place}, tree.root.at? place ≠ none → after.root.at? place ≠ none
  file : ∀ {place bytes}, place ∉ written → tree.root.at? place = some (.file bytes) →
    after.root.at? place = some (.file bytes)
  /-- Where nothing is new and nothing is written below, all is as it was. -/
  inside : ∀ {place node}, tree.root.at? place = some node →
    (∀ spot ∈ written, ¬ place <+: spot) →
    (∀ below, place <+: below → after.root.at? below ≠ none → tree.root.at? below ≠ none) →
    after.root.at? place = some node

namespace Built

variable {written : List Location} {tree middle after : FileTree}

theorem refl (rooted : tree.Rooted) : Built written tree tree :=
  ⟨.refl rooted, fun _ => .inl rfl, id, fun _ => id, fun there _ _ => there⟩

theorem trans (first : Built written tree middle) (second : Built written middle after) :
    Built written tree after where
  toLater := first.toLater.trans second.toLater
  sight path := by
    rcases first.sight path with same | missing
    · rw [← same]
      exact second.sight path
    · exact .inr missing
  stands := second.stands ∘ first.stands
  file apart there := second.file apart (first.file apart there)
  inside := by
    intro place node there apart old
    have middle_there := first.inside there apart fun below within standing =>
      old below within (second.stands standing)
    exact second.inside middle_there apart fun below within standing =>
      first.stands (old below within standing)

theorem put {place : Location} {new : Node} (rooted : tree.Rooted) (room : tree.root.Room place)
    (leaf : ∀ name, new.child? name = none) (solid : ∀ target, new ≠ .link target)
    (old : tree.root.at? place = none ∨
      place ∈ written ∧ (tree.root.at? place).map Node.outline = some new.outline) :
    Built written tree { tree with root := tree.root.put new place } := by
  have extended : Extended tree.root (tree.root.put new place) place :=
    room.extended leaf solid (old.imp_right And.right)
  have standing : (tree.root.put new place).at? place = some new := room.put_self new
  have kept {other : Location} (file : tree.FileAt other) :
      ({ tree with root := tree.root.put new place } : FileTree).FileAt other := by
    obtain ⟨bytes, there⟩ := file
    by_cases same : other = place
    · rcases old with free | ⟨_, outline⟩
      · rw [← same, there] at free
        cases free
      · rw [← same, there] at outline
        cases new with
        | file bytes => exact ⟨bytes, same ▸ standing⟩
        | link target | directory entries => cases outline
    · exact ⟨bytes, (room.file_put leaf same bytes).mpr there⟩
  refine ⟨later_extended rooted extended ⟨rfl, rfl⟩ kept,
    sight_extended rooted extended ⟨rfl, rfl⟩, ?_, ?_, ?_⟩
  · intro other there nothing
    obtain ⟨node, found⟩ := Option.ne_none_iff_exists'.mp there
    have kept := extended.kept found
    rw [nothing] at kept
    cases kept
  · intro other bytes apart there
    refine (room.file_put leaf ?_ bytes).mpr there
    rintro rfl
    rcases old with free | ⟨member, _⟩
    · rw [free] at there
      cases there
    · exact apart member
  · intro other node there apart fresh
    have below : ¬ other <+: place := by
      intro within
      rcases old with free | ⟨member, _⟩
      · refine fresh place within ?_ free
        change (tree.root.put new place).at? place ≠ none
        rw [standing]
        exact Option.some_ne_none new
      · exact apart place member within
    have above : ¬ place <+: other := by
      intro within
      by_cases same : other = place
      · exact below (same ▸ List.prefix_refl place)
      · rw [Node.at?_below room.leaf within same] at there
        cases there
    exact (Node.put_apart above below).trans there

theorem makeDirectory {path : Path} (rooted : tree.Rooted)
    (made : tree.makeDirectory path = .ok after) : Built written tree after := by
  obtain ⟨directory, name, led, rfl⟩ := makeDirectory_ok made
  obtain ⟨room, free⟩ := locate_free rooted led
  exact .put rooted room Node.empty_leaf (fun _ => nofun) (.inl free)

theorem withDirectory {path : Path} (rooted : tree.Rooted)
    (made : tree.withDirectory path = .ok after) : Built written tree after := by
  rcases withDirectory_ok made with made | ⟨_, _, _, _, _, rfl⟩
  · exact .makeDirectory rooted made
  · exact .refl rooted

theorem withLevels {path : Path} {levels : Nat} (rooted : tree.Rooted)
    (made : tree.withLevels path levels = .ok after) : Built written tree after := by
  fun_induction FileTree.withLevels tree path levels generalizing after with
  | case1 path levels made_now attempt =>
    cases made
    exact .withDirectory rooted attempt
  | case2 path fault attempt missing => cases made
  | case3 path fault attempt missing levels ih =>
    obtain ⟨middle, above, made⟩ := bind_ok made
    have first := ih above
    exact first.trans (.withDirectory first.rooted made)
  | case4 path levels fault attempt other => cases made

theorem withDirectories {path : Path} (rooted : tree.Rooted)
    (made : tree.withDirectories path = .ok after) : Built written tree after :=
  withLevels rooted made

theorem openForWriting {path : Path} {place : Location} (rooted : tree.Rooted)
    (opened : tree.openForWriting path = .ok (place, after)) : Built written tree after := by
  rcases openForWriting_ok opened with ⟨_, _, rfl⟩ | ⟨directory, name, led, rfl, rfl⟩
  · exact .refl rooted
  · obtain ⟨room, free⟩ := locate_free rooted led
    exact .put rooted room (Node.file_leaf []) (fun _ => nofun) (.inl free)

theorem putBytes {place : Location} (rooted : tree.Rooted) (file : tree.FileAt place)
    (member : place ∈ written) (bytes : List UInt8) :
    Built written tree (tree.putBytes place bytes) := by
  refine .put rooted (file.room rooted) (Node.file_leaf bytes) (fun _ => nofun) (.inr ⟨member, ?_⟩)
  rw [file.bytes]
  rfl

/-- What was written to a file can be taken back. -/
theorem unput {place : Location} (rooted : tree.Rooted) (file : tree.FileAt place)
    (member : place ∈ written) (bytes : List UInt8) :
    Built written (tree.putBytes place bytes) tree := by
  have back := putBytes (rooted_putBytes rooted file bytes) (file.put rooted file bytes) member
    (tree.bytesAt place)
  rwa [putBytes_putBytes, file.putBytes_self] at back

end Built

def withFile (tree : FileTree) (path : Path) : Except Fault (Location × FileTree) := do
  (← tree.withDirectories path.parent).openForWriting path

section WithFile

variable {tree after : FileTree} {path : Path} {place : Location} {written : List Location}

theorem withFile_ok (made : tree.withFile path = .ok (place, after)) :
    ∃ above, tree.withDirectories path.parent = .ok above ∧
      above.openForWriting path = .ok (place, after) :=
  bind_ok made

theorem Built.withFile (rooted : tree.Rooted) (made : tree.withFile path = .ok (place, after)) :
    Built written tree after ∧ after.FileAt place := by
  obtain ⟨above, directory, opened⟩ := withFile_ok made
  have first : Built written tree above := .withDirectories rooted directory
  exact ⟨first.trans (.openForWriting first.rooted opened),
    openForWriting_file first.rooted opened⟩

theorem withFile_putBytes (rooted : tree.Rooted) {spot : Location} (file : tree.FileAt spot)
    (made : tree.withFile path = .ok (place, after)) (bytes : List UInt8) :
    (tree.putBytes spot bytes).withFile path = .ok (place, after.putBytes spot bytes) := by
  obtain ⟨above, directory, opened⟩ := withFile_ok made
  have grown := withDirectories_grown rooted directory []
  rw [FileTree.withFile, withDirectories_putBytes rooted file, directory]
  exact openForWriting_putBytes (grown.rooted rooted) opened (grown.fileAt file) bytes

end WithFile

end FileTree

end FluentCensus
