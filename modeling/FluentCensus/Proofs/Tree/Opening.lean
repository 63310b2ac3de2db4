import FluentCensus.Proofs.Tree.Resolve

namespace FluentCensus

@[simp] theorem ok_bind {ε α β : Type} (a : α) (next : α → Except ε β) :
    (Except.ok a >>= next) = next a := rfl

@[simp] theorem error_bind {ε α β : Type} (fault : ε) (next : α → Except ε β) :
    (Except.error fault >>= next) = .error fault := rfl

theorem bind_ok {ε α β : Type} {action : Except ε α} {next : α → Except ε β} {b : β}
    (ran : action >>= next = .ok b) : ∃ a, action = .ok a ∧ next a = .ok b := by
  cases action with
  | error fault => cases ran
  | ok a => exact ⟨a, rfl, ran⟩

theorem mapM_congr {ε α β : Type} {f g : α → Except ε β} {items : List α}
    (same : ∀ item ∈ items, f item = g item) : items.mapM f = items.mapM g := by
  induction items with
  | nil => rfl
  | cons head tail ih =>
    obtain ⟨first, rest⟩ := List.forall_mem_cons.mp same
    rw [List.mapM_cons, List.mapM_cons, first, ih rest]

theorem mapM_ok {ε α β : Type} {f : α → Except ε β} {items : List α} {results : List β}
    (mapped : items.mapM f = .ok results) :
    List.Forall₂ (fun item result => f item = .ok result) items results := by
  induction items generalizing results with
  | nil =>
    cases mapped
    exact .nil
  | cons head tail ih =>
    rw [List.mapM_cons] at mapped
    obtain ⟨result, first, mapped⟩ := bind_ok mapped
    obtain ⟨others, rest, mapped⟩ := bind_ok mapped
    cases mapped
    exact .cons first (ih rest)

theorem mapM_ok_item {ε α β : Type} {f : α → Except ε β} {items : List α} {results : List β}
    (mapped : items.mapM f = .ok results) : ∀ item ∈ items, ∃ result, f item = .ok result := by
  have each := mapM_ok mapped
  clear mapped
  induction each with
  | nil => exact fun _ => nofun
  | cons first rest ih => exact List.forall_mem_cons.mpr ⟨⟨_, first⟩, ih⟩

theorem mapM_ok_iff {ε α β : Type} {f : α → Except ε β} {items : List α} :
    (∃ results, items.mapM f = .ok results) ↔ ∀ item ∈ items, ∃ result, f item = .ok result := by
  refine ⟨fun ⟨_, mapped⟩ => mapM_ok_item mapped, fun each => ?_⟩
  induction items with
  | nil => exact ⟨[], rfl⟩
  | cons head tail ih =>
    obtain ⟨⟨result, first⟩, rest⟩ := List.forall_mem_cons.mp each
    obtain ⟨results, mapped⟩ := ih rest
    exact ⟨result :: results, by rw [List.mapM_cons, first, mapped]; rfl⟩

theorem mapM_ok_result {ε α β : Type} {f : α → Except ε β} {items : List α} {results : List β}
    (mapped : items.mapM f = .ok results) :
    ∀ result ∈ results, ∃ item ∈ items, f item = .ok result := by
  have each := mapM_ok mapped
  clear mapped
  induction each with
  | nil => exact fun _ => nofun
  | cons first rest ih =>
    refine List.forall_mem_cons.mpr ⟨⟨_, List.mem_cons_self, first⟩, fun result member => ?_⟩
    obtain ⟨item, among, same⟩ := ih result member
    exact ⟨item, List.mem_cons_of_mem _ among, same⟩

@[simp] theorem throw_error {ε α : Type} (fault : ε) :
    (throw fault : Except ε α) = .error fault := rfl

@[simp] theorem pure_ok {ε α : Type} (a : α) : (pure a : Except ε α) = .ok a := rfl

namespace Extended

theorem kept {root changed : Node} {place other : Location} {node : Node}
    (extended : Extended root changed place) (found : root.at? other = some node) :
    (changed.at? other).map Node.outline = some node.outline := by
  by_cases here : other = place
  · obtain ⟨new, standing, _, nothing | outline⟩ := extended.there
    · rw [here, nothing] at found
      cases found
    · rw [here] at found
      rw [here, standing, Option.map_some, ← outline, found]
      rfl
  · rw [extended.elsewhere other here, found]
    rfl

end Extended

namespace Node

theorem outline_of_bare (node : Option Node) : (node.map bare).map outline = node.map outline := by
  cases node with
  | none => rfl
  | some node => cases node <;> rfl

theorem Room.extended {root new : Node} {place : Location} (room : root.Room place)
    (leaf : ∀ name, new.child? name = none) (solid : ∀ target, new ≠ .link target)
    (old : root.at? place = none ∨ (root.at? place).map outline = some new.outline) :
    Extended root (root.put new place) place := by
  refine ⟨?_, new, room.put_self new, solid, old⟩
  intro other apart
  rw [← outline_of_bare, room.put_bare leaf, if_neg apart, outline_of_bare]

theorem file_leaf (bytes : List UInt8) (name : String) : (Node.file bytes).child? name = none := rfl

theorem empty_leaf (name : String) : (Node.directory []).child? name = none := rfl

theorem room_file {root : Node} (directory : root.isDirectory = true) {place : Location}
    {bytes : List UInt8} (file : root.at? place = some (.file bytes)) : root.Room place := by
  have filled : place ≠ [] := by
    rintro rfl
    obtain rfl : root = .file bytes := Option.some.inj file
    cases directory
  obtain ⟨above, name, rfl⟩ : ∃ above name, place = above ++ [name] :=
    ⟨_, _, (List.dropLast_concat_getLast filled).symm⟩
  have inside := file
  rw [at?_snoc] at inside
  obtain ⟨parent, reached, child⟩ := Option.bind_eq_some_iff.mp inside
  obtain ⟨entries, rfl, _⟩ := child?_some child
  refine ⟨⟨above, name, entries, rfl, reached⟩, ?_⟩
  intro entries
  rw [file]
  exact nofun

theorem file_apart {root : Node} {place other : Location} {bytes : List UInt8}
    (file : root.at? place = some (.file bytes)) (room : root.Room other) (apart : other ≠ place) :
    ¬ place <+: other ∧ ¬ other <+: place := by
  have leaf : ∀ entries, root.at? place ≠ some (.directory entries) := by
    intro entries
    rw [file]
    exact nofun
  constructor
  · intro above
    obtain ⟨directory, name, entries, rfl, inside⟩ := room.inside
    rcases List.prefix_concat_iff.mp above with same | within
    · exact apart same.symm
    · by_cases same : directory = place
      · exact leaf entries (same ▸ inside)
      · rw [at?_below leaf within same] at inside
        cases inside
  · intro below
    rw [at?_below room.leaf below apart.symm] at file
    cases file

end Node

namespace FileTree

def Rooted (tree : FileTree) : Prop :=
  ∃ entries, tree.root.at? tree.cwd = some (.directory entries)

theorem Rooted.directory {tree : FileTree} (rooted : tree.Rooted) :
    tree.root.isDirectory = true := by
  obtain ⟨entries, here⟩ := rooted
  exact (Trail.upTo_real here rfl).1.top

structure Alike (tree changed : FileTree) : Prop where
  cwd : changed.cwd = tree.cwd
  machine : changed.machine = tree.machine

theorem allow_congr {tree changed : FileTree} (same : changed.machine = tree.machine)
    (access : Access) (path : Path) : changed.allow access path = tree.allow access path := by
  unfold allow
  rw [same]

theorem allow_ok_iff {tree : FileTree} {access : Access} {path : Path} :
    tree.allow access path = .ok () ↔
      path.toString.utf8ByteSize ≤ longestPath ∧ tree.machine.bars access path = none := by
  unfold allow
  by_cases long : longestPath < path.toString.utf8ByteSize
  · simp only [if_pos long, reduceCtorEq, false_iff]
    omega
  · rw [if_neg long]
    cases tree.machine.bars access path
    · simp
      omega
    · simp

theorem Rooted.extended {tree changed : FileTree} {place : Location} (rooted : tree.Rooted)
    (extended : Extended tree.root changed.root place) (alike : tree.Alike changed) :
    changed.Rooted := by
  obtain ⟨entries, here⟩ := rooted
  have outline := extended.kept here
  rw [← alike.cwd] at outline
  obtain ⟨node, standing, kind⟩ := Option.map_eq_some_iff.mp outline
  cases node with
  | directory entries => exact ⟨entries, standing⟩
  | file bytes | link target => cases kind

def startOf (tree : FileTree) (path : Path) : Trail :=
  if path.anchor = .relative then Trail.upTo tree.root tree.cwd else []

theorem startOf_real {tree : FileTree} (rooted : tree.Rooted) (path : Path) :
    (tree.startOf path).Real tree.root := by
  obtain ⟨entries, here⟩ := rooted
  have real := (Trail.upTo_real here rfl).1
  unfold startOf
  split
  · exact real
  · exact real.top

theorem startOf_twins {tree changed : FileTree} (rooted : tree.Rooted) (after : changed.Rooted)
    (alike : tree.Alike changed) (path : Path) :
    Trail.Twins tree.root changed.root (tree.startOf path) (changed.startOf path) := by
  refine ⟨startOf_real rooted path, startOf_real after path, ?_⟩
  obtain ⟨entries, here⟩ := rooted
  obtain ⟨others, there⟩ := after
  unfold startOf
  split
  · rw [(Trail.upTo_real here rfl).2, (Trail.upTo_real there rfl).2, alike.cwd]
  · rfl

theorem locate_eq (tree : FileTree) (ending : Ending) (path : Path) :
    tree.locate ending path =
      if '\x00' ∈ path.toString.toList then .error .nulCharacter
      else tree.allow ending.access path >>= fun _ =>
        (resolve tree.root ending mostLinks (tree.startOf path) path.parts).mapError
          (.refused · path) := by
  by_cases unusable : '\x00' ∈ path.toString.toList
  · simp only [locate, if_pos unusable, throw_error, error_bind]
  · simp only [locate, if_neg unusable]
    cases tree.allow ending.access path with
    | error fault => rfl
    | ok _ =>
      simp only [ok_bind, startOf]
      split <;> rename_i led <;> rw [led] <;> rfl

theorem locate_extended {tree changed : FileTree} {place : Location} (rooted : tree.Rooted)
    (extended : Extended tree.root changed.root place) (alike : tree.Alike changed)
    (ending : Ending) (path : Path) :
    changed.locate ending path = tree.locate ending path ∨
    tree.root.at? place = none ∧ (tree.locate ending path = .error (.refused .missing path) ∨
      ∃ directory name, place = directory ++ [name] ∧
        tree.locate ending path = .ok (.free directory name) ∧
        changed.locate ending path = .ok (.found place)) := by
  rw [locate_eq, locate_eq, allow_congr alike.machine]
  split
  · exact .inl rfl
  · cases tree.allow ending.access path with
    | error fault => exact .inl rfl
    | ok _ =>
      simp only [ok_bind]
      have twins := startOf_twins rooted (rooted.extended extended alike) alike path
      rcases resolve_extended extended ending mostLinks path.parts twins with equal | ⟨free, stuck⟩
      · left
        rw [equal]
      · refine .inr ⟨free, ?_⟩
        rcases stuck with missing | ⟨directory, name, split, before, after⟩
        · left
          rw [missing]
          rfl
        · right
          refine ⟨directory, name, split, ?_, ?_⟩
          · rw [before]
            rfl
          · rw [after]
            rfl

/-- A free entry is in a directory, where nothing of its name is yet. -/
theorem resolve_free {root : Node} {ending : Ending} {links : Nat} {trail : Trail}
    {steps : List String} {directory : Location} {name : String} (real : trail.Real root)
    (free : resolve root ending links trail steps = .ok (.free directory name)) :
    (∃ entries, root.at? directory = some (.directory entries)) ∧
      root.at? (directory ++ [name]) = none := by
  fun_induction resolve root ending links trail steps with
  | case2 links trail step rest still ih => exact ih real free
  | case3 links trail rest moves ih => exact ih real.tail free
  | case6 links trail step rest moves down written long nothing last =>
    cases free
    have nothing_there := real.child name
    rw [nothing] at nothing_there
    obtain ⟨here, kind⟩ := real.at?
    refine ⟨?_, nothing_there.symm⟩
    cases standing : trail.node root with
    | directory entries => exact ⟨entries, standing ▸ here⟩
    | file bytes | link target =>
      rw [standing] at kind
      cases kind
  | case10 trail step rest moves down written long target link follow links start =>
    rename_i ih
    refine ih ?_ free
    by_cases absolute : target.startsWith "/"
    · simp only [start, dif_pos absolute]
      exact real.top
    · simp only [start, absolute]
      exact real
  | case12 links trail step rest moves down written long node solid found more directory ih =>
    exact ih (real.push found directory) free
  | case1 | case4 | case5 | case7 | case8 | case9 | case11 | case13 => cases free

theorem locate_free {tree : FileTree} (rooted : tree.Rooted) {ending : Ending} {path : Path}
    {directory : Location} {name : String}
    (free : tree.locate ending path = .ok (.free directory name)) :
    tree.root.Room (directory ++ [name]) ∧ tree.root.at? (directory ++ [name]) = none := by
  rw [locate_eq] at free
  split at free
  · cases free
  · cases short : tree.allow ending.access path with
    | error fault =>
      rw [short] at free
      cases free
    | ok _ =>
      rw [short, ok_bind] at free
      cases led : resolve tree.root ending mostLinks (tree.startOf path) path.parts with
      | error refusal =>
        rw [led] at free
        cases free
      | ok target =>
        rw [led] at free
        cases free
        obtain ⟨⟨entries, inside⟩, nothing⟩ := resolve_free (startOf_real rooted path) led
        refine ⟨⟨⟨directory, name, entries, rfl, inside⟩, ?_⟩, nothing⟩
        intro entries
        rw [nothing]
        exact nofun

theorem read_ok_iff {tree : FileTree} {path : Path} {bytes : List UInt8} :
    tree.read path = .ok bytes ↔
      (∃ place, tree.find path = .ok (place, .file bytes)) ∧ tree.allow .read path = .ok () := by
  constructor
  · intro read
    obtain ⟨⟨place, node⟩, found, read⟩ := bind_ok read
    obtain ⟨_, allowed, read⟩ := bind_ok read
    cases node with
    | file inside =>
      cases read
      exact ⟨⟨place, found⟩, allowed⟩
    | directory entries | link target => cases read
  · rintro ⟨⟨place, found⟩, allowed⟩
    rw [read, found, ok_bind]
    dsimp only
    rw [allowed]
    rfl

theorem isFile_read {tree : FileTree} {path : Path} {bytes : List UInt8}
    (read : tree.read path = .ok bytes) : tree.isFile path = .ok true := by
  obtain ⟨⟨place, found⟩, _⟩ := read_ok_iff.mp read
  rw [isFile, check, found]
  rfl

end FileTree

end FluentCensus
