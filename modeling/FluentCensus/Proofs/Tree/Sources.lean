import FluentCensus.Proofs.Tree.Listing

namespace FluentCensus

namespace Path

def below (path : Path) (place : Location) : Path := { path with parts := path.parts ++ place }

def between (path other : Path) : List String := (other.parts.drop path.parts.length).dropLast

theorem below_child (path : Path) (name : String) (place : Location) :
    (path.child name).below place = path.below (name :: place) := by
  simp [below, child]

theorem below_inj {path : Path} {place other : Location}
    (same : path.below place = path.below other) : place = other :=
  List.append_cancel_left (congrArg Path.parts same)

theorem between_below (path : Path) (place : Location) :
    path.between (path.below place) = place.dropLast := by
  simp [between, below]

end Path

/-- The order of a walk: the files of a directory by name, then what is in its sub-directories, one
    sub-directory by name after the other. -/
def Precedes : Location → Location → Prop
  | [file], [other] => file < other
  | [_], _ :: _ :: _ => True
  | directory :: inner :: rest, other :: next :: others =>
    directory < other ∨ directory = other ∧ Precedes (inner :: rest) (next :: others)
  | _, _ => False

theorem Precedes.asymm {place other : Location} (before : Precedes place other) :
    ¬ Precedes other place := by
  fun_induction Precedes place other with
  | case1 file other => exact String.lt_asymm before
  | case2 => exact id
  | case3 directory inner rest other next others ih =>
    rintro (after | ⟨same, after⟩)
    · rcases before with less | ⟨rfl, _⟩
      · exact String.lt_asymm less after
      · exact String.lt_irrefl _ after
    · subst same
      rcases before with less | ⟨_, deeper⟩
      · exact String.lt_irrefl _ less
      · exact ih deeper after
  | case4 => contradiction

namespace FileTree

/-- At the place below the path stands a file of a walk: one reaches it through directories, none of
    them ignored, it is neither a directory nor a link to one, and it is named like a source. -/
def IsSource (tree : FileTree) (ignored : List String) (spelled : Path → Path)
    (path : Path) (node : Node) (place : Location) : Prop :=
  ∃ above name leaf, place = above ++ [name] ∧ node.at? place = some leaf ∧
    tree.leadsToDirectory (spelled (path.below place)) leaf = false ∧ isJava name = true ∧
    ∀ directory ∈ above, directory ∉ ignored

section IsSource

variable {tree : FileTree} {ignored : List String} {spelled : Path → Path} {path : Path}
  {node : Node}

theorem isSource_nil : ¬ tree.IsSource ignored spelled path node [] := by
  rintro ⟨above, name, _, empty, _⟩
  exact List.append_ne_nil_of_right_ne_nil above (List.cons_ne_nil name []) empty.symm

theorem isSource_single (name : String) :
    tree.IsSource ignored spelled path node [name] ↔ tree.takes spelled path node name = true := by
  have single : node.at? [name] = node.child? name := Node.at?_snoc node [] name
  rw [takes, Bool.and_eq_true, Option.any_eq_true]
  constructor
  · rintro ⟨above, last, leaf, same, found, solid, java, _⟩
    obtain ⟨rfl, rfl⟩ : above = [] ∧ last = name := by
      cases above <;> simp_all
    exact ⟨java, leaf, single.symm.trans found, by rw [Bool.not_eq_true']; exact solid⟩
  · rintro ⟨java, leaf, found, solid⟩
    exact ⟨[], name, leaf, rfl, single.trans found, (Bool.not_eq_true' _).mp solid, java,
      fun _ member => absurd member List.not_mem_nil⟩

theorem isSource_deeper (name next : String) (rest : Location) :
    tree.IsSource ignored spelled path node (name :: next :: rest) ↔ name ∉ ignored ∧
      ∃ child, node.child? name = some child ∧
        tree.IsSource ignored spelled (path.child name) child (next :: rest) := by
  constructor
  · rintro ⟨above, last, leaf, same, found, solid, java, entered⟩
    obtain ⟨inner, rfl⟩ : ∃ inner, above = name :: inner := by
      cases above with
      | nil => simp at same
      | cons first inner => exact ⟨inner, by rw [(List.cons.inj same).1]⟩
    obtain ⟨child, looked, below⟩ := Option.bind_eq_some_iff.mp found
    obtain ⟨unignored, deeper⟩ := List.forall_mem_cons.mp entered
    rw [← Path.below_child] at solid
    exact ⟨unignored, child, looked, inner, last, leaf, (List.cons.inj same).2, below, solid, java,
      deeper⟩
  · rintro ⟨entered, child, looked, above, last, leaf, same, found, solid, java, deeper⟩
    refine ⟨name :: above, last, leaf, ?_, ?_, ?_, java, List.forall_mem_cons.mpr ⟨entered, deeper⟩⟩
    · rw [same, List.cons_append]
    · rw [Node.at?, looked]
      exact found
    · rw [← Path.below_child]
      exact solid

theorem isSource_ignored (place : Location) : tree.IsSource ignored spelled path node place ↔
    tree.IsSource [] spelled path node place ∧
      ∀ directory ∈ place.dropLast, directory ∉ ignored := by
  constructor
  · rintro ⟨above, name, leaf, rfl, found, solid, java, entered⟩
    rw [List.dropLast_concat]
    exact ⟨⟨above, name, leaf, rfl, found, solid, java, fun _ _ => List.not_mem_nil⟩, entered⟩
  · rintro ⟨⟨above, name, leaf, rfl, found, solid, java, _⟩, entered⟩
    rw [List.dropLast_concat] at entered
    exact ⟨above, name, leaf, rfl, found, solid, java, entered⟩

end IsSource

structure Sources (tree : FileTree) (ignored : List String) (spelled : Path → Path)
    (path : Path) (node : Node) (places : List Location) : Prop where
  ordered : places.Pairwise Precedes
  complete : ∀ place, place ∈ places ↔ tree.IsSource ignored spelled path node place

namespace Sources

variable {tree : FileTree} {ignored : List String} {spelled : Path → Path} {path : Path}
  {node : Node}
  {places others : List Location}

theorem nodup (sources : tree.Sources ignored spelled path node places) : places.Nodup := by
  apply sources.ordered.imp
  rintro place _ before rfl
  exact before.asymm before

theorem unique (sources : tree.Sources ignored spelled path node places)
    (also : tree.Sources ignored spelled path node others) : places = others := by
  have same : places.Perm others := by
    rw [List.perm_ext_iff_of_nodup sources.nodup also.nodup]
    intro place
    rw [sources.complete, also.complete]
  exact same.eq_of_pairwise (fun _ _ _ _ before after => absurd after before.asymm)
    sources.ordered also.ordered

theorem filter (sources : tree.Sources [] spelled path node places) (ignored : List String) :
    tree.Sources ignored spelled path node
      (places.filter fun place => place.dropLast.all (· ∉ ignored)) := by
  refine ⟨sources.ordered.filter _, fun place => ?_⟩
  rw [List.mem_filter, sources.complete]
  refine Iff.trans ?_ (isSource_ignored place).symm
  simp

end Sources

section Walk

variable {tree : FileTree} {ignored : List String} {spelled : Path → Path} {path : Path}

/-- The places, below the entry of a name, of the sources that are not this entry itself. -/
structure SourcesBelow (tree : FileTree) (ignored : List String) (spelled : Path → Path)
    (path : Path) (node : Node) (name : String) (places : List Location) : Prop where
  ordered : places.Pairwise Precedes
  complete : ∀ place, place ∈ places ↔
    place ≠ [] ∧ tree.IsSource ignored spelled path node (name :: place)

theorem sourcesBelow_nil {node : Node} {name : String}
    (nothing : name ∈ ignored ∨ node.child? name = none) :
    SourcesBelow tree ignored spelled path node name [] := by
  refine ⟨.nil, fun place => iff_of_false List.not_mem_nil ?_⟩
  rintro ⟨deeper, source⟩
  obtain ⟨next, rest, rfl⟩ := List.exists_cons_of_ne_nil deeper
  obtain ⟨entered, child, found, _⟩ := (isSource_deeper name next rest).mp source
  rcases nothing with skip | missing
  · exact entered skip
  · rw [missing] at found
    contradiction

theorem Sources.below {node child : Node} {name : String} {places : List Location}
    (sources : tree.Sources ignored spelled (path.child name) child places)
    (entered : name ∉ ignored) (found : node.child? name = some child) :
    SourcesBelow tree ignored spelled path node name places := by
  refine ⟨sources.ordered, fun place => ?_⟩
  rw [sources.complete]
  cases place with
  | nil => exact iff_of_false isSource_nil fun deeper => deeper.1 rfl
  | cons next rest =>
    rw [isSource_deeper, found]
    simp [entered]

structure SourcesInside (tree : FileTree) (ignored : List String) (spelled : Path → Path)
    (path : Path) (node : Node) (names : List String) (places : List Location) : Prop where
  ordered : places.Pairwise Precedes
  complete : ∀ place, place ∈ places ↔ ∃ name ∈ names, ∃ next rest,
    place = name :: next :: rest ∧ tree.IsSource ignored spelled path node place

namespace SourcesInside

variable {node : Node}

theorem nil : SourcesInside tree ignored spelled path node [] [] := ⟨.nil, by simp⟩

theorem cons {name : String} {names : List String} {inner others : List Location}
    (later : ∀ other ∈ names, name < other)
    (first : SourcesBelow tree ignored spelled path node name inner)
    (rest : SourcesInside tree ignored spelled path node names others) :
    SourcesInside tree ignored spelled path node (name :: names)
      (inner.map (name :: ·) ++ others) := by
  have filled {place : Location} (member : place ∈ inner) : ∃ next rest, place = next :: rest :=
    List.exists_cons_of_ne_nil ((first.complete place).mp member).1
  refine ⟨List.pairwise_append.mpr ⟨?_, rest.ordered, ?_⟩, fun place => ?_⟩
  · rw [List.pairwise_map]
    apply first.ordered.imp_of_mem
    intro place other member also before
    obtain ⟨next, rest, rfl⟩ := filled member
    obtain ⟨last, more, rfl⟩ := filled also
    exact .inr ⟨rfl, before⟩
  · intro place member other also
    obtain ⟨deeper, among, rfl⟩ := List.mem_map.mp member
    obtain ⟨next, more, rfl⟩ := filled among
    obtain ⟨second, listed, _, _, rfl, _⟩ := (rest.complete other).mp also
    exact .inl (later second listed)
  · rw [List.mem_append, rest.complete, List.mem_map]
    constructor
    · rintro (⟨deeper, among, rfl⟩ | ⟨second, listed, found⟩)
      · obtain ⟨next, more, rfl⟩ := filled among
        exact ⟨name, List.mem_cons_self, next, more, rfl, ((first.complete _).mp among).2⟩
      · exact ⟨second, List.mem_cons_of_mem _ listed, found⟩
    · rintro ⟨second, listed, next, more, rfl, source⟩
      rcases List.mem_cons.mp listed with rfl | listed
      · exact .inl ⟨next :: more, (first.complete _).mpr ⟨List.cons_ne_nil _ _, source⟩, rfl⟩
      · exact .inr ⟨second, listed, next, more, rfl, source⟩

theorem of_each {names : List String} {found : List (List Path)}
    (ascending : names.Pairwise (· < ·))
    (each : List.Forall₂ (fun name files => ∃ places : List Location,
      files = places.map (path.child name).below ∧
        SourcesBelow tree ignored spelled path node name places) names found) :
    ∃ places : List Location, found.flatten = places.map path.below ∧
      SourcesInside tree ignored spelled path node names places := by
  induction each with
  | nil => exact ⟨[], rfl, .nil⟩
  | @cons name files names found first _ ih =>
    obtain ⟨later, ascending⟩ := List.pairwise_cons.mp ascending
    obtain ⟨inner, rfl, here⟩ := first
    obtain ⟨others, flat, rest⟩ := ih ascending
    refine ⟨inner.map (name :: ·) ++ others, ?_, .cons later here rest⟩
    rw [List.flatten_cons, flat, List.map_append, List.map_map]
    congr 1
    exact List.map_congr_left fun place _ => Path.below_child path name place

theorem withFiles (distinct : node.Distinct) {places : List Location}
    (inside : SourcesInside tree ignored spelled path node node.names places) :
    tree.Sources ignored spelled path node
      ((node.names.filter (tree.takes spelled path node)).map ([·]) ++ places) := by
  refine ⟨List.pairwise_append.mpr ⟨?_, inside.ordered, ?_⟩, fun place => ?_⟩
  · rw [List.pairwise_map]
    exact distinct.ascending.filter _
  · intro place member other also
    obtain ⟨name, _, rfl⟩ := List.mem_map.mp member
    obtain ⟨_, _, _, _, rfl, _⟩ := (inside.complete other).mp also
    trivial
  · have listed {name : String} {child : Node} (found : node.child? name = some child) :
        name ∈ node.names := Node.mem_names.mpr ⟨child, found⟩
    rw [List.mem_append, List.mem_map, inside.complete]
    constructor
    · rintro (⟨name, among, rfl⟩ | ⟨_, _, _, _, _, source⟩)
      · exact (isSource_single name).mpr (List.mem_filter.mp among).2
      · exact source
    · intro source
      match place with
      | [] => exact absurd source isSource_nil
      | [name] =>
        have taken := (isSource_single name).mp source
        obtain ⟨leaf, found, _⟩ := (Option.any_eq_true _ _).mp (Bool.and_eq_true_iff.mp taken).2
        exact .inl ⟨name, List.mem_filter.mpr ⟨listed found, taken⟩, rfl⟩
      | name :: next :: rest =>
        obtain ⟨_, child, found, _⟩ := (isSource_deeper name next rest).mp source
        exact .inr ⟨name, listed found, next, rest, rfl, source⟩

end SourcesInside

theorem sources_leaf {node : Node} (leaf : ∀ name, node.child? name = none) :
    tree.Sources ignored spelled path node [] := by
  refine ⟨.nil, fun place => iff_of_false List.not_mem_nil ?_⟩
  cases place with
  | nil => exact isSource_nil
  | cons name rest =>
    rintro ⟨_, _, _, _, found, _⟩
    rw [Node.at?, leaf] at found
    cases found

theorem walkBelow_sources {node : Node} {levels : Nat} {name : String} {files : List Path}
    (walked : tree.walkBelow ignored spelled levels path node name = .ok files)
    (deeper : ∀ child, node.child? name = some child →
      tree.walk isJava ignored spelled levels (path.child name) child = .ok files →
      ∃ places : List Location, files = places.map (path.child name).below ∧
        tree.Sources ignored spelled (path.child name) child places) :
    ∃ places : List Location, files = places.map (path.child name).below ∧
      SourcesBelow tree ignored spelled path node name places := by
  unfold walkBelow at walked
  by_cases skip : name ∈ ignored
  · rw [if_pos skip] at walked
    cases walked
    exact ⟨[], rfl, sourcesBelow_nil (.inl skip)⟩
  · rw [if_neg skip] at walked
    cases found : node.child? name with
    | none =>
      rw [found] at walked
      cases walked
      exact ⟨[], rfl, sourcesBelow_nil (.inr found)⟩
    | some child =>
      rw [found] at walked
      obtain ⟨places, rfl, sources⟩ := deeper child found walked
      exact ⟨places, rfl, sources.below skip found⟩

theorem walk_sources {node : Node} (distinct : node.Distinct) {levels : Nat} {files : List Path}
    (walked : tree.walk isJava ignored spelled levels path node = .ok files) :
    ∃ places : List Location, files = places.map path.below ∧
      tree.Sources ignored spelled path node places := by
  induction levels generalizing path node files with
  | zero =>
    cases node with
    | directory entries => cases walked
    | file bytes | link target =>
      cases walked
      exact ⟨[], rfl, sources_leaf fun _ => rfl⟩
  | succ levels ih =>
    cases node with
    | file bytes | link target =>
      cases walked
      exact ⟨[], rfl, sources_leaf fun _ => rfl⟩
    | directory entries =>
      rw [walk_names distinct.nodup] at walked
      obtain ⟨_, _, walked⟩ := bind_ok walked
      obtain ⟨found, ran, walked⟩ := bind_ok walked
      cases walked
      have each := (mapM_ok ran).imp fun name files below =>
        walkBelow_sources below fun child here found => ih (distinct.child here) found
      obtain ⟨places, flat, inside⟩ := SourcesInside.of_each distinct.ascending each
      refine ⟨_, ?_, inside.withFiles distinct⟩
      rw [flat, List.map_append, List.map_map]
      rfl

/-- The directories that a walk enters lie less than so many levels deep, and each can be listed
    under its path: it is not too long, and nothing bars it. -/
def Enterable (tree : FileTree) (ignored : List String) (spelled : Path → Path) (levels : Nat)
    (path : Path) (node : Node) : Prop :=
  ∀ above entries, node.at? above = some (.directory entries) →
    (∀ directory ∈ above, directory ∉ ignored) →
    above.length < levels ∧
      (spelled (path.below above)).toString.utf8ByteSize ≤ longestPath ∧
      tree.machine.bars .list (spelled (path.below above)) = none

theorem enterable_leaf {node : Node} (leaf : ∀ name, node.child? name = none)
    (solid : node.isDirectory = false) (levels : Nat) :
    tree.Enterable ignored spelled levels path node := by
  intro above entries found
  cases above with
  | nil =>
    obtain rfl : node = .directory entries := Option.some.inj found
    cases solid
  | cons name rest =>
    rw [Node.at?, leaf] at found
    cases found

theorem enterable_directory {entries : List (String × Node)} {levels : Nat} :
    tree.Enterable ignored spelled (levels + 1) path (.directory entries) ↔
      tree.allow .list (spelled path) = .ok () ∧
      ∀ name child, (Node.directory entries).child? name = some child → name ∉ ignored →
        tree.Enterable ignored spelled levels (path.child name) child := by
  have whole : path.below [] = path := by simp [Path.below]
  rw [allow_ok_iff]
  constructor
  · intro enterable
    refine ⟨?_, fun name child found entered above inner there unignored => ?_⟩
    · have here := (enterable [] entries rfl nofun).2
      rwa [whole] at here
    · have reached : (Node.directory entries).at? (name :: above) = some (.directory inner) := by
        rw [Node.at?, found]
        exact there
      obtain ⟨deep, allowed⟩ :=
        enterable (name :: above) inner reached (List.forall_mem_cons.mpr ⟨entered, unignored⟩)
      rw [Path.below_child]
      exact ⟨Nat.lt_of_succ_lt_succ deep, allowed⟩
  · rintro ⟨allowed, deeper⟩ above inner there unignored
    cases above with
    | nil =>
      rw [whole]
      exact ⟨Nat.succ_pos levels, allowed⟩
    | cons name above =>
      obtain ⟨child, found, below⟩ := Option.bind_eq_some_iff.mp there
      obtain ⟨entered, unignored⟩ := List.forall_mem_cons.mp unignored
      obtain ⟨deep, allowed⟩ := deeper name child found entered above inner below unignored
      rw [Path.below_child] at allowed
      exact ⟨Nat.succ_lt_succ deep, allowed⟩

theorem walkBelow_ok {node : Node} {levels : Nat} {name : String} :
    (∃ files, tree.walkBelow ignored spelled levels path node name = .ok files) ↔
      ∀ child, node.child? name = some child → name ∉ ignored →
        ∃ files, tree.walk isJava ignored spelled levels (path.child name) child = .ok files := by
  unfold walkBelow
  by_cases skip : name ∈ ignored
  · rw [if_pos skip]
    exact iff_of_true ⟨[], rfl⟩ fun _ _ entered => absurd skip entered
  · rw [if_neg skip]
    cases found : node.child? name with
    | none => exact iff_of_true ⟨[], rfl⟩ nofun
    | some child => simp [skip]

/-- A walk fails only at directories that it cannot enter. -/
theorem walk_ok {node : Node} (distinct : node.Distinct) {levels : Nat} :
    (∃ files, tree.walk isJava ignored spelled levels path node = .ok files) ↔
      tree.Enterable ignored spelled levels path node := by
  induction levels generalizing path node with
  | zero =>
    cases node with
    | directory entries =>
      refine iff_of_false ?_ fun enterable => ?_
      · rintro ⟨files, walked⟩
        cases walked
      · exact Nat.not_lt_zero _ (enterable [] entries rfl nofun).1
    | file bytes | link target =>
      exact iff_of_true ⟨[], rfl⟩ (enterable_leaf (fun _ => rfl) rfl 0)
  | succ levels ih =>
    cases node with
    | file bytes | link target =>
      exact iff_of_true ⟨[], rfl⟩ (enterable_leaf (fun _ => rfl) rfl (levels + 1))
    | directory entries =>
      have below (name : String) :
          (∃ files, tree.walkBelow ignored spelled levels path (.directory entries) name =
            .ok files) ↔
          ∀ child, (Node.directory entries).child? name = some child → name ∉ ignored →
            tree.Enterable ignored spelled levels (path.child name) child := by
        rw [walkBelow_ok]
        exact forall₂_congr fun child found => imp_congr_right fun _ => ih (distinct.child found)
      rw [walk_names distinct.nodup, enterable_directory]
      constructor
      · rintro ⟨files, walked⟩
        obtain ⟨_, allowed, walked⟩ := bind_ok walked
        obtain ⟨found, ran, _⟩ := bind_ok walked
        refine ⟨allowed, fun name child here => ?_⟩
        exact (below name).mp (mapM_ok_item ran name (Node.mem_names.mpr ⟨child, here⟩)) child here
      · rintro ⟨allowed, deeper⟩
        obtain ⟨found, ran⟩ : ∃ found, (Node.directory entries).names.mapM
            (tree.walkBelow ignored spelled levels path (.directory entries)) = .ok found :=
          mapM_ok_iff.mpr fun name _ => (below name).mpr (deeper name)
        exact ⟨_, by rw [allowed, ok_bind, ran]; rfl⟩

end Walk

end FileTree

end FluentCensus
