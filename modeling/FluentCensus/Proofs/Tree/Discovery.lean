import FluentCensus.Proofs.Tree.Sources
import Mathlib

namespace FluentCensus.FileTree

theorem Enterable.ignoring {tree : FileTree} {spelled : Path → Path} {levels : Nat} {path : Path}
    {node : Node} (enterable : tree.Enterable [] spelled levels path node)
    (ignored : List String) : tree.Enterable ignored spelled levels path node :=
  fun above entries found _ => enterable above entries found fun _ _ => List.not_mem_nil

theorem walk_ignored {tree : FileTree} {spelled : Path → Path} {path : Path} {node : Node}
    (distinct : node.Distinct) {levels : Nat} {all : List Path}
    (walked : tree.walk isJava [] spelled levels path node = .ok all) (ignored : List String) :
    tree.walk isJava ignored spelled levels path node =
      .ok (all.filter fun file => (path.between file).all (· ∉ ignored)) := by
  obtain ⟨files, pruned⟩ :=
    (walk_ok distinct).mpr (((walk_ok distinct).mp ⟨all, walked⟩).ignoring ignored)
  obtain ⟨places, rfl, every⟩ := walk_sources distinct walked
  obtain ⟨others, rfl, left⟩ := walk_sources distinct pruned
  have kept (place : Location) : ((fun file => (path.between file).all (· ∉ ignored)) ∘ path.below)
      place = place.dropLast.all (· ∉ ignored) :=
    congrArg (·.all (· ∉ ignored)) (Path.between_below path place)
  rw [pruned, left.unique (every.filter ignored), List.filter_map,
    List.filter_congr fun place _ => kept place]

/-- The search for source files succeeds unless it comes to a directory that it cannot enter. It
    then finds every source once, in the order of a walk, whatever the order in which the
    directories are listed; and ignoring directories only leaves out the files below them. -/
theorem javaFiles_sources {tree : FileTree} (rooted : tree.Rooted) (distinct : tree.root.Distinct)
    {project : Path} {place : Location} {entries : List (String × Node)}
    (found : tree.find project = .ok (place, .directory entries)) (ignored : List String) :
    ((∃ files, tree.javaFiles ignored project = .ok files) ↔
      tree.Enterable ignored (spelling project) tree.machine.nesting project
        (.directory entries)) ∧
    (∀ files, tree.javaFiles ignored project = .ok files → files.Nodup ∧
      ∃ places : List Location, files = places.map project.below ∧ places.Pairwise Precedes ∧
        ∀ source, source ∈ places ↔
          tree.IsSource ignored (spelling project) project (.directory entries) source) ∧
    (∀ all, tree.javaFiles [] project = .ok all → tree.javaFiles ignored project =
      .ok (all.filter fun file => (project.between file).all (· ∉ ignored))) ∧
    ∀ other, Relisted tree other →
      other.javaFiles ignored project = tree.javaFiles ignored project := by
  have inside : (Node.directory entries).Distinct := distinct.at? (find_at? found)
  refine ⟨?_, ?_, ?_, fun other relisted => relisted.javaFiles rooted found ignored⟩
  · rw [javaFiles_directory found]
    exact walk_ok inside
  · intro files listed
    rw [javaFiles_directory found] at listed
    obtain ⟨places, rfl, sources⟩ := walk_sources inside listed
    have once : (places.map project.below).Nodup := sources.nodup.map fun _ _ => Path.below_inj
    exact ⟨once, places, rfl, sources.ordered, sources.complete⟩
  · intro all listed
    rw [javaFiles_directory found] at listed ⊢
    exact walk_ignored inside listed ignored

def builtEntries : List (String × Node) :=
  [("target", .directory [("Z.java", .file [])]), ("b.java", .link "target"),
    ("a", .directory [("A.java", .file [])])]

def builtTree : FileTree where
  root := .directory [("p", .directory builtEntries)]

theorem enterable_built :
    builtTree.Enterable ["target"] (spelling ⟨.relative, ["p"]⟩) builtTree.machine.nesting
      ⟨.relative, ["p"]⟩ (.directory builtEntries) := by
  refine enterable_directory.mpr ⟨rfl, fun name child found unignored => ?_⟩
  have listed := Node.mem_of_lookup found
  simp only [builtEntries, List.mem_cons, Prod.mk.injEq, List.not_mem_nil, or_false] at listed
  rcases listed with ⟨rfl, rfl⟩ | ⟨rfl, rfl⟩ | ⟨rfl, rfl⟩
  · exact absurd List.mem_cons_self unignored
  · exact enterable_leaf (fun _ => rfl) rfl _
  · refine enterable_directory.mpr ⟨rfl, fun name child found _ => ?_⟩
    obtain ⟨rfl, rfl⟩ := Prod.mk.inj (List.mem_singleton.mp (Node.mem_of_lookup found))
    exact enterable_leaf (fun _ => rfl) rfl _

theorem javaFiles_sources_built :
    builtTree.Rooted ∧ builtTree.root.Distinct ∧
    builtTree.find ⟨.relative, ["p"]⟩ = .ok (["p"], .directory builtEntries) ∧
    ∃ files, builtTree.javaFiles ["target"] ⟨.relative, ["p"]⟩ = .ok files ∧ files.Nodup ∧
      ⟨.relative, ["p", "a", "A.java"]⟩ ∈ files ∧
      ⟨.relative, ["p", "target", "Z.java"]⟩ ∉ files := by
  have rooted : builtTree.Rooted := ⟨_, rfl⟩
  have distinct : builtTree.root.Distinct := by
    simp [builtTree, builtEntries, Node.distinct_directory, Node.Distinct.file, Node.Distinct.link]
  have found : builtTree.find ⟨.relative, ["p"]⟩ = .ok (["p"], .directory builtEntries) := by cbv
  obtain ⟨entered, every, _⟩ := javaFiles_sources rooted distinct found ["target"]
  obtain ⟨files, listed⟩ := entered.mpr enterable_built
  obtain ⟨once, places, rfl, _, complete⟩ := every files listed
  refine ⟨rooted, distinct, found, _, listed, once, ?_, fun skipped => ?_⟩
  · exact List.mem_map_of_mem ((complete ["a", "A.java"]).mpr
      ⟨["a"], "A.java", .file [], rfl, by cbv, rfl, by decide, by decide⟩)
  · obtain ⟨place, listed, same⟩ := List.mem_map.mp skipped
    obtain rfl : place = ["target", "Z.java"] := List.cons_injective (congrArg Path.parts same)
    have unignored := ((isSource_ignored _).mp ((complete _).mp listed)).2
    exact unignored "target" List.mem_cons_self List.mem_cons_self

/-- So many times into a directory and out again, then into it and on from there. -/
def winding (inside : List String) : Nat → List String
  | 0 => "d" :: inside
  | turns + 1 => "d" :: ".." :: winding inside turns

section Winding

variable {inside : List String}

theorem winding_text (turns : Nat) : "/".intercalate (winding inside (turns + 1)) =
    "d/../" ++ "/".intercalate (winding inside turns) := by
  obtain ⟨next, rest, more⟩ : ∃ next rest, winding inside turns = next :: rest := by
    cases turns <;> exact ⟨_, _, rfl⟩
  rw [winding, more, String.intercalate_cons_cons, String.intercalate_cons_cons]
  simp only [← String.append_assoc]
  rfl

theorem winding_toString (turns : Nat) :
    Path.toString ⟨.relative, winding inside turns⟩ = "/".intercalate (winding inside turns) := by
  have some_parts : ¬ (winding inside turns).isEmpty := by
    cases turns <;> exact Bool.false_ne_true
  rw [Path.toString, if_neg fun empty => some_parts empty.2]
  exact String.empty_append

theorem winding_size (turns : Nat) :
    (Path.toString ⟨.relative, winding inside turns⟩).utf8ByteSize =
      5 * turns + ("/".intercalate ("d" :: inside)).utf8ByteSize := by
  rw [winding_toString]
  induction turns with
  | zero => exact (Nat.zero_add _).symm
  | succ turns ih =>
    have step : "d/../".utf8ByteSize = 5 := rfl
    rw [winding_text, String.utf8ByteSize_append, ih, step]
    omega

theorem winding_visible (turns : Nat) :
    '\x00' ∉ (Path.toString ⟨.relative, winding [] turns⟩).toList := by
  rw [winding_toString]
  induction turns with
  | zero => decide
  | succ turns ih =>
    rw [winding_text, String.toList_append, List.mem_append]
    exact not_or_intro (by decide) ih

theorem resolve_winding {root : Node} {entries : List (String × Node)}
    (here : root.child? "d" = some (.directory entries)) (links turns : Nat) :
    resolve root .target links [] (winding [] turns) = .ok (.found ["d"]) := by
  have down : (Trail.node [] root).child? "d" = some (.directory entries) := here
  have short : ¬ longestName < "d".utf8ByteSize := by decide
  have directory : (Node.directory entries).isDirectory = true := rfl
  induction turns with
  | zero =>
    rw [winding, resolve, if_neg (by decide), if_neg (by decide), if_neg (by decide), if_neg short,
      down]
    rfl
  | succ turns ih =>
    rw [winding, resolve, if_neg (by decide), if_neg (by decide), if_neg (by simp), if_neg short,
      down]
    simp only [List.isEmpty_cons, Bool.false_eq_true, if_false, directory, if_true]
    rw [resolve, if_neg (by decide), if_pos rfl]
    exact ih

end Winding

def nestedEntries (inner : List (String × Node)) : List (String × Node) :=
  [("subdirlong", .directory inner)]

def nestedTree (machine : Machine) (inner : List (String × Node)) : FileTree where
  root := .directory [("d", .directory (nestedEntries inner))]
  machine

def nearPath : Path := ⟨.relative, ["d"]⟩

def farPath : Path := ⟨.relative, winding [] 817⟩

def barringMachine : Machine where
  bars access path := if access = .list ∧ path.name = "subdirlong" then some .denied else none

theorem farPath_below (name : String) : (farPath.below [name]).toString.utf8ByteSize =
    4085 + ("/".intercalate ["d", name]).utf8ByteSize := by
  have snoc (turns : Nat) : winding [] turns ++ [name] = winding [name] turns := by
    induction turns with
    | zero => rfl
    | succ turns ih => exact congrArg ("d" :: ".." :: ·) ih
  rw [Path.below, farPath, snoc, winding_size]

theorem find_far (inner : List (String × Node)) :
    (nestedTree {} inner).find farPath = .ok (["d"], .directory (nestedEntries inner)) := by
  have short : farPath.toString.utf8ByteSize ≤ longestPath := by
    rw [farPath, winding_size]
    decide
  have visible : '\x00' ∉ farPath.toString.toList := winding_visible 817
  have led : (nestedTree {} inner).locate .target farPath = .ok (.found ["d"]) := by
    rw [locate_eq, if_neg visible, allow_ok_iff.mpr ⟨short, rfl⟩]
    exact congrArg (Except.mapError _) (resolve_winding rfl mostLinks 817)
  rw [find, led]
  rfl

structure Closes (machine : Machine) (project : Path) : Prop where
  found : ∀ inner, (nestedTree machine inner).find project =
    .ok (["d"], .directory (nestedEntries inner))
  closed : ¬ (1 < machine.nesting ∧
    (spelling project (project.below ["subdirlong"])).toString.utf8ByteSize ≤ longestPath ∧
    machine.bars .list (spelling project (project.below ["subdirlong"])) = none)

theorem closes_deep : Closes { nesting := 1 } nearPath where
  found _ := by cbv
  closed entered := Nat.lt_irrefl 1 entered.1

theorem closes_far : Closes {} farPath where
  found := find_far
  closed entered := by
    have short := entered.2.1
    have plain : spelling farPath (farPath.below ["subdirlong"]) = farPath.below ["subdirlong"] :=
      rfl
    rw [plain, farPath_below] at short
    revert short
    decide

theorem closes_barring : Closes barringMachine nearPath where
  found _ := by cbv
  closed entered := by
    have allowed := entered.2.2
    revert allowed
    decide

theorem Closes.unlisted {machine : Machine} {project : Path} (closes : Closes machine project)
    {inner : List (String × Node)} (distinct : (Node.directory inner).Distinct)
    (files : List Path) : (nestedTree machine inner).javaFiles [] project ≠ .ok files := by
  intro listed
  have outer : (Node.directory (nestedEntries inner)).Distinct := by
    simp [nestedEntries, Node.distinct_directory, distinct]
  rw [javaFiles_directory (closes.found inner)] at listed
  exact closes.closed ((walk_ok outer).mp ⟨files, listed⟩ ["subdirlong"] inner rfl
    fun _ _ => List.not_mem_nil)

structure Lost (tree : FileTree) (project : Path) : Prop where
  source : ∃ place entries source, tree.find project = .ok (place, .directory entries) ∧
    tree.IsSource [] (spelling project) project (.directory entries) source
  failed : ∀ files, tree.javaFiles [] project ≠ .ok files

theorem Closes.lost {machine : Machine} {project : Path} (closes : Closes machine project) :
    Lost (nestedTree machine [("C.java", .file [99, 40, 41])]) project where
  source := ⟨["d"], _, ["subdirlong", "C.java"], closes.found _, ["subdirlong"], "C.java",
    .file [99, 40, 41], rfl, rfl, rfl, by decide, fun _ _ => List.not_mem_nil⟩
  failed := closes.unlisted (by simp [Node.distinct_directory, Node.Distinct.file])

/-- A search is lost where a directory lies too deep, has too long a path or may not be listed. -/
theorem javaFiles_lost :
    Lost (nestedTree { nesting := 1 } [("C.java", .file [99, 40, 41])]) nearPath ∧
    Lost (nestedTree {} [("C.java", .file [99, 40, 41])]) farPath ∧
    Lost (nestedTree barringMachine [("C.java", .file [99, 40, 41])]) nearPath :=
  ⟨closes_deep.lost, closes_far.lost, closes_barring.lost⟩

end FluentCensus.FileTree
