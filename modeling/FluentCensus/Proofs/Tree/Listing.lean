import FluentCensus.Proofs.Tree.Sight
import Mathlib.Data.List.Nodup

namespace FluentCensus

namespace Node

inductive Distinct : Node → Prop
  | file (bytes : List UInt8) : Distinct (.file bytes)
  | link (target : String) : Distinct (.link target)
  | directory {entries : List (String × Node)} (names : (entries.map Prod.fst).Nodup)
      (each : ∀ e ∈ entries, Distinct e.2) : Distinct (.directory entries)

theorem lookup_of_mem {entries : List (String × Node)} (names : (entries.map Prod.fst).Nodup)
    {name : String} {node : Node} (member : (name, node) ∈ entries) :
    entries.lookup name = some node := by
  induction entries with
  | nil => cases member
  | cons entry entries ih =>
    obtain ⟨first, old⟩ := entry
    obtain ⟨absent, rest⟩ := List.nodup_cons.mp names
    rw [lookup_entry]
    rcases List.mem_cons.mp member with same | later
    · cases same
      exact if_pos rfl
    · have apart : name ≠ first := by
        rintro rfl
        exact absent (List.mem_map.mpr ⟨_, later, rfl⟩)
      rw [if_neg apart, ih rest later]

theorem mem_of_lookup {entries : List (String × Node)} {name : String} {node : Node}
    (listed : entries.lookup name = some node) : (name, node) ∈ entries := by
  obtain ⟨before, after, rfl, _⟩ := List.lookup_eq_some_iff.mp listed
  exact List.mem_append_right before List.mem_cons_self

theorem distinct_directory {entries : List (String × Node)} : (Node.directory entries).Distinct ↔
    (entries.map Prod.fst).Nodup ∧ ∀ e ∈ entries, e.2.Distinct := by
  refine ⟨fun distinct => ?_, fun ⟨names, each⟩ => .directory names each⟩
  cases distinct with
  | directory names each => exact ⟨names, each⟩

namespace Distinct

theorem nodup {entries : List (String × Node)} (distinct : (Node.directory entries).Distinct) :
    (entries.map Prod.fst).Nodup :=
  (distinct_directory.mp distinct).1

theorem child {node child : Node} (distinct : node.Distinct) {name : String}
    (found : node.child? name = some child) : child.Distinct := by
  cases distinct with
  | file bytes | link target => cases found
  | directory names each => exact each _ (mem_of_lookup found)

theorem at? {node inner : Node} (distinct : node.Distinct) {place : Location}
    (found : node.at? place = some inner) : inner.Distinct := by
  induction place generalizing node with
  | nil => exact Option.some.inj found ▸ distinct
  | cons name rest ih =>
    obtain ⟨next, looked, below⟩ := Option.bind_eq_some_iff.mp found
    exact ih (distinct.child looked) below

end Distinct

def names : Node → List String
  | .directory entries => (entries.map Prod.fst).mergeSort (· ≤ ·)
  | _ => []

theorem mem_names {node : Node} {name : String} :
    name ∈ node.names ↔ ∃ child, node.child? name = some child := by
  cases node with
  | file bytes | link target => simp [names, child?]
  | directory entries =>
    rw [names, List.mem_mergeSort]
    constructor
    · intro listed
      obtain ⟨e, member, rfl⟩ := List.mem_map.mp listed
      exact Option.isSome_iff_exists.mp (List.lookup_isSome_iff.mpr ⟨e, member, BEq.rfl⟩)
    · rintro ⟨child, found⟩
      exact List.mem_map.mpr ⟨_, mem_of_lookup found, rfl⟩

theorem sort_sorted (names : List String) :
    (names.mergeSort (· ≤ ·)).Pairwise (· ≤ ·) := by
  have trans (a b c : String) (first : decide (a ≤ b) = true) (second : decide (b ≤ c) = true) :
      decide (a ≤ c) = true :=
    decide_eq_true (String.le_trans (of_decide_eq_true first) (of_decide_eq_true second))
  have total (a b : String) : (decide (a ≤ b) || decide (b ≤ a)) = true := by
    rw [Bool.or_eq_true, decide_eq_true_iff, decide_eq_true_iff]
    exact String.le_total a b
  exact (List.pairwise_mergeSort trans total names).imp of_decide_eq_true

theorem sorted_unique {first second : List String} (same : first.Perm second)
    (sorted : first.Pairwise (· ≤ ·)) (also : second.Pairwise (· ≤ ·)) : first = second :=
  same.eq_of_pairwise (fun _ _ _ _ => String.le_antisymm) sorted also

theorem Distinct.ascending {node : Node} (distinct : node.Distinct) :
    node.names.Pairwise (· < ·) := by
  cases distinct with
  | file bytes | link target => exact .nil
  | @directory entries names each =>
    have apart : (Node.directory entries).names.Nodup :=
      (List.mergeSort_perm _ _).nodup_iff.mpr names
    refine (sort_sorted _).imp₂ ?_ apart
    intro a b below differ
    exact String.not_le.mp fun above => differ (String.le_antisymm below above)

end Node

namespace FileTree

def takes (tree : FileTree) (spelled : Path → Path) (path : Path) (node : Node) (name : String) :
    Bool :=
  isJava name && (node.child? name).any fun leaf =>
    !tree.leadsToDirectory (spelled (path.child name)) leaf

def walkBelow (tree : FileTree) (ignored : List String) (spelled : Path → Path) (levels : Nat)
    (path : Path) (node : Node) (name : String) : Except Fault (List Path) :=
  if name ∈ ignored then .ok []
  else match node.child? name with
    | some child => tree.walk isJava ignored spelled levels (path.child name) child
    | none => .ok []

section Names

variable {tree : FileTree} {ignored : List String} {spelled : Path → Path}
  {entries : List (String × Node)}

theorem names_sorted (entries : List (String × Node)) :
    (Node.directory entries).names = (entries.mergeSort (·.1 ≤ ·.1)).map Prod.fst := by
  symm
  exact List.map_mergeSort fun _ _ _ _ => rfl

theorem child_sorted (names : (entries.map Prod.fst).Nodup) {e : String × Node}
    (member : e ∈ entries.mergeSort (·.1 ≤ ·.1)) :
    (Node.directory entries).child? e.1 = some e.2 :=
  Node.lookup_of_mem names (List.mem_mergeSort.mp member)

theorem files_names (names : (entries.map Prod.fst).Nodup) (path : Path) :
    ((entries.filter fun e =>
      !tree.leadsToDirectory (spelled (path.child e.1)) e.2 && isJava e.1).map
        Prod.fst).mergeSort (· ≤ ·) =
    (Node.directory entries).names.filter (tree.takes spelled path (.directory entries)) := by
  let keep (e : String × Node) : Bool :=
    !tree.leadsToDirectory (spelled (path.child e.1)) e.2 && isJava e.1
  have kept : (Node.directory entries).names.filter (tree.takes spelled path (.directory entries)) =
      ((entries.mergeSort (·.1 ≤ ·.1)).filter keep).map Prod.fst := by
    rw [names_sorted, List.filter_map]
    congr 1
    apply List.filter_congr
    intro e member
    rw [Function.comp_apply, takes, child_sorted names member, Option.any_some, Bool.and_comm]
  refine Node.sorted_unique ?_ (Node.sort_sorted _) ((Node.sort_sorted _).filter _)
  have same : ((entries.filter keep).map Prod.fst).Perm
      (((entries.mergeSort (·.1 ≤ ·.1)).filter keep).map Prod.fst) :=
    ((List.mergeSort_perm entries _).symm.filter keep).map Prod.fst
  rw [← kept] at same
  exact (List.mergeSort_perm _ _).trans same

theorem below_names (names : (entries.map Prod.fst).Nodup) (levels : Nat) (path : Path) :
    ((entries.map fun e => (e.1, if e.1 ∈ ignored then .ok []
      else tree.walk isJava ignored spelled levels (path.child e.1) e.2)).mergeSort
        (·.1 ≤ ·.1)).mapM Prod.snd =
    (Node.directory entries).names.mapM
      (tree.walkBelow ignored spelled levels path (.directory entries)) := by
  let below (e : String × Node) : String × Except Fault (List Path) :=
    (e.1, if e.1 ∈ ignored then .ok []
      else tree.walk isJava ignored spelled levels (path.child e.1) e.2)
  have sort : (entries.mergeSort (·.1 ≤ ·.1)).map below =
      (entries.map below).mergeSort (·.1 ≤ ·.1) :=
    List.map_mergeSort fun _ _ _ _ => rfl
  rw [← sort, names_sorted, List.mapM_map, List.mapM_map]
  apply mapM_congr
  intro e member
  rw [Function.comp_apply, Function.comp_apply, walkBelow, child_sorted names member]

/-- A walk depends on the names in a directory and on what they stand for, not on the order in which
    they are listed. -/
theorem walk_names (names : (entries.map Prod.fst).Nodup) (levels : Nat) (path : Path) :
    tree.walk isJava ignored spelled (levels + 1) path (.directory entries) = (do
      tree.allow .list (spelled path)
      let found ← (Node.directory entries).names.mapM
        (tree.walkBelow ignored spelled levels path (.directory entries))
      return ((Node.directory entries).names.filter
        (tree.takes spelled path (.directory entries))).map path.child ++ found.flatten) := by
  rw [walk]
  dsimp only
  rw [files_names names path, below_names names levels path]

end Names

theorem isDirectory_ok {tree : FileTree} {path : Path}
    (standing : tree.isDirectory path = .ok true) :
    ∃ place entries, tree.find path = .ok (place, .directory entries) := by
  unfold isDirectory check at standing
  split at standing
  · rename_i place node found
    cases node with
    | file bytes | link target => cases standing
    | directory entries => exact ⟨place, entries, found⟩
  · split at standing <;> cases standing
  · cases standing

theorem javaFiles_ok {tree : FileTree} {ignored : List String} {project : Path} {files : List Path}
    (listed : tree.javaFiles ignored project = .ok files) :
    ∃ place entries, tree.find project = .ok (place, .directory entries) ∧
      tree.walk isJava ignored (spelling project) tree.machine.nesting project
        (.directory entries) = .ok files := by
  obtain ⟨standing, there, listed⟩ := bind_ok listed
  cases standing with
  | false => cases listed
  | true =>
    obtain ⟨place, entries, found⟩ := isDirectory_ok there
    obtain ⟨_, also, walked⟩ := bind_ok listed
    cases found.symm.trans also
    exact ⟨place, entries, found, walked⟩

theorem javaFiles_directory {tree : FileTree} {project : Path} {place : Location}
    {entries : List (String × Node)} (found : tree.find project = .ok (place, .directory entries))
    (ignored : List String) : tree.javaFiles ignored project =
      tree.walk isJava ignored (spelling project) tree.machine.nesting project
        (.directory entries) := by
  rw [javaFiles, isDirectory, check, found]
  rfl

end FileTree

/-- The same stands at the same places, in whatever order the directories list it. -/
def Node.Alike (node other : Node) : Prop :=
  ∀ place, (other.at? place).map bare = (node.at? place).map bare

namespace Node.Alike

variable {node other : Node}

theorem bare (alike : node.Alike other) : other.bare = node.bare :=
  Option.some.inj (alike [])

theorem below {child also : Node} (alike : node.Alike other) {place : Location}
    (found : node.at? place = some child) (there : other.at? place = some also) :
    child.Alike also := by
  intro rest
  have same := alike (place ++ rest)
  rwa [at?_append, at?_append, found, there] at same

theorem symm (alike : node.Alike other) : other.Alike node := fun place => (alike place).symm

theorem child {child : Node} (alike : node.Alike other) {name : String}
    (found : node.child? name = some child) :
    ∃ also, other.child? name = some also ∧ child.Alike also := by
  have single (node : Node) : node.at? [name] = node.child? name := at?_snoc node [] name
  have same := alike [name]
  rw [single, single, found] at same
  obtain ⟨also, there, _⟩ := Option.map_eq_some_iff.mp same
  exact ⟨also, there, alike.below ((single node).trans found) ((single other).trans there)⟩

theorem child_none (alike : node.Alike other) {name : String} (nothing : node.child? name = none) :
    other.child? name = none := by
  rw [Option.eq_none_iff_forall_ne_some]
  intro also there
  obtain ⟨_, found, _⟩ := alike.symm.child there
  rw [nothing] at found
  contradiction

theorem names (alike : node.Alike other) (distinct : node.Distinct) (also : other.Distinct) :
    other.names = node.names := by
  have nodup {names : List String} (ascending : names.Pairwise (· < ·)) : names.Nodup := by
    apply ascending.imp
    rintro a _ below rfl
    exact String.lt_irrefl a below
  have sorted {names : List String} (ascending : names.Pairwise (· < ·)) :
      names.Pairwise (· ≤ ·) := by
    apply ascending.imp
    intro a b below
    exact String.not_lt.mp (String.lt_asymm below)
  refine sorted_unique ?_ (sorted also.ascending) (sorted distinct.ascending)
  rw [List.perm_ext_iff_of_nodup (nodup also.ascending) (nodup distinct.ascending)]
  intro name
  rw [mem_names, mem_names]
  constructor
  · rintro ⟨child, there⟩
    obtain ⟨found, here, _⟩ := alike.symm.child there
    exact ⟨found, here⟩
  · rintro ⟨child, here⟩
    obtain ⟨found, there, _⟩ := alike.child here
    exact ⟨found, there⟩

end Node.Alike

namespace FileTree

structure Relisted (tree other : FileTree) : Prop extends tree.Alike other where
  root : tree.root.Alike other.root
  distinct : tree.root.Distinct
  also : other.root.Distinct

namespace Relisted

variable {tree other : FileTree} (relisted : Relisted tree other) (rooted : tree.Rooted)

include relisted

theorem outline (place : Location) :
    (other.root.at? place).map Node.outline = (tree.root.at? place).map Node.outline := by
  rw [← Node.outline_of_bare, relisted.root, Node.outline_of_bare]

include rooted

theorem locate (ending : Ending) (path : Path) :
    other.locate ending path = tree.locate ending path := by
  have extended : Extended tree.root other.root [] := by
    refine ⟨fun place _ => relisted.outline place, other.root, rfl, ?_, .inr ?_⟩
    intro target link
    have bare := relisted.root.bare
    have directory := rooted.directory
    rw [link] at bare
    cases standing : tree.root <;> rw [standing] at bare directory <;> contradiction
    exact (relisted.outline []).symm
  rcases locate_extended rooted extended relisted.toAlike ending path with same | ⟨nothing, _⟩
  · exact same
  · cases nothing

theorem sight (path : Path) : other.sight path = tree.sight path := by
  unfold FileTree.sight find
  rw [relisted.locate rooted]
  cases tree.locate .target path with
  | error fault => rfl
  | ok target =>
    cases target with
    | free directory name => rfl
    | found here | self here =>
      have outline := relisted.outline here
      simp only [ok_bind]
      cases standing : tree.root.at? here with
      | none =>
        rw [standing, Option.map_none, Option.map_eq_none_iff] at outline
        rw [outline]
      | some node =>
        rw [standing] at outline
        obtain ⟨also, there, same⟩ := Option.map_eq_some_iff.mp outline
        rw [there]
        exact congrArg (fun node => Except.ok (here, node)) same

theorem takes {path : Path} {node also : Node} (alike : node.Alike also) (name : String) :
    other.takes spelled path also name = tree.takes spelled path node name := by
  have blind (tree : FileTree) (path : Path) (leaf : Node) :
      tree.leadsToDirectory path leaf.bare = tree.leadsToDirectory path leaf := by
    cases leaf <;> rfl
  unfold FileTree.takes
  cases here : node.child? name with
  | none =>
    rw [alike.child_none here]
    rfl
  | some leaf =>
    obtain ⟨twin, there, same⟩ := alike.child here
    rw [there, Option.any_some, Option.any_some,
      leadsToDirectory_sight (relisted.sight rooted _), ← blind, same.bare, blind]

theorem walk (ignored : List String) (levels : Nat) (path : Path) {node also : Node}
    (alike : node.Alike also) (distinct : node.Distinct) (too : also.Distinct) :
    other.walk isJava ignored spelled levels path also =
      tree.walk isJava ignored spelled levels path node := by
  have bare := alike.bare
  induction levels generalizing path node also with
  | zero => cases node <;> cases also <;> first | rfl | contradiction
  | succ levels ih =>
    cases node with
    | file bytes | link target => cases also <;> first | rfl | contradiction
    | directory entries =>
      cases also with
      | file bytes | link target => contradiction
      | directory others =>
        have below (name : String) :
            other.walkBelow ignored spelled levels path (.directory others) name =
              tree.walkBelow ignored spelled levels path (.directory entries) name := by
          unfold walkBelow
          by_cases skip : name ∈ ignored
          · rw [if_pos skip, if_pos skip]
          · rw [if_neg skip, if_neg skip]
            cases here : (Node.directory entries).child? name with
            | none => rw [alike.child_none here]
            | some child =>
              obtain ⟨twin, there, same⟩ := alike.child here
              rw [there]
              exact ih _ same (distinct.child here) (too.child there) same.bare
        rw [walk_names too.nodup, walk_names distinct.nodup, alike.names distinct too,
          allow_congr relisted.machine, mapM_congr fun name _ => below name,
          List.filter_congr fun name _ => relisted.takes rooted alike name]

theorem find {path : Path} {place : Location} {entries : List (String × Node)}
    (found : tree.find path = .ok (place, .directory entries)) :
    ∃ others, other.find path = .ok (place, .directory others) ∧
      (Node.directory entries).Alike (.directory others) := by
  have same := relisted.sight rooted path
  unfold FileTree.sight at same
  rw [found] at same
  cases there : other.find path with
  | error fault =>
    rw [there] at same
    cases same
  | ok here =>
    obtain ⟨spot, node⟩ := here
    rw [there] at same
    obtain ⟨rfl, outline⟩ := Prod.mk.inj (Except.ok.inj same)
    cases node with
    | file bytes | link target => cases outline
    | directory others =>
      exact ⟨others, rfl, relisted.root.below (find_at? found) (find_at? there)⟩

theorem javaFiles {project : Path} {place : Location} {entries : List (String × Node)}
    (found : tree.find project = .ok (place, .directory entries)) (ignored : List String) :
    other.javaFiles ignored project = tree.javaFiles ignored project := by
  obtain ⟨others, there, alike⟩ := relisted.find rooted found
  rw [javaFiles_directory found, javaFiles_directory there, relisted.machine]
  exact relisted.walk rooted ignored _ project alike
    (relisted.distinct.at? (find_at? found)) (relisted.also.at? (find_at? there))

end Relisted

end FileTree

end FluentCensus
