import FluentCensus.Proofs.Plan.Stage
import FluentCensus.Proofs.Tree.Built
import FluentCensus.Proofs.Tree.Listing

namespace FluentCensus

namespace FileTree

/-- The paths below a directory that are named like sources and at which no directory stands,
    although a link to one may. Ignored directories are not entered. -/
inductive Candidate (ignored : List String) : Path → List (String × Node) → Path → Prop
  | entry {path : Path} {entries : List (String × Node)} {name : String} {node : Node}
      (member : (name, node) ∈ entries) (solid : node.isDirectory = false)
      (java : isJava name = true) : Candidate ignored path entries (path.child name)
  | deeper {path source : Path} {entries inner : List (String × Node)} {name : String}
      (member : (name, .directory inner) ∈ entries) (entered : name ∉ ignored)
      (inside : Candidate ignored (path.child name) inner source) :
      Candidate ignored path entries source

section Walk

variable {tree other : FileTree} {ignored : List String} {spelled : Path → Path}

theorem walk_same {path : Path} {entries : List (String × Node)} (levels : Nat)
    (machine : other.machine = tree.machine)
    (same : ∀ source, Candidate ignored path entries source →
      other.sight (spelled source) = tree.sight (spelled source)) :
    other.walk isJava ignored spelled levels path (.directory entries) =
      tree.walk isJava ignored spelled levels path (.directory entries) := by
  induction levels generalizing path entries with
  | zero => rfl
  | succ levels ih =>
    have files : (entries.filter fun e =>
          !other.leadsToDirectory (spelled (path.child e.1)) e.2 && isJava e.1) =
        entries.filter fun e =>
          !tree.leadsToDirectory (spelled (path.child e.1)) e.2 && isJava e.1 := by
      refine List.filter_congr fun e member => ?_
      cases java : isJava e.1 with
      | false => rw [Bool.and_false, Bool.and_false]
      | true =>
        cases solid : e.2.isDirectory with
        | false => rw [leadsToDirectory_sight (same _ (.entry member solid java))]
        | true =>
          obtain ⟨name, node⟩ := e
          cases node with
          | directory inner => rfl
          | file bytes | link target => cases solid
    have below : (entries.map fun e => (e.1, if e.1 ∈ ignored then .ok []
          else other.walk isJava ignored spelled levels (path.child e.1) e.2)) =
        entries.map fun e => (e.1, if e.1 ∈ ignored then .ok []
          else tree.walk isJava ignored spelled levels (path.child e.1) e.2) := by
      refine List.map_congr_left fun e member => ?_
      by_cases skip : e.1 ∈ ignored
      · rw [if_pos skip, if_pos skip]
      · rw [if_neg skip, if_neg skip]
        obtain ⟨name, node⟩ := e
        cases node with
        | directory inner => rw [ih fun source inside => same source (.deeper member skip inside)]
        | file bytes | link target => cases levels <;> rfl
    rw [walk, walk, allow_congr machine, files, below]

theorem walk_candidates {path : Path} {entries : List (String × Node)} {levels : Nat}
    {files : List Path}
    (walked : tree.walk isJava ignored spelled levels path (.directory entries) = .ok files)
    {file : Path} (member : file ∈ files) : Candidate ignored path entries file := by
  induction levels generalizing path entries files with
  | zero => cases walked
  | succ levels ih =>
    rw [walk] at walked
    obtain ⟨_, _, walked⟩ := bind_ok walked
    obtain ⟨found, inner, walked⟩ := bind_ok walked
    cases walked
    rcases List.mem_append.mp member with own | below
    · obtain ⟨name, sorted, rfl⟩ := List.mem_map.mp own
      obtain ⟨e, listed, rfl⟩ := List.mem_map.mp (List.mem_mergeSort.mp sorted)
      obtain ⟨among, wanted⟩ := List.mem_filter.mp listed
      obtain ⟨leads, java⟩ := Bool.and_eq_true_iff.mp wanted
      obtain ⟨name, node⟩ := e
      cases node with
      | directory inside => cases leads
      | file bytes | link target => exact .entry among rfl java
    · obtain ⟨those, among, inside⟩ := List.mem_flatten.mp below
      obtain ⟨item, sorted, same⟩ := mapM_ok_result inner _ among
      obtain ⟨e, listed, rfl⟩ := List.mem_map.mp (List.mem_mergeSort.mp sorted)
      dsimp only at same
      by_cases skip : e.1 ∈ ignored
      · rw [if_pos skip] at same
        cases same
        cases inside
      · rw [if_neg skip] at same
        obtain ⟨name, node⟩ := e
        cases node with
        | directory entries => exact .deeper listed skip (ih same inside)
        | file bytes | link target =>
          cases levels <;>
          · cases same
            cases inside

end Walk

/-- A survey of the project reads nothing that the second file system has made, nor what it may have
    written: nothing of that stands in the project, and no candidate leads there, also as the walk
    spells it. -/
structure Outside (ignored : List String) (written : List Location) (tree after : FileTree)
    (project : Path) : Prop where
  same : after.sight project = tree.sight project
  apart : ∀ place node, tree.find project = .ok (place, node) →
    after.root.at? place = some node ∧ ∀ spot ∈ written, ¬ place <+: spot
  candidates : ∀ place entries, tree.find project = .ok (place, .directory entries) →
    ∀ source, Candidate ignored project entries source →
      after.sight (spelling project source) = tree.sight (spelling project source) ∧
      after.sight source = tree.sight source ∧
      ∀ spot node, tree.find source = .ok (spot, node) → spot ∉ written

theorem find_same {tree other : FileTree} {path : Path} (same : other.sight path = tree.sight path)
    (standing : ∀ place node, tree.find path = .ok (place, node) →
      other.root.at? place = some node) : other.find path = tree.find path := by
  unfold sight at same
  cases found : tree.find path with
  | error fault =>
    rw [found] at same
    cases also : other.find path with
    | error other => rw [also] at same; exact congrArg Except.error (Except.error.inj same)
    | ok there => rw [also] at same; cases same
  | ok there =>
    rw [found] at same
    cases also : other.find path with
    | error fault => rw [also] at same; cases same
    | ok here =>
      obtain ⟨place, node⟩ := there
      obtain ⟨spot, new⟩ := here
      rw [also] at same
      obtain rfl : spot = place := congrArg Prod.fst (Except.ok.inj same)
      have here := find_at? also
      rw [standing spot node found] at here
      rw [Option.some.inj here]

namespace Outside

theorem leaf {ignored : List String} {written : List Location}
    {tree after : FileTree} {project : Path} {place : Location} {entries : List (String × Node)}
    (found : tree.find project = .ok (place, .directory entries))
    (flat : ∀ e ∈ entries, e.2.isDirectory = false)
    (same : after.sight project = tree.sight project)
    (kept : after.root.at? place = some (.directory entries))
    (apart : ∀ spot ∈ written, ¬ place <+: spot)
    (sources : ∀ e ∈ entries, isJava e.1 = true →
      after.sight (spelling project (project.child e.1)) =
        tree.sight (spelling project (project.child e.1)) ∧
      after.sight (project.child e.1) = tree.sight (project.child e.1) ∧
      ∀ spot node, tree.find (project.child e.1) = .ok (spot, node) → spot ∉ written) :
    Outside ignored written tree after project where
  same := same
  apart := by
    intro other node standing
    rw [found] at standing
    cases standing
    exact ⟨kept, apart⟩
  candidates := by
    intro other inner standing source candidate
    rw [found] at standing
    obtain ⟨_, directory⟩ := Prod.mk.inj (Except.ok.inj standing)
    obtain rfl := Node.directory.inj directory
    cases candidate with
    | entry member solid java => exact sources (_, _) member java
    | deeper member entered inside =>
      have solid : (Node.directory _).isDirectory = false := flat _ member
      cases solid

variable {ignored : List String} {written : List Location} {tree middle after : FileTree}
  {project : Path} (outside : Outside ignored written tree after project)
  (before : Built written tree middle) (later : Built written middle after)

include before later

omit outside in
theorem sight_between {path : Path} (same : after.sight path = tree.sight path) :
    middle.sight path = tree.sight path := by
  rcases before.sight path with equal | missing
  · exact equal
  · rcases later.sight path with equal | lost
    · rw [← equal, same]
    · rw [lost, missing]

include outside

theorem find_project : middle.find project = tree.find project := by
  refine find_same (sight_between before later outside.same) fun place node found => ?_
  obtain ⟨kept, apart⟩ := outside.apart place node found
  have there := find_at? found
  refine before.inside there apart fun below within standing => ?_
  -- What has been made in the project would stand there in the end as well, and nothing new does.
  obtain ⟨rest, rfl⟩ := within
  have last := later.stands standing
  rw [Node.at?_append, kept] at last
  rwa [Node.at?_append, there]

theorem read_candidate {place : Location} {entries : List (String × Node)}
    (found : tree.find project = .ok (place, .directory entries)) {source : Path}
    (candidate : Candidate ignored project entries source) :
    middle.read source = tree.read source := by
  obtain ⟨_, same, unwritten⟩ := outside.candidates place entries found source candidate
  have sight := sight_between before later same
  cases first : tree.find source with
  | error fault =>
    have nowhere (place : Location) (node : Node) (found : tree.find source = .ok (place, node)) :
        middle.root.at? place = some node := by
      rw [first] at found
      cases found
    rw [read, read, find_same sight nowhere, first]
    rfl
  | ok there =>
    obtain ⟨spot, node⟩ := there
    have outside := unwritten spot node first
    cases second : middle.find source with
    | error fault =>
      rw [FileTree.sight, FileTree.sight, first, second] at sight
      cases sight
    | ok here =>
      obtain ⟨place, new⟩ := here
      rw [FileTree.sight, FileTree.sight, first, second] at sight
      obtain ⟨rfl, outline⟩ := Prod.mk.inj (Except.ok.inj sight)
      rw [read, read, first, second, ok_bind, ok_bind]
      dsimp only
      rw [allow_congr before.machine]
      cases node with
      | file bytes =>
        have kept := before.file outside (find_at? first)
        rw [find_at? second] at kept
        cases kept
        rfl
      | directory _ | link _ => cases new <;> first | rfl | cases outline

theorem finding : middle.finding ignored project = tree.finding ignored project := by
  have found := outside.find_project before later
  have listed : middle.javaFiles ignored project = tree.javaFiles ignored project := by
    unfold javaFiles isDirectory check
    rw [found, before.machine]
    cases first : tree.find project with
    | error fault => rfl
    | ok there =>
      obtain ⟨place, node⟩ := there
      cases node with
      | file bytes | link target => rfl
      | directory entries =>
        refine walk_same _ before.machine fun source candidate => ?_
        exact sight_between before later (outside.candidates place entries first source candidate).1
  unfold FileTree.finding
  rw [listed]
  cases ran : tree.javaFiles ignored project with
  | error fault => rfl
  | ok files =>
    obtain ⟨place, entries, there, walked⟩ := javaFiles_ok ran
    have texts : files.mapM middle.source = files.mapM tree.source := by
      refine mapM_congr fun file member => ?_
      rw [source, source,
        outside.read_candidate before later there (walk_candidates walked member)]
    rw [ok_bind, ok_bind, Project.lengthsOf, Project.lengthsOf, texts]

end Outside

end FileTree

end FluentCensus
