import FluentCensus.Proofs.Dotenv.Loading

namespace FluentCensus

namespace Dotenv

def candidates (explicit : String) (cwd : Location) : List Path :=
  (if explicit = "" then [] else [Path.ofString explicit]) ++
    (List.range 5).map fun levels => ⟨.root, cwd.take (cwd.length - levels) ++ [".env"]⟩

/-- The paths can be looked at, one after the other up to the first one that leads to a file, and
    that file can be read. -/
def Searchable (host : Host) : List Path → Prop
  | [] => True
  | path :: rest => ∃ expanded, host.expandHome path = .ok expanded ∧
    ((∃ bytes, host.tree.read expanded = .ok bytes) ∨
      host.tree.isFile expanded = .ok false ∧ Searchable host rest)

def bytesOf? (host : Host) (path : Path) : Option (List UInt8) :=
  (host.expandHome path >>= host.tree.read).toOption

/-- The assignments of the first path that leads to a file. No other file has a say. -/
def consulted (host : Host) (paths : List Path) : List Assignment :=
  match paths.findSome? (bytesOf? host) with
  | some bytes => assignments (Utf8.decode bytes)
  | none => []

def loaded (host : Host) (paths : List Path) : Host :=
  { host with environment := (perform false host.environment (consulted host paths)).2 }

theorem upwards_take (cwd : Location) (count : Nat) :
    upwards ⟨.root, cwd⟩ count =
      (List.range count).map fun levels => ⟨.root, cwd.take (cwd.length - levels)⟩ := by
  induction count generalizing cwd with
  | zero => rfl
  | succ count ih =>
    have parent : Path.parent ⟨.root, cwd⟩ = ⟨.root, cwd.dropLast⟩ := rfl
    rw [upwards, parent, ih, List.range_succ_eq_map, List.map_cons, List.map_map, Nat.sub_zero,
      List.take_length]
    refine congrArg _ (List.map_congr_left fun levels _ => congrArg (Path.mk .root) ?_)
    rw [List.dropLast_eq_take, List.take_take, List.length_take]
    congr 1
    omega

variable {host : Host} {paths : List Path}

/-- The first path that leads to a file is loaded, and no other one has any effect. -/
theorem run_loadFirst (searchable : Searchable host paths) :
    ∃ found, (loadFirst paths).run.run host =
      ((perform false host.environment (consulted host paths)).1.map fun _ => found,
        loaded host paths) := by
  induction paths with
  | nil => exact ⟨none, rfl⟩
  | cons path rest ih =>
    obtain ⟨expanded, home, ⟨bytes, read⟩ | ⟨nothing, searchable⟩⟩ := searchable
    · have held : bytesOf? host path = some bytes := by
        rw [bytesOf?, home, ok_bind, read]
        rfl
      refine ⟨some path, ?_⟩
      rw [loadFirst, Host.Ends.run_bind, run_load ⟨expanded, home, read⟩, loaded, consulted,
        List.findSome?_cons, held]
      dsimp only
      cases (perform false host.environment (assignments (Utf8.decode bytes))).1 <;> rfl
    · -- What is no file has no bytes that count, so both searches pass over it.
      have held : bytesOf? host path = none := by
        rw [bytesOf?, home, ok_bind]
        cases read : host.tree.read expanded with
        | error fault => rfl
        | ok bytes => cases nothing.symm.trans (FileTree.isFile_read read)
      obtain ⟨found, ran⟩ := ih searchable
      have passed : (load path).run.run host = (.ok false, host) := by
        rw [run_load_home home, Host.Ends.run_bind, Host.Ends.run_ask, nothing]
        rfl
      refine ⟨found, ?_⟩
      rw [loadFirst, Host.Ends.run_bind, passed, loaded, consulted, List.findSome?_cons, held]
      exact ran

theorem run_loadFirst_refused {path expanded : Path} {fault : Fault}
    (home : host.expandHome path = .ok expanded)
    (refused : host.tree.isFile expanded = .error fault) (rest : List Path) :
    (loadFirst (path :: rest)).run.run host = (.error fault, host) := by
  have ran : (load path).run.run host = (.error fault, host) := by
    rw [run_load_home home, Host.Ends.run_bind, Host.Ends.run_ask, refused]
  rw [loadFirst, Host.Ends.run_bind, ran]

theorem loadNearest_candidates (explicit : Option String) (host : Host) :
    (loadNearest explicit).run.run host =
      (loadFirst (candidates (explicit.getD "") host.tree.cwd)).run.run host := by
  have given : (explicit.filter (!·.isEmpty)).toList.map Path.ofString =
      if explicit.getD "" = "" then [] else [Path.ofString (explicit.getD "")] := by
    cases explicit with
    | none => rfl
    | some text => by_cases empty : text = "" <;> simp [empty]
  change (loadFirst ((explicit.filter (!·.isEmpty)).toList.map Path.ofString ++
    (upwards ⟨.root, host.tree.cwd⟩ 5).map (·.child ".env"))).run.run host = _
  rw [given, upwards_take, List.map_map]
  rfl

/-- Where the system can take all consulted assignments, each variable has the value that they and
    the environment settle on. -/
theorem run_loadNearest {explicit : Option String}
    (named : candidates (explicit.getD "") host.tree.cwd = paths)
    (searchable : Searchable host paths) (plain : ∀ a ∈ consulted host paths, ¬ a.HasNul) :
    (∃ found, (loadNearest explicit).run.run host = (.ok found, loaded host paths)) ∧
    ∀ name, (loaded host paths).valueOf? name =
      settled false (consulted host paths) name (host.valueOf? name) := by
  obtain ⟨found, ran⟩ := run_loadFirst searchable
  rw [← named, ← loadNearest_candidates, named] at ran
  rcases perform_cases false host.environment (consulted host paths) with
    ⟨after, done⟩ | ⟨before, bad, rest, _, split, _, fails⟩
  · refine ⟨⟨found, ?_⟩, fun name => ?_⟩
    · rw [ran, done]
      rfl
    · rw [Host.valueOf?, loaded, done]
      exact perform_values done name
  · rw [split] at plain
    exact absurd fails.1 (plain bad (List.mem_append_right before List.mem_cons_self))

end Dotenv

theorem Text.split_plain {separator : Char} {text : List Char} (plain : separator ∉ text) :
    Text.split separator text = [text] := by
  induction text with
  | nil => rfl
  | cons c rest ih =>
    obtain ⟨other, plain⟩ := List.ne_and_not_mem_of_not_mem_cons plain
    have whole := ih plain
    unfold Text.split at whole ⊢
    rw [List.foldr_cons, if_neg other.symm, whole]

structure Endless (name : String) : Prop where
  long : FileTree.longestName < name.utf8ByteSize
  short : name.utf8ByteSize ≤ FileTree.longestPath
  plain : ∀ c ∈ name.toList, c ∉ ['/', '~', '\x00']

namespace Endless

variable {name : String} (endless : Endless name)

include endless

theorem ne_short (other : String) (short : other.utf8ByteSize ≤ FileTree.longestName) :
    name ≠ other := by
  rintro rfl
  exact absurd endless.long (Nat.not_lt.mpr short)

theorem ofString : Path.ofString name = ⟨.relative, [name]⟩ := by
  have slash : '/' ∉ name.toList := fun member => endless.plain _ member (by decide)
  have parts : Path.components name = [name] := by
    have filled : name.toList ≠ [] := fun empty =>
      endless.ne_short "" (by decide) (by simpa using empty)
    simp [Path.components, Text.split_plain slash, filled]
  have anchor : Path.anchorOf name.toList = .relative := by
    unfold Path.anchorOf
    split <;> simp_all
  rw [Path.ofString, parts, anchor]
  simp [endless.ne_short "." (by decide)]

theorem expandHome (host : Host) :
    host.expandHome ⟨.relative, [name]⟩ = .ok ⟨.relative, [name]⟩ := by
  unfold Host.expandHome
  dsimp only
  split
  · rename_i user head
    exact absurd (by decide) (endless.plain '~' (head ▸ List.mem_cons_self))
  · rfl

theorem isFile {tree : FileTree} (allowed : tree.machine.bars .look ⟨.relative, [name]⟩ = none) :
    tree.isFile ⟨.relative, [name]⟩ = .error (.refused .nameTooLong ⟨.relative, [name]⟩) := by
  have text : Path.toString ⟨.relative, [name]⟩ = name := by
    have joined : "/".intercalate [name] = name := rfl
    simp [Path.toString, Anchor.text, joined]
  have nul : '\x00' ∉ name.toList := fun member => endless.plain _ member (by decide)
  have dots : ¬ (name = "." ∨ name = "") := by
    rintro (same | same) <;> exact endless.ne_short _ (by decide) same
  have up : name ≠ ".." := endless.ne_short ".." (by decide)
  have stuck (trail : Trail) : FileTree.resolve tree.root .target FileTree.mostLinks
      trail [name] = .error .nameTooLong := by
    rw [FileTree.resolve, if_neg dots, if_neg up, if_neg (by simp), if_pos endless.long]
  have usable : tree.allow .look ⟨.relative, [name]⟩ = .ok () :=
    FileTree.allow_ok_iff.mpr ⟨text.symm ▸ endless.short, allowed⟩
  unfold FileTree.isFile FileTree.check FileTree.find FileTree.locate Ending.access
  rw [text, if_neg nul, usable]
  dsimp only
  rw [stuck]
  rfl

end Endless

theorem Endless.repeated {n : Nat} (long : FileTree.longestName < n)
    (short : n ≤ FileTree.longestPath) : Endless (String.ofList (List.replicate n 'a')) := by
  have size : (String.ofList (List.replicate n 'a')).utf8ByteSize = n := by
    rw [String.utf8ByteSize_ofList]
    clear long short
    induction n with
    | zero => rfl
    | succ n ih =>
      rw [List.replicate_succ, String.utf8Len_cons, ih]
      rfl
  refine ⟨size.symm ▸ long, size.symm ▸ short, fun c member => ?_⟩
  rw [String.toList_ofList] at member
  obtain rfl := List.eq_of_mem_replicate member
  decide

end FluentCensus
