import FluentCensus.Proofs.Host.Actions
import FluentCensus.Tree.Walk

namespace FluentCensus

namespace FileTree

def sight (tree : FileTree) (path : Path) : Except Fault (Location × Node) :=
  (tree.find path).map fun found => (found.1, found.2.outline)

theorem check_sight (tree : FileTree) (path : Path) {test : Node → Bool}
    (blind : ∀ node : Node, test node.outline = test node) :
    tree.check path test = match tree.sight path with
      | .ok (_, node) => .ok (test node)
      | .error (.refused refusal p) =>
        if refusal.isAbsence then .ok false else .error (.refused refusal p)
      | .error _ => .ok false := by
  unfold check sight
  cases tree.find path with
  | ok found => exact congrArg Except.ok (blind found.2).symm
  | error fault => cases fault <;> rfl

theorem isDirectory_sight {tree other : FileTree} {path : Path}
    (same : other.sight path = tree.sight path) :
    other.isDirectory path = tree.isDirectory path := by
  rw [isDirectory, isDirectory, check_sight _ _ Node.isDirectory_outline, same,
    ← check_sight _ _ Node.isDirectory_outline]

theorem find_at? {tree : FileTree} {path : Path} {place : Location} {node : Node}
    (found : tree.find path = .ok (place, node)) : tree.root.at? place = some node := by
  unfold find at found
  obtain ⟨target, led, found⟩ := bind_ok found
  cases target with
  | free directory name => cases found
  | found here | self here =>
    dsimp only at found
    cases standing : tree.root.at? here with
    | none =>
      rw [standing] at found
      cases found
    | some other =>
      rw [standing] at found
      cases found
      exact standing

theorem leadsToDirectory_sight {tree other : FileTree} {path : Path}
    (same : other.sight path = tree.sight path) (node : Node) :
    other.leadsToDirectory path node = tree.leadsToDirectory path node := by
  cases node with
  | directory entries | file bytes => rfl
  | link target =>
    have kind (tree : FileTree) : tree.leadsToDirectory path (.link target) =
        (tree.sight path).toOption.any (·.2.isDirectory) := by
      unfold leadsToDirectory sight
      cases tree.find path with
      | ok found => exact (Node.isDirectory_outline found.2).symm
      | error fault => rfl
    rw [kind, kind, same]

/-- A path leads to where it led before, unless nothing stood there. -/
theorem sight_extended {tree changed : FileTree} {place : Location} (rooted : tree.Rooted)
    (extended : Extended tree.root changed.root place) (alike : tree.Alike changed)
    (path : Path) :
    changed.sight path = tree.sight path ∨ tree.sight path = .error (.refused .missing path) := by
  unfold sight find
  rcases locate_extended rooted extended alike .target path with equal | ⟨_, missing | free⟩
  · rw [equal]
    cases tree.locate .target path with
    | error fault => exact .inl rfl
    | ok target =>
      cases target with
      | free directory name => exact .inl rfl
      | found here | self here =>
        simp only [ok_bind]
        cases before : tree.root.at? here with
        | none => exact .inr rfl
        | some node =>
          obtain ⟨new, after, outline⟩ := Option.map_eq_some_iff.mp (extended.kept before)
          rw [after]
          exact .inl (congrArg (fun node => Except.ok (here, node)) outline)
  · right
    rw [missing]
    rfl
  · obtain ⟨_, _, _, free, _⟩ := free
    right
    rw [free]
    rfl

theorem resolve_target {root : Node} {links : Nat} {trail : Trail} {steps : List String}
    {directory : Location} {name : String}
    (free : resolve root .entry links trail steps = .ok (.free directory name)) :
    resolve root .target links trail steps = .ok (.free directory name) := by
  fun_induction resolve root .entry links trail steps with
  | case2 links trail step rest still ih =>
    rw [resolve, if_pos still]
    exact ih free
  | case3 links trail rest moves ih =>
    rw [resolve, if_neg moves, if_pos rfl]
    exact ih free
  | case6 links trail step rest moves down written long nothing last =>
    rw [resolve, if_neg moves, if_neg down, if_neg (by simp), if_neg long, nothing]
    simpa [last] using free
  | case10 trail step rest moves down written long target link follow links start =>
    rename_i ih
    rw [resolve, if_neg moves, if_neg down, if_neg (by simp), if_neg long, link]
    simp only [reduceCtorEq, and_false, if_false]
    exact ih free
  | case12 links trail step rest moves down written long node solid found more directory ih =>
    rw [resolve, if_neg moves, if_neg down, if_neg (by simp), if_neg long, found]
    simp only [if_neg more, directory, if_true]
    exact ih free
  | case1 | case4 | case5 | case7 | case8 | case9 | case11 | case13 => cases free

theorem locate_target {tree : FileTree} {path : Path} {directory : Location} {name : String}
    (free : tree.locate .entry path = .ok (.free directory name))
    (seen : tree.allow .look path = .ok ()) :
    tree.locate .target path = .ok (.free directory name) := by
  rw [locate_eq] at free ⊢
  split at free
  · cases free
  · rename_i usable
    rw [if_neg usable, Ending.access, seen, ok_bind]
    cases allowed : tree.allow .make path with
    | error fault =>
      rw [Ending.access, allowed] at free
      cases free
    | ok _ =>
      rw [Ending.access, allowed, ok_bind] at free
      cases led : resolve tree.root .entry mostLinks (tree.startOf path) path.parts with
      | error refusal =>
        rw [led] at free
        cases free
      | ok target =>
        rw [led] at free
        cases free
        rw [resolve_target led]
        rfl

structure Stands (tree : FileTree) (path : Path) : Prop where
  refused : ∃ fault, tree.makeDirectory path = .error fault ∧ fault.ofFiles = true ∧
    fault ≠ .refused .missing path
  there : tree.isDirectory path = .ok true

namespace Stands

variable {tree changed : FileTree} {path : Path}

theorem withDirectory (stands : tree.Stands path) : tree.withDirectory path = .ok tree := by
  obtain ⟨fault, refused, files, other⟩ := stands.refused
  rw [FileTree.withDirectory, refused]
  dsimp only
  rw [if_pos (by simp [files, other]), stands.there]
  rfl

theorem withDirectories (stands : tree.Stands path) : tree.withDirectories path = .ok tree := by
  rw [FileTree.withDirectories, FileTree.withLevels.eq_def, stands.withDirectory]

theorem extended (stands : tree.Stands path) {place : Location} (rooted : tree.Rooted)
    (extended : Extended tree.root changed.root place) (alike : tree.Alike changed) :
    changed.Stands path := by
  obtain ⟨fault, refused, files, other⟩ := stands.refused
  refine ⟨⟨fault, ?_, files, other⟩, ?_⟩
  · rcases locate_extended rooted extended alike .entry path with equal | ⟨_, missing | free⟩
    · unfold makeDirectory at refused ⊢
      rw [equal]
      cases led : tree.locate .entry path with
      | error fault =>
        rw [led] at refused
        exact refused
      | ok target =>
        rw [led] at refused
        cases target with
        | found here | self here => exact refused
        | free directory name => cases refused
    · rw [makeDirectory, missing] at refused
      cases refused
      exact absurd rfl other
    · obtain ⟨_, _, _, free, _⟩ := free
      rw [makeDirectory, free] at refused
      cases refused
  · rcases sight_extended rooted extended alike path with equal | missing
    · rw [isDirectory_sight equal, stands.there]
    · have there := stands.there
      rw [isDirectory, check_sight _ _ Node.isDirectory_outline, missing] at there
      cases there

end Stands

variable {tree after : FileTree} {path : Path}

theorem makeDirectory_stands (rooted : tree.Rooted) (seen : tree.allow .look path = .ok ())
    (made : tree.makeDirectory path = .ok after) : after.Stands path := by
  obtain ⟨directory, name, led, rfl⟩ := makeDirectory_ok made
  obtain ⟨room, free⟩ := locate_free rooted led
  let after : FileTree := { tree with root := tree.root.put (.directory []) (directory ++ [name]) }
  have standing : after.root.at? (directory ++ [name]) = some (.directory []) := room.put_self _
  have extended : Extended tree.root after.root (directory ++ [name]) :=
    room.extended Node.empty_leaf (fun _ => nofun) (.inl free)
  have afterRooted : after.Rooted := rooted.extended extended ⟨rfl, rfl⟩
  have found (ending : Ending) (before : tree.locate ending path = .ok (.free directory name)) :
      after.locate ending path = .ok (.found (directory ++ [name])) := by
    rcases locate_extended rooted extended ⟨rfl, rfl⟩ ending path with same | ⟨_, missing | here⟩
    · have nothing := (locate_free afterRooted (same.trans before)).2
      rw [standing] at nothing
      cases nothing
    · rw [before] at missing
      cases missing
    · obtain ⟨_, _, _, _, there⟩ := here
      exact there
  refine ⟨⟨.refused .exists path, ?_, rfl, by simp⟩, ?_⟩
  · change after.makeDirectory path = _
    rw [makeDirectory, found .entry led]
    rfl
  · change after.isDirectory path = _
    rw [isDirectory, check, find, found .target (locate_target led seen)]
    simp only [ok_bind, standing]
    rfl

theorem withDirectory_stands (rooted : tree.Rooted) (seen : tree.allow .look path = .ok ())
    (made : tree.withDirectory path = .ok after) : after.Stands path := by
  rcases withDirectory_ok made with made | ⟨fault, refused, files, other, there, rfl⟩
  · exact makeDirectory_stands rooted seen made
  · exact ⟨⟨fault, refused, files, other⟩, there⟩

theorem withDirectories_stands (rooted : tree.Rooted) (seen : tree.allow .look path = .ok ())
    (made : tree.withDirectories path = .ok after) : after.Stands path := by
  rw [withDirectories, withLevels.eq_def] at made
  cases attempt : tree.withDirectory path with
  | ok made_now =>
    rw [attempt] at made
    cases made
    exact withDirectory_stands rooted seen attempt
  | error fault =>
    rw [attempt] at made
    dsimp only at made
    split at made
    · split at made
      · cases made
      · obtain ⟨middle, above, made⟩ := bind_ok made
        have grown := withLevels_grown rooted above []
        rw [← allow_congr grown.machine] at seen
        exact withDirectory_stands (grown.rooted rooted) seen made
    · cases made

theorem Stands.openForWriting {other : Path} {place : Location} (stands : tree.Stands path)
    (rooted : tree.Rooted) (opened : tree.openForWriting other = .ok (place, after)) :
    after.Stands path := by
  rcases openForWriting_ok opened with ⟨_, _, rfl⟩ | ⟨directory, name, led, rfl, rfl⟩
  · exact stands
  · obtain ⟨room, free⟩ := locate_free rooted led
    exact stands.extended rooted
      (room.extended (Node.file_leaf []) (fun _ => nofun) (.inl free)) ⟨rfl, rfl⟩

end FileTree

end FluentCensus
