import FluentCensus.Proofs.Tree.Put
import Mathlib.Data.List.Induction

namespace FluentCensus

namespace Trail

/-- Each directory of the trail stands in the one before it, the first one in the root. -/
def Real (root : Node) : Trail → Prop
  | [] => root.isDirectory = true
  | (name, node) :: trail =>
    node.isDirectory = true ∧ (Trail.node trail root).child? name = some node ∧ Real root trail

theorem location_push (name : String) (node : Node) (trail : Trail) :
    location ((name, node) :: trail) = location trail ++ [name] := by
  simp [location]

namespace Real

theorem at? {root : Node} {trail : Trail} (real : Real root trail) :
    root.at? trail.location = some (trail.node root) ∧ (trail.node root).isDirectory = true := by
  induction trail with
  | nil => exact ⟨rfl, real⟩
  | cons entry trail ih =>
    obtain ⟨name, node⟩ := entry
    obtain ⟨directory, child, rest⟩ := real
    refine ⟨?_, directory⟩
    rw [location_push, Node.at?_snoc, (ih rest).1]
    exact child

theorem child {root : Node} {trail : Trail} (real : Real root trail) (name : String) :
    (trail.node root).child? name = root.at? (trail.location ++ [name]) := by
  rw [Node.at?_snoc, real.at?.1]
  rfl

theorem tail {root : Node} {trail : Trail} (real : Real root trail) : Real root trail.tail := by
  cases trail with
  | nil => exact real
  | cons entry trail => exact real.2.2

theorem top {root : Node} {trail : Trail} (real : Real root trail) : Real root [] := by
  induction trail with
  | nil => exact real
  | cons entry trail ih => exact ih real.2.2

theorem push {root : Node} {trail : Trail} (real : Real root trail) {name : String} {node : Node}
    (found : (trail.node root).child? name = some node) (directory : node.isDirectory = true) :
    Real root ((name, node) :: trail) :=
  ⟨directory, found, real⟩

end Real

theorem upTo_real {root : Node} {location : Location} {node : Node}
    (found : root.at? location = some node) (directory : node.isDirectory = true) :
    Real root (upTo root location) ∧ (upTo root location).location = location := by
  induction location using List.reverseRecOn generalizing node with
  | nil =>
    obtain rfl : root = node := by simpa [Node.at?] using found
    exact ⟨directory, rfl⟩
  | append_singleton above name ih =>
    rw [Node.at?_snoc] at found
    obtain ⟨parent, reached, child⟩ := Option.bind_eq_some_iff.mp found
    obtain ⟨entries, rfl, _⟩ := Node.child?_some child
    obtain ⟨real, same⟩ := ih reached rfl
    have here : ((upTo root above).node root).child? name = some node := by
      have standing := real.at?.1
      rw [same, reached] at standing
      rw [← Option.some.inj standing]
      exact child
    have step : upTo root (above ++ [name]) = (name, node) :: upTo root above := by
      simp only [upTo] at here
      simp only [upTo, List.foldl_append, List.foldl_cons, List.foldl_nil, here]
    rw [step, location_push, same]
    exact ⟨real.push here directory, rfl⟩

end Trail

/-- The node without what it holds. Where a path leads depends on outlines alone. -/
def Node.outline : Node → Node
  | .directory _ => .directory []
  | .file _ => .file []
  | .link target => .link target

/-- The file systems differ in outline at one place at most, where the second one has a file or a
    directory and the first one may have nothing. -/
structure Extended (root changed : Node) (place : Location) : Prop where
  elsewhere : ∀ other, other ≠ place →
    (changed.at? other).map Node.outline = (root.at? other).map Node.outline
  there : ∃ new, changed.at? place = some new ∧ (∀ target, new ≠ .link target) ∧
    (root.at? place = none ∨ (root.at? place).map Node.outline = some new.outline)

structure Trail.Twins (root changed : Node) (trail other : Trail) : Prop where
  first : trail.Real root
  second : other.Real changed
  same : other.location = trail.location

namespace Trail.Twins

variable {root changed : Node} {trail other : Trail}

theorem tail (twins : Twins root changed trail other) :
    Twins root changed trail.tail other.tail := by
  refine ⟨twins.first.tail, twins.second.tail, ?_⟩
  have names : other.map Prod.fst = trail.map Prod.fst := List.reverse_inj.mp twins.same
  simp only [location, List.map_tail, names]

theorem top (twins : Twins root changed trail other) : Twins root changed [] [] :=
  ⟨twins.first.top, twins.second.top, rfl⟩

theorem push (twins : Twins root changed trail other) {name : String} {node new : Node}
    (found : (trail.node root).child? name = some node)
    (also : (other.node changed).child? name = some new) (directory : node.isDirectory = true)
    (too : new.isDirectory = true) :
    Twins root changed ((name, node) :: trail) ((name, new) :: other) := by
  refine ⟨twins.first.push found directory, twins.second.push also too, ?_⟩
  rw [location_push, location_push, twins.same]

theorem child (twins : Twins root changed trail other) {place : Location}
    (extended : Extended root changed place) {name : String}
    (known : trail.location ++ [name] = place → root.at? place ≠ none) :
    ((other.node changed).child? name).map Node.outline =
      ((trail.node root).child? name).map Node.outline := by
  rw [twins.first.child, twins.second.child, twins.same]
  by_cases here : trail.location ++ [name] = place
  · obtain ⟨new, standing, _, outline⟩ := extended.there
    rw [here, standing]
    rcases outline with nothing | outline
    · exact absurd nothing (known here)
    · exact outline.symm
  · exact extended.elsewhere _ here

theorem kept (twins : Twins root changed trail other) {place : Location}
    (extended : Extended root changed place) {name : String} {node : Node}
    (found : (trail.node root).child? name = some node) :
    ((other.node changed).child? name).map Node.outline = some node.outline := by
  have known : trail.location ++ [name] = place → root.at? place ≠ none := by
    intro here
    rw [← here, ← twins.first.child, found]
    simp
  rw [twins.child extended known, found]
  rfl

end Trail.Twins

theorem outline_link {node : Option Node} {target : String}
    (outline : node.map Node.outline = some (.link target)) : node = some (.link target) := by
  cases node with
  | none => simp at outline
  | some node => cases node <;> simp_all [Node.outline]

theorem outline_some {node : Option Node} {old : Node} (solid : ∀ target, old ≠ .link target)
    (outline : node.map Node.outline = some old.outline) :
    ∃ new, node = some new ∧ (∀ target, new ≠ .link target) ∧
      new.isDirectory = old.isDirectory := by
  cases node with
  | none => simp at outline
  | some node =>
    refine ⟨node, rfl, ?_, ?_⟩
    · intro target link
      subst link
      cases old <;> simp_all [Node.outline]
    · cases node <;> cases old <;> simp_all [Node.outline, Node.isDirectory]

namespace FileTree

/-- A path leads to the same target in both, unless in the first one the place is where it ends and
    is free, or where it gets stuck. -/
theorem resolve_extended {root changed : Node} {place : Location}
    (extended : Extended root changed place) (ending : Ending) (links : Nat) {trail : Trail}
    (steps : List String) {other : Trail} (twins : trail.Twins root changed other) :
    resolve changed ending links other steps = resolve root ending links trail steps ∨
    root.at? place = none ∧ (resolve root ending links trail steps = .error .missing ∨
      ∃ directory name, place = directory ++ [name] ∧
        resolve root ending links trail steps = .ok (.free directory name) ∧
        resolve changed ending links other steps = .ok (.found place)) := by
  fun_induction resolve root ending links trail steps generalizing other with
  | case1 links trail =>
    left
    rw [resolve, twins.same]
  | case2 links trail step rest still ih =>
    rw [resolve, if_pos still]
    exact ih twins
  | case3 links trail rest moves ih =>
    rw [resolve, if_neg moves, if_pos rfl]
    exact ih twins.tail
  | case4 links trail step rest moves down written =>
    left
    rw [resolve, if_neg moves, if_neg down, if_pos written]
  | case5 links trail step rest moves down written long =>
    left
    rw [resolve, if_neg moves, if_neg down, if_neg written, if_pos long]
  | case6 links trail step rest moves down written long nothing last =>
    have free := twins.first.child step
    rw [nothing] at free
    by_cases here : trail.location ++ [step] = place
    · right
      refine ⟨here ▸ free.symm, .inr ⟨trail.location, step, here.symm, rfl, ?_⟩⟩
      obtain ⟨new, standing, solid, _⟩ := extended.there
      have child := twins.second.child step
      rw [twins.same, here, standing] at child
      rw [resolve, if_neg moves, if_neg down, if_neg written, if_neg long, child]
      simp [last, twins.same, here]
    · left
      have child := twins.child extended (fun same => absurd same here)
      rw [nothing, Option.map_none, Option.map_eq_none_iff] at child
      rw [resolve, if_neg moves, if_neg down, if_neg written, if_neg long, child]
      simp [last, twins.same]
  | case7 links trail step rest moves down written long nothing more =>
    have free := twins.first.child step
    rw [nothing] at free
    by_cases here : trail.location ++ [step] = place
    · right
      exact ⟨here ▸ free.symm, .inl rfl⟩
    · left
      have child := twins.child extended (fun same => absurd same here)
      rw [nothing, Option.map_none, Option.map_eq_none_iff] at child
      rw [resolve, if_neg moves, if_neg down, if_neg written, if_neg long, child]
      simp [more]
  | case8 links trail step rest moves down written long target link last =>
    left
    have child := twins.kept extended link
    rw [resolve, if_neg moves, if_neg down, if_neg written, if_neg long, outline_link child]
    simp [last, twins.same]
  | case9 trail step rest moves down written long target link follow =>
    left
    have child := twins.kept extended link
    rw [resolve, if_neg moves, if_neg down, if_neg written, if_neg long, outline_link child]
    simp only [if_neg follow]
  | case10 trail step rest moves down written long target link follow links start =>
    rename_i ih
    have child := twins.kept extended link
    rw [resolve, if_neg moves, if_neg down, if_neg written, if_neg long, outline_link child]
    simp only [if_neg follow]
    apply ih
    by_cases absolute : target.startsWith "/"
    · simp only [start, absolute, if_true]
      exact twins.top
    · simp only [start, absolute]
      exact twins
  | case11 links trail step rest moves down written long node solid found last =>
    left
    obtain ⟨new, child, other_solid, _⟩ := outline_some solid (twins.kept extended found)
    rw [resolve, if_neg moves, if_neg down, if_neg written, if_neg long, child]
    simp [last, twins.same]
  | case12 links trail step rest moves down written long node solid found more directory ih =>
    obtain ⟨new, child, other_solid, same⟩ := outline_some solid (twins.kept extended found)
    rw [resolve, if_neg moves, if_neg down, if_neg written, if_neg long, child]
    simp only [if_neg more, same, directory, if_true]
    exact ih (twins.push found child directory (same.trans directory))
  | case13 links trail step rest moves down written long node solid found more leaf =>
    left
    obtain ⟨new, child, other_solid, same⟩ := outline_some solid (twins.kept extended found)
    rw [resolve, if_neg moves, if_neg down, if_neg written, if_neg long, child]
    simp only [if_neg more, same, if_neg leaf]

end FileTree

end FluentCensus
