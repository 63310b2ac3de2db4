import FluentCensus.Tree.Write

namespace FluentCensus.Node

theorem lookup_entry (name other : String) (node : Node) (entries : List (String × Node)) :
    ((name, node) :: entries).lookup other =
      if other = name then some node else entries.lookup other := by
  by_cases same : other = name
  · simp [same]
  · have differ : (other == name) = false := beq_false_of_ne same
    simp [List.lookup_cons, differ, same]

theorem lookup_putEntry (name other : String) (node : Node) (entries : List (String × Node)) :
    (putEntry name node entries).lookup other =
      if other = name then some node else entries.lookup other := by
  induction entries with
  | nil => exact lookup_entry name other node []
  | cons entry entries ih =>
    obtain ⟨first, old⟩ := entry
    by_cases found : first = name
    · subst found
      by_cases same : other = first <;> simp [putEntry, lookup_entry, same]
    · by_cases here : other = first
      · subst here
        simp [putEntry, found]
      · simp [putEntry, lookup_entry, found, here, ih]

theorem putEntry_putEntry (name : String) (node old : Node) (entries : List (String × Node)) :
    putEntry name node (putEntry name old entries) = putEntry name node entries := by
  induction entries with
  | nil => simp [putEntry]
  | cons entry entries ih =>
    by_cases found : entry.1 = name <;> simp [putEntry, found, ih]

-- Entries that are both new would stand in the order in which they were put.
theorem putEntry_comm {name other : String} (apart : other ≠ name) (node new : Node)
    (entries : List (String × Node)) (present : entries.lookup name ≠ none) :
    putEntry name node (putEntry other new entries) =
      putEntry other new (putEntry name node entries) := by
  induction entries with
  | nil => exact absurd rfl present
  | cons entry entries ih =>
    obtain ⟨first, old⟩ := entry
    by_cases here : first = name
    · subst here
      simp [putEntry, apart.symm]
    · have later : entries.lookup name ≠ none := by
        rw [lookup_entry, if_neg (Ne.symm here)] at present
        exact present
      by_cases there : first = other
      · subst there
        simp [putEntry, here]
      · simp [putEntry, here, there, ih later]

theorem child?_some {node child : Node} {name : String} (found : node.child? name = some child) :
    ∃ entries, node = .directory entries ∧ entries.lookup name = some child := by
  cases node with
  | directory entries => exact ⟨entries, rfl, found⟩
  | file bytes | link target => cases found

theorem put_child {node child : Node} {name : String} (found : node.child? name = some child)
    (new : Node) (rest : Location) :
    (node.put new (name :: rest)).child? name = some (child.put new rest) := by
  obtain ⟨entries, rfl, looked⟩ := child?_some found
  simp [put, child?, lookup_putEntry, looked]

theorem put_child_other {node : Node} {name other : String} (apart : other ≠ name) (new : Node)
    (rest : Location) : (node.put new (name :: rest)).child? other = node.child? other := by
  cases node with
  | directory entries => simp [put, child?, lookup_putEntry, apart]
  | file bytes | link target => rfl

theorem at?_append (node : Node) (first second : Location) :
    node.at? (first ++ second) = (node.at? first).bind (·.at? second) := by
  induction first generalizing node with
  | nil => rfl
  | cons name rest ih =>
    cases found : node.child? name with
    | none => simp [at?, found]
    | some child => simp [at?, found, ih]

theorem at?_snoc (node : Node) (directory : Location) (name : String) :
    node.at? (directory ++ [name]) = (node.at? directory).bind (·.child? name) := by
  rw [at?_append]
  congr 1
  funext node
  cases found : node.child? name <;> simp [at?, found]

theorem put_put (node new old : Node) (place : Location) :
    (node.put old place).put new place = node.put new place := by
  induction place generalizing node with
  | nil => rfl
  | cons name rest ih =>
    cases node with
    | directory entries => simp [put, child?, lookup_putEntry, putEntry_putEntry, ih]
    | file bytes | link target => rfl

theorem put_comm {node found : Node} {place other : Location}
    (present : node.at? place = some found)
    (above : ¬ place <+: other) (below : ¬ other <+: place) (new second : Node) :
    (node.put new place).put second other = (node.put second other).put new place := by
  induction place generalizing node other with
  | nil => exact absurd List.nil_prefix above
  | cons name rest ih =>
    cases other with
    | nil => exact absurd List.nil_prefix below
    | cons first others =>
      obtain ⟨child, looked, inside⟩ := Option.bind_eq_some_iff.mp present
      obtain ⟨entries, rfl, listed⟩ := child?_some looked
      by_cases same : first = name
      · subst same
        have above : ¬ rest <+: others := by simpa using above
        have below : ¬ others <+: rest := by simpa using below
        simp [put, child?, lookup_putEntry, listed, putEntry_putEntry, ih inside above below]
      · have known : entries.lookup name ≠ none := by simp [listed]
        simp [put, child?, lookup_putEntry, same, Ne.symm same]
        exact (putEntry_comm same _ _ entries known).symm

def bare : Node → Node
  | .directory _ => .directory []
  | other => other

theorem bare_file {node : Option Node} {bytes : List UInt8} :
    node.map bare = some (.file bytes) ↔ node = some (.file bytes) := by
  cases node with
  | none => simp
  | some node => cases node <;> simp [bare]

theorem at?_below {node : Node} {place : Location}
    (leaf : ∀ entries, node.at? place ≠ some (.directory entries)) {other : Location}
    (below : place <+: other) (apart : other ≠ place) : node.at? other = none := by
  obtain ⟨rest, rfl⟩ := below
  cases rest with
  | nil => simp at apart
  | cons name rest =>
    rw [at?_append]
    cases found : node.at? place with
    | none => rfl
    | some child =>
      cases child with
      | directory entries => exact absurd found (leaf entries)
      | file bytes | link target => rfl

/-- A place in a directory at which no directory stands. -/
structure Room (node : Node) (place : Location) : Prop where
  inside : ∃ above name entries,
    place = above ++ [name] ∧ node.at? above = some (.directory entries)
  leaf : ∀ entries, node.at? place ≠ some (.directory entries)

theorem put_at? {node : Node} {above : Location} {entries : List (String × Node)}
    (inside : node.at? above = some (.directory entries)) (name : String) (new : Node) :
    (node.put new (above ++ [name])).at? (above ++ [name]) = some new := by
  induction above generalizing node with
  | nil =>
    obtain rfl : node = .directory entries := by simpa [at?] using inside
    simp [put, at?, child?, lookup_putEntry]
  | cons first above ih =>
    obtain ⟨child, looked, below⟩ := Option.bind_eq_some_iff.mp inside
    rw [List.cons_append, at?, put_child looked]
    exact ih below

theorem bare_put {node : Node} {above : Location} {entries : List (String × Node)}
    (inside : node.at? above = some (.directory entries)) (name : String) (new : Node)
    {other : Location} (outside : ¬ above ++ [name] <+: other) :
    ((node.put new (above ++ [name])).at? other).map bare = (node.at? other).map bare := by
  induction above generalizing node other with
  | nil =>
    obtain rfl : node = .directory entries := by simpa [at?] using inside
    cases other with
    | nil => rfl
    | cons first rest =>
      have apart : first ≠ name := by
        intro same
        simp [same] at outside
      rw [List.nil_append, at?, at?, put_child_other apart]
  | cons first above ih =>
    obtain ⟨child, looked, below⟩ := Option.bind_eq_some_iff.mp inside
    cases other with
    | nil =>
      obtain ⟨entries, rfl, _⟩ := child?_some looked
      rfl
    | cons next rest =>
      rw [List.cons_append, at?, at?]
      by_cases same : next = first
      · subst same
        have outside : ¬ above ++ [name] <+: rest := by simpa using outside
        rw [put_child looked, looked]
        exact ih below outside
      · rw [put_child_other same]

namespace Room

theorem put_self {node : Node} {place : Location} (room : node.Room place) (new : Node) :
    (node.put new place).at? place = some new := by
  obtain ⟨above, name, entries, rfl, inside⟩ := room.inside
  exact put_at? inside name new

theorem put_bare {node : Node} {place : Location} (room : node.Room place) {new : Node}
    (leaf : ∀ name, new.child? name = none) (other : Location) :
    ((node.put new place).at? other).map bare =
      if other = place then some new.bare else (node.at? other).map bare := by
  have self := room.put_self new
  by_cases same : other = place
  · rw [if_pos same, same, self]
    rfl
  · rw [if_neg same]
    by_cases below : place <+: other
    · rw [at?_below room.leaf below same]
      obtain ⟨rest, rfl⟩ := below
      obtain ⟨name, rest, rfl⟩ := List.exists_cons_of_ne_nil (by simpa using same)
      rw [at?_append, self]
      simp [at?, leaf]
    · obtain ⟨above, name, entries, rfl, inside⟩ := room.inside
      exact bare_put inside name new below

end Room

theorem putEntry_self {name : String} {node : Node} {entries : List (String × Node)}
    (listed : entries.lookup name = some node) : putEntry name node entries = entries := by
  induction entries with
  | nil => cases listed
  | cons entry entries ih =>
    obtain ⟨first, old⟩ := entry
    rw [lookup_entry] at listed
    by_cases here : name = first
    · rw [if_pos here] at listed
      cases listed
      simp [putEntry, here]
    · rw [if_neg here] at listed
      rw [putEntry, if_neg (Ne.symm here), ih listed]

theorem put_at?_self {node found : Node} {place : Location} (there : node.at? place = some found) :
    node.put found place = node := by
  induction place generalizing node with
  | nil => exact (Option.some.inj there).symm
  | cons name rest ih =>
    obtain ⟨child, looked, inside⟩ := Option.bind_eq_some_iff.mp there
    obtain ⟨entries, rfl, listed⟩ := child?_some looked
    rw [put, looked, Option.getD_some, ih inside, putEntry_self listed]

end FluentCensus.Node
