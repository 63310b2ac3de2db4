import FluentCensus.Proofs.Csv.Document
import FluentCensus.Proofs.Json.Reading

namespace FluentCensus

theorem intText_inj {first second : Int}
    (same : String.ofList (intText first) = String.ofList (intText second)) : first = second := by
  have number := congrArg String.toInt? same
  rwa [intText_toInt?, intText_toInt?, Option.some.injEq] at number

namespace Json

theorem lookup_member (m : String × Json) (members : List (String × Json)) (name : String) :
    (m :: members).lookup name = if m.1 = name then some m.2 else members.lookup name := by
  obtain ⟨first, value⟩ := m
  rw [List.lookup_cons]
  by_cases same : name = first
  · simp [same]
  · rw [beq_false_of_ne same, if_neg (Ne.symm same)]

theorem lookup_replaced (members : List (String × Json)) (name other : String) (value : Json) :
    (members.map fun m => if m.1 = name then (name, value) else m).lookup other =
      if name = other ∧ members.any (·.1 = name) then some value else members.lookup other := by
  induction members with
  | nil => simp
  | cons m members ih =>
    obtain ⟨first, old⟩ := m
    rw [List.map_cons, lookup_member, lookup_member, ih, List.any_cons]
    by_cases found : first = name
    · by_cases same : name = other <;> simp [found, same]
    · rw [if_neg found, decide_eq_false found, Bool.false_or]
      by_cases here : first = other
      · subst here
        simp [Ne.symm found]
      · rw [if_neg here, if_neg here]

theorem lookup_missing {members : List (String × Json)} {name : String}
    (missing : name ∉ members.map Prod.fst) : members.lookup name = none := by
  rw [List.lookup_eq_none_iff]
  intro m member
  rw [bne_iff_ne]
  rintro rfl
  exact missing (List.mem_map_of_mem member)

theorem lookup_putMember (members : List (String × Json)) (name other : String) (value : Json) :
    (putMember members name value).lookup other =
      if name = other then some value else members.lookup other := by
  unfold putMember
  by_cases there : (members.any (·.1 = name)) = true
  · rw [if_pos there, lookup_replaced]
    simp only [there, and_true]
  · have missing : members.lookup name = none := lookup_missing (by simpa using there)
    rw [if_neg there, List.lookup_append, lookup_member]
    by_cases same : name = other
    · subst same
      rw [missing, if_pos rfl, if_pos rfl]
      rfl
    · rw [if_neg same, if_neg same]
      exact Option.or_none

theorem names_putMember (members : List (String × Json)) (name : String) (value : Json) :
    (putMember members name value).map Prod.fst =
      if name ∈ members.map Prod.fst then members.map Prod.fst
      else members.map Prod.fst ++ [name] := by
  have known : members.any (·.1 = name) ↔ name ∈ members.map Prod.fst := by simp
  unfold putMember
  by_cases there : (members.any (·.1 = name)) = true
  · rw [if_pos there, if_pos (known.mp there), List.map_map]
    refine List.map_congr_left fun m _ => ?_
    by_cases found : m.1 = name <;> simp [found]
  · rw [if_neg there, if_neg (there ∘ known.mpr), List.map_append]
    rfl

def last? (members : List (String × Json)) (name : String) : Option Json :=
  members.reverse.lookup name

theorem putMembers_cons (members : List (String × Json)) (m : String × Json)
    (added : List (String × Json)) :
    putMembers members (m :: added) = putMembers (putMember members m.1 m.2) added := rfl

theorem putMembers_append (members first second : List (String × Json)) :
    putMembers members (first ++ second) = putMembers (putMembers members first) second :=
  List.foldl_append

theorem lookup_putMembers (members added : List (String × Json)) (name : String) :
    (putMembers members added).lookup name = (last? added name <|> members.lookup name) := by
  induction added generalizing members with
  | nil => rfl
  | cons m added ih =>
    rw [putMembers_cons, ih, lookup_putMember, last?, last?, List.reverse_cons,
      List.lookup_append, lookup_member]
    by_cases same : m.1 = name
    · rw [if_pos same, if_pos same]
      cases added.reverse.lookup name <;> rfl
    · rw [if_neg same, if_neg same]
      cases added.reverse.lookup name <;> rfl

theorem distinct_putMembers {members : List (String × Json)}
    (distinct : (members.map Prod.fst).Nodup) (added : List (String × Json)) :
    ((putMembers members added).map Prod.fst).Nodup := by
  induction added generalizing members with
  | nil => exact distinct
  | cons m added ih =>
    refine ih ?_
    rw [names_putMember]
    split
    · exact distinct
    · rename_i missing
      exact List.Nodup.append distinct (List.nodup_singleton _) (by simpa using missing)

theorem last?_of_distinct {members : List (String × Json)}
    (distinct : (members.map Prod.fst).Nodup) (name : String) :
    last? members name = members.lookup name := by
  induction members with
  | nil => rfl
  | cons m members ih =>
    rw [List.map_cons, List.nodup_cons] at distinct
    rw [last?, List.reverse_cons, List.lookup_append, ← last?, ih distinct.2, lookup_member,
      lookup_member]
    by_cases same : m.1 = name
    · rw [if_pos same, if_pos same, lookup_missing (same ▸ distinct.1)]
      rfl
    · rw [if_neg same, if_neg same]
      exact Option.or_none

theorem proper_putMembers {members added : List (String × Json)}
    (old : Proper (.object members)) (new : ∀ m ∈ added, m.2.Proper) :
    Proper (.object (putMembers members added)) := by
  cases old with
  | object distinct old =>
    refine .object (distinct_putMembers distinct added) ?_
    clear distinct
    induction added generalizing members with
    | nil => exact old
    | cons m added ih =>
      obtain ⟨first, others⟩ := List.forall_mem_cons.mp new
      refine ih others ?_
      change ∀ other ∈ putMember members m.1 m.2, other.2.Proper
      unfold putMember
      split
      · intro other member
        obtain ⟨source, inside, rfl⟩ := List.mem_map.mp member
        split
        · exact first
        · exact old source inside
      · exact List.forall_mem_append.mpr ⟨old, List.forall_mem_singleton.mpr first⟩

/-- A histogram's object is the same map, with the lengths in decimals. -/
theorem lookup_histogram (entries : List (Int × Int)) (length : Int) :
    (entries.map fun e => (String.ofList (intText e.1), Json.int e.2)).lookup
        (String.ofList (intText length)) = (entries.lookup length).map .int := by
  induction entries with
  | nil => rfl
  | cons e entries ih =>
    obtain ⟨first, count⟩ := e
    rw [List.map_cons, lookup_member, ih, List.lookup_cons]
    by_cases same : first = length
    · simp [same]
    · have apart : String.ofList (intText first) ≠ String.ofList (intText length) :=
        fun equal => same (intText_inj equal)
      rw [if_neg apart, beq_false_of_ne (Ne.symm same)]

theorem names_histogram (h : Histogram) :
    (h.entries.map fun e => (String.ofList (intText e.1), Json.int e.2)).map Prod.fst =
      h.lengths.map fun length => String.ofList (intText length) := by
  rw [Histogram.lengths, List.map_map, List.map_map]
  rfl

theorem distinct_histogram {h : Histogram} (distinct : h.lengths.Nodup) :
    ((h.entries.map fun e => (String.ofList (intText e.1), Json.int e.2)).map Prod.fst).Nodup := by
  rw [names_histogram]
  exact distinct.map fun _ _ => intText_inj

theorem proper_ofHistogram {h : Histogram} (distinct : h.lengths.Nodup) :
    Proper (ofHistogram h) := by
  refine .object (distinct_histogram distinct) fun m member => ?_
  obtain ⟨e, _, rfl⟩ := List.mem_map.mp member
  exact .int e.2

end Json

end FluentCensus
