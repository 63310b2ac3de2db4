import FluentCensus.Proofs.Histogram.Count

namespace FluentCensus.Histogram

section Count

variable (entries : List (Int × Int)) (length : Int)

theorem count_cons (e : Int × Int) :
    count ⟨e :: entries⟩ length = (if e.1 = length then e.2 else 0) + count ⟨entries⟩ length := by
  unfold count
  by_cases same : e.1 = length
  · simp [same, sumOf]
  · simp [same]

theorem count_append (others : List (Int × Int)) :
    count ⟨entries ++ others⟩ length = count ⟨entries⟩ length + count ⟨others⟩ length := by
  unfold count
  dsimp only
  rw [List.filter_append, List.map_append, sumOf_append]

theorem count_flatMap (histograms : List Histogram) :
    count ⟨histograms.flatMap Histogram.entries⟩ length =
      sumOf (histograms.map (·.count length)) := by
  induction histograms with
  | nil => rfl
  | cons h rest ih =>
    rw [List.flatMap_cons, count_append, ih]
    rfl

theorem count_nonzero : count ⟨entries.filter (·.2 ≠ 0)⟩ length = count ⟨entries⟩ length := by
  induction entries with
  | nil => rfl
  | cons e rest ih =>
    by_cases zero : e.2 = 0
    · rw [List.filter_cons_of_neg (by simpa using zero), ih, count_cons, zero]
      simp
    · rw [List.filter_cons_of_pos (by simpa using zero), count_cons, count_cons, ih]

theorem insertEntry_count (amount other : Int) :
    count ⟨insertEntry length amount entries⟩ other =
      (if length = other then amount else 0) + count ⟨entries⟩ other := by
  fun_induction insertEntry length amount entries with
  | case1 => rw [count_cons]
  | case2 l n rest below => rw [count_cons]
  | case3 n rest below =>
    rw [count_cons, count_cons]
    dsimp only
    split <;> omega
  | case4 l n rest below apart ih =>
    rw [count_cons, count_cons, ih]
    omega

theorem bumps_count (h : Histogram) :
    (entries.foldl (fun h e => h.bump e.1 e.2) h).count length =
      count ⟨entries⟩ length + h.count length := by
  induction entries generalizing h with
  | nil => exact (Int.zero_add _).symm
  | cons e rest ih =>
    have bumped :
        (h.bump e.1 e.2).count length = (if e.1 = length then e.2 else 0) + h.count length :=
      insertEntry_count h.entries e.1 e.2 length
    rw [List.foldl_cons, ih, bumped, count_cons]
    omega

end Count

theorem count_perm {entries others : List (Int × Int)} (same : entries.Perm others) (length : Int) :
    count ⟨entries⟩ length = count ⟨others⟩ length :=
  sumOf_perm ((same.filter _).map Prod.snd)

theorem ofEntries_count (entries : List (Int × Int)) (length : Int) :
    (ofEntries entries).count length = count ⟨entries⟩ length := by
  rw [ofEntries, bumps_count, count_perm (List.mergeSort_perm _ _)]
  exact Int.add_zero _

theorem merge_count (histograms : List Histogram) (length : Int) :
    (merge histograms).count length = sumOf (histograms.map (·.count length)) := by
  rw [merge, count_nonzero]
  exact (ofEntries_count _ _).trans (count_flatMap length histograms)

theorem ofLengths_count (lengths : List Int) (length : Int) :
    (ofLengths lengths).count length = lengths.count length := by
  rw [ofLengths, ofEntries_count]
  induction lengths with
  | nil => rfl
  | cons head rest ih =>
    rw [List.map_cons, count_cons, ih, List.count_cons]
    by_cases same : head = length
    · simp [same, Int.add_comm]
    · simp [same]

theorem mem_of_count {entries : List (Int × Int)} {length : Int}
    (counted : count ⟨entries⟩ length ≠ 0) : ∃ e ∈ entries, e.1 = length := by
  by_contra absent
  push Not at absent
  apply counted
  unfold count
  rw [List.filter_eq_nil_iff.mpr fun e member => by simpa using absent e member]
  rfl

theorem count_of_mem {entries : List (Int × Int)} (ascending : Ascending entries) {e : Int × Int}
    (member : e ∈ entries) : count ⟨entries⟩ e.1 = e.2 := by
  induction entries with
  | nil => cases member
  | cons first rest ih =>
    obtain ⟨later, ascending⟩ := List.pairwise_cons.mp ascending
    rw [count_cons]
    rcases List.mem_cons.mp member with rfl | member
    · have nothing : count ⟨rest⟩ e.1 = 0 := by
        by_contra counted
        obtain ⟨other, among, same⟩ := mem_of_count counted
        exact (later other among).ne' same
      rw [if_pos rfl, nothing, Int.add_zero]
    · rw [if_neg (later e member).ne, ih ascending member, Int.zero_add]

/-- The entries ascend and none is zero, so that the counts of all lengths determine them. -/
structure Normal (h : Histogram) : Prop where
  ascending : Ascending h.entries
  nonzero : ∀ e ∈ h.entries, e.2 ≠ 0

namespace Normal

variable {h other : Histogram}

theorem nodup (normal : h.Normal) : h.entries.Nodup := by
  apply normal.ascending.imp
  rintro e _ below rfl
  exact lt_irrefl _ below

theorem mem_of_same (normal : h.Normal) (also : other.Normal)
    (same : ∀ length, h.count length = other.count length) {e : Int × Int}
    (member : e ∈ h.entries) : e ∈ other.entries := by
  have here : h.count e.1 = e.2 := count_of_mem normal.ascending member
  have counted : other.count e.1 ≠ 0 := by
    rw [← same, here]
    exact normal.nonzero e member
  obtain ⟨found, among, key⟩ := mem_of_count counted
  have there : other.count found.1 = found.2 := count_of_mem also.ascending among
  have value : found.2 = e.2 := by rw [← there, key, ← same, here]
  exact Prod.ext key value ▸ among

theorem ext (normal : h.Normal) (also : other.Normal)
    (same : ∀ length, h.count length = other.count length) : h = other := by
  have entries : h.entries.Perm other.entries := by
    rw [List.perm_ext_iff_of_nodup normal.nodup also.nodup]
    exact fun e => ⟨normal.mem_of_same also same,
      also.mem_of_same normal fun length => (same length).symm⟩
  have equal : h.entries = other.entries :=
    entries.eq_of_pairwise (fun _ _ _ _ below above => absurd below (lt_asymm above))
      normal.ascending also.ascending
  exact congrArg Histogram.mk equal

theorem merge (histograms : List Histogram) : (merge histograms).Normal where
  ascending := (ofEntries_ascending _).filter _
  nonzero e member := by simpa using (List.mem_filter.mp member).2

end Normal

theorem insertEntry_positive {length amount : Int} (positive : 0 < amount)
    {entries : List (Int × Int)} (all : ∀ e ∈ entries, 0 < e.2) :
    ∀ e ∈ insertEntry length amount entries, 0 < e.2 := by
  fun_induction insertEntry length amount entries with
  | case1 => exact List.forall_mem_singleton.mpr positive
  | case2 l n rest below => exact List.forall_mem_cons.mpr ⟨positive, all⟩
  | case3 n rest below =>
    obtain ⟨first, later⟩ := List.forall_mem_cons.mp all
    exact List.forall_mem_cons.mpr ⟨Int.add_pos first positive, later⟩
  | case4 l n rest below apart ih =>
    obtain ⟨first, later⟩ := List.forall_mem_cons.mp all
    exact List.forall_mem_cons.mpr ⟨first, ih later⟩

theorem ofLengths_positive (lengths : List Int) : ∀ e ∈ (ofLengths lengths).entries, 0 < e.2 := by
  have ones : ∀ e ∈ (lengths.map (·, (1 : Int))).mergeSort fun a b => b.1 ≤ a.1, 0 < e.2 := by
    intro e member
    obtain ⟨length, _, rfl⟩ := List.mem_map.mp (List.mem_mergeSort.mp member)
    exact Int.one_pos
  have bumps {entries : List (Int × Int)} (positive : ∀ e ∈ entries, 0 < e.2) (h : Histogram)
      (all : ∀ e ∈ h.entries, 0 < e.2) :
      ∀ e ∈ (entries.foldl (fun h e => h.bump e.1 e.2) h).entries, 0 < e.2 := by
    induction entries generalizing h with
    | nil => exact all
    | cons first rest ih =>
      obtain ⟨now, later⟩ := List.forall_mem_cons.mp positive
      exact ih later (h.bump first.1 first.2) (insertEntry_positive now all)
  exact bumps ones {} fun _ => nofun

theorem Normal.ofLengths (lengths : List Int) : (ofLengths lengths).Normal where
  ascending := ofLengths_ascending lengths
  nonzero e member := (ofLengths_positive lengths e member).ne'

theorem ofLengths_perm {lengths others : List Int} (same : lengths.Perm others) :
    ofLengths lengths = ofLengths others := by
  refine (Normal.ofLengths lengths).ext (.ofLengths others) fun length => ?_
  rw [ofLengths_count, ofLengths_count, same.count_eq]

theorem merge_ofLengths (parts : List (List Int)) :
    merge (parts.map ofLengths) = ofLengths parts.flatten := by
  refine (Normal.merge _).ext (.ofLengths _) fun length => ?_
  rw [merge_count, ofLengths_count, List.map_map]
  induction parts with
  | nil => rfl
  | cons first rest ih =>
    rw [List.flatten_cons, List.count_append, Int.natCast_add, ← ih, List.map_cons,
      Function.comp_apply, ofLengths_count]
    rfl

end FluentCensus.Histogram
