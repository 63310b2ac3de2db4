import FluentCensus.Proofs.Text.Encodable
import FluentCensus.Proofs.Tree.Opening
import FluentCensus.Summary

namespace FluentCensus.Summary

variable {memory : Nat → Bool}

theorem projectJson_ok_iff {s : Survey} {entry : Json} :
    projectJson memory s = .ok entry ↔ ∃ figures, s.stats memory = .ok figures ∧
      entry = .object [
        ("project", .string s.name),
        ("path", .string s.path.toString),
        ("files", .int s.files),
        ("histogram", .ofHistogram s.histogram),
        ("stats", statsJson figures)] := by
  unfold projectJson
  cases s.stats memory with
  | error e => simp
  | ok figures => simp [eq_comm]

theorem json_ok_iff {surveys : List Survey} {value : Json} :
    json memory surveys = .ok value ↔ ∃ entries,
      surveys.mapM (projectJson memory) = .ok entries ∧ value = .object [
        ("projects", .array entries),
        ("total_files", .int (sumOf (surveys.map Survey.files))),
        ("total_chains", .int (sumOf (surveys.map Survey.chains)))] := by
  unfold json
  cases surveys.mapM (projectJson memory) with
  | error e => simp
  | ok entries => simp [eq_comm]

/-- There is a summary just if there are figures of each survey. -/
theorem json_total {surveys : List Survey} :
    (∃ value, json memory surveys = .ok value) ↔
      ∀ s ∈ surveys, ∃ figures, s.stats memory = .ok figures := by
  have each (s : Survey) :
      (∃ entry, projectJson memory s = .ok entry) ↔ ∃ figures, s.stats memory = .ok figures := by
    simp only [projectJson_ok_iff]
    exact ⟨fun ⟨_, figures, stats, _⟩ => ⟨figures, stats⟩,
      fun ⟨figures, stats⟩ => ⟨_, figures, stats, rfl⟩⟩
  rw [← forall₂_congr fun s _ => each s, ← mapM_ok_iff]
  simp only [json_ok_iff]
  exact ⟨fun ⟨_, entries, listed, _⟩ => ⟨entries, listed⟩,
    fun ⟨entries, listed⟩ => ⟨_, entries, listed, rfl⟩⟩

theorem forall_entries {surveys : List Survey} {entries : List Json} {good : Survey → Prop}
    {fine : Json → Prop} (listed : surveys.mapM (projectJson memory) = .ok entries)
    (each : ∀ s ∈ surveys, good s)
    (entry : ∀ s figures, good s → fine (.object [
      ("project", .string s.name),
      ("path", .string s.path.toString),
      ("files", .int s.files),
      ("histogram", .ofHistogram s.histogram),
      ("stats", statsJson figures)])) : ∀ value ∈ entries, fine value := by
  intro value member
  obtain ⟨s, among, described⟩ := mapM_ok_result listed value member
  obtain ⟨figures, _, rfl⟩ := projectJson_ok_iff.mp described
  exact entry s figures (each s among)

theorem json_writes {m : Machine} {surveys : List Survey} {value : Json}
    (described : json memory surveys = .ok value)
    (plain : ∀ s ∈ surveys, m.encodable s.name.toList = true ∧
      m.encodable s.path.toString.toList = true) : m.Writes value := by
  obtain ⟨entries, listed, rfl⟩ := json_ok_iff.mp described
  have stats (figures : Stats Float) : m.Writes (statsJson figures) := by
    refine .named ["chains", "mean_length", "median_length", "p95_length", "max_length",
      "chained_share"] rfl (by decide) ?_
    simp only [List.forall_mem_cons, List.not_mem_nil, false_implies, implies_true, and_true]
    exact ⟨.int _, .float m _, .float m _, .float m _, .int _, .float m _⟩
  refine .named ["projects", "total_files", "total_chains"] rfl (by decide) ?_
  simp only [List.forall_mem_cons, List.not_mem_nil, false_implies, implies_true, and_true]
  refine ⟨.array (forall_entries listed plain fun s figures plain => ?_), .int _, .int _⟩
  refine Machine.Writes.named ["project", "path", "files", "histogram", "stats"] rfl (by decide) ?_
  simp only [List.forall_mem_cons, List.not_mem_nil, false_implies, implies_true, and_true]
  exact ⟨.string plain.1, .string plain.2, .int _, .histogram m _, stats figures⟩

theorem json_proper {surveys : List Survey} {value : Json}
    (described : json memory surveys = .ok value)
    (distinct : ∀ s ∈ surveys, s.histogram.lengths.Nodup) : value.Proper := by
  obtain ⟨entries, listed, rfl⟩ := json_ok_iff.mp described
  have stats (figures : Stats Float) : (statsJson figures).Proper := by
    refine .named ["chains", "mean_length", "median_length", "p95_length", "max_length",
      "chained_share"] rfl (by decide) ?_
    simp only [List.forall_mem_cons, List.not_mem_nil, false_implies, implies_true, and_true]
    exact ⟨.int _, Json.proper_ofFloat _, Json.proper_ofFloat _, Json.proper_ofFloat _, .int _,
      Json.proper_ofFloat _⟩
  refine .named ["projects", "total_files", "total_chains"] rfl (by decide) ?_
  simp only [List.forall_mem_cons, List.not_mem_nil, false_implies, implies_true, and_true]
  refine ⟨.array (forall_entries listed distinct fun s figures distinct => ?_), .int _, .int _⟩
  refine .named ["project", "path", "files", "histogram", "stats"] rfl (by decide) ?_
  simp only [List.forall_mem_cons, List.not_mem_nil, false_implies, implies_true, and_true]
  exact ⟨.string _, .string _, .int _, Json.proper_ofHistogram distinct, stats figures⟩

end FluentCensus.Summary
