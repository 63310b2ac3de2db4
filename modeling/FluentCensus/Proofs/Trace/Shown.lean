import FluentCensus.Proofs.Json.Member
import FluentCensus.Proofs.Json.Within
import FluentCensus.Proofs.Text.Encoding
import FluentCensus.Trace.Record

namespace FluentCensus

/-- The object is the same map as the histogram, with the lengths in decimals. -/
structure Histogram.Shown (h : Histogram) (members : List (String × Json)) : Prop where
  names : members.map Prod.fst = h.lengths.map fun length => String.ofList (intText length)
  distinct : h.lengths.Nodup → (members.map Prod.fst).Nodup
  counts : ∀ length,
    members.lookup (String.ofList (intText length)) = (h.entries.lookup length).map .int

def Record.names : List String := ["run_id", "stage", "project", "files", "chains", "histogram",
  "latency_ms", "ok", "error_type", "extra"]

/-- The value is the object of a record, member by member, and has these extras. -/
structure Json.Shows (value : Json) (r : Record) (extra : String → Option Json) : Prop where
  names : ∃ members, value = .object members ∧ members.map Prod.fst = Record.names
  runId : value.get? "run_id" = some (.string r.runId)
  stage : value.get? "stage" = some (.string r.stage)
  project : value.get? "project" = some (Record.optional .string r.project)
  files : value.get? "files" = some (Record.optional .int r.measures.files)
  chains : value.get? "chains" = some (Record.optional .int r.measures.chains)
  unmeasured : r.measures.histogram = none → value.get? "histogram" = some .null
  histogram : ∀ h, r.measures.histogram = some h →
    ∃ members, value.get? "histogram" = some (.object members) ∧ h.Shown members
  latency : value.get? "latency_ms" = some (Record.optional .int r.latency)
  ok : ∃ ok, value.get? "ok" = some (.bool ok) ∧ (ok = true ↔ r.error = none)
  error : value.get? "error_type" = some (.string (r.error.getD ""))
  extra : ∃ members, value.get? "extra" = some (.object members) ∧
    ∀ name, members.lookup name = extra name

namespace Record

theorem toJson_shows (r : Record) {members : List (String × Json)} {extra : String → Option Json}
    (same : ∀ name, members.lookup name = extra name) :
    ({ r with extra := members } : Record).toJson.Shows r extra where
  names := ⟨_, rfl, rfl⟩
  runId := rfl
  stage := rfl
  project := rfl
  files := rfl
  chains := rfl
  unmeasured missing := congrArg (fun h => some (optional Json.ofHistogram h)) missing
  histogram h measured :=
    ⟨_, congrArg (fun h => some (optional Json.ofHistogram h)) measured,
      Json.names_histogram h, Json.distinct_histogram, Json.lookup_histogram h.entries⟩
  latency := rfl
  ok := ⟨r.error.isNone, rfl, Option.isNone_iff_eq_none⟩
  error := rfl
  extra := ⟨members, rfl, same⟩

structure Proper (r : Record) : Prop where
  extra : Json.Proper (.object r.extra)
  histogram : ∀ h, r.measures.histogram = some h → h.lengths.Nodup

theorem Proper.toJson {r : Record} (proper : r.Proper) : r.toJson.Proper := by
  have optional {α : Type} {toJson : α → Json} {a : Option α}
      (each : ∀ b, a = some b → (toJson b).Proper) : (optional toJson a).Proper := by
    cases a with
    | none => exact .null
    | some b => exact each b rfl
  refine .named names rfl (by decide) ?_
  simp only [List.forall_mem_cons, List.not_mem_nil, false_implies, implies_true, and_true]
  exact ⟨.string _, .string _, optional fun _ _ => .string _, optional fun _ _ => .int _,
    optional fun _ _ => .int _, optional fun h measured =>
      Json.proper_ofHistogram (proper.histogram h measured),
    optional fun _ _ => .int _, .bool _, .string _, proper.extra⟩

/-- The line of a record is the text of its object. It has no line feed but the one at its end, and
    the object is read from it. -/
theorem line_reads {r : Record} (proper : r.Proper) :
    r.line = r.toJson.text ++ ['\n'] ∧ r.toJson.text ≠ [] ∧ '\n' ∉ r.toJson.text ∧
      Json.read? r.toJson.text = some r.toJson := by
  obtain ⟨c, more, head, _⟩ := proper.toJson.reads.head
  have within := proper.toJson.within fun c (visible : 0x20 ≤ c.toNat) => visible
  refine ⟨rfl, ?_, fun member => ?_, Json.read?_text proper.toJson⟩
  · rw [head]
    exact nofun
  · exact absurd (within.text (fun _ visible _ => visible) _ member) (by decide)

end Record

theorem splitOn_lines (lines : List (List Char)) (unbroken : ∀ line ∈ lines, '\n' ∉ line) :
    (lines.flatMap (· ++ ['\n'])).splitOn '\n' = lines ++ [[]] := by
  have joined : lines.flatMap (· ++ ['\n']) = ['\n'].intercalate (lines ++ [[]]) := by
    clear unbroken
    induction lines with
    | nil => rfl
    | cons line lines ih =>
      obtain ⟨next, rest, split⟩ : ∃ next rest, lines ++ [[]] = next :: rest :=
        List.exists_cons_of_ne_nil (List.append_ne_nil_of_right_ne_nil lines nofun)
      rw [List.flatMap_cons, ih, List.cons_append, split]
      simp [List.intercalate]
  rw [joined, List.splitOn_intercalate]
  · exact List.forall_mem_append.mpr ⟨unbroken, List.forall_mem_singleton.mpr nofun⟩
  · exact List.append_ne_nil_of_right_ne_nil lines nofun

/-- The bytes are one line, from which the object of the record with these extras is read. -/
def Record.Logged (r : Record) (extra : String → Option Json) (bytes : List UInt8) : Prop :=
  ∃ line value, Utf8.decode bytes = line ++ ['\n'] ∧ '\n' ∉ line ∧ Json.read? line = some value ∧
    value.Shows r extra

theorem Record.logged (r : Record) {members : List (String × Json)}
    {extra : String → Option Json} (same : ∀ name, members.lookup name = extra name)
    (proper : ({ r with extra := members } : Record).Proper) :
    r.Logged extra (Utf8.encode ({ r with extra := members } : Record).line) := by
  obtain ⟨_, _, unbroken, read⟩ := Record.line_reads proper
  exact ⟨_, _, Utf8.decode_encode _, unbroken, read, Record.toJson_shows r same⟩

def Json.Lines (bytes : List UInt8) (values : List Json) : Prop :=
  ∃ lines, (Utf8.decode bytes).splitOn '\n' = lines ++ [[]] ∧
    lines.map Json.read? = values.map some

theorem Record.lines_read {records : List Record} (proper : ∀ r ∈ records, r.Proper) :
    Json.Lines (Utf8.encode (records.flatMap Record.line)) (records.map Record.toJson) := by
  let lines := records.map fun r => r.toJson.text
  have text : records.flatMap Record.line = lines.flatMap (· ++ ['\n']) := by
    rw [List.flatMap_map]
    rfl
  refine ⟨lines, ?_, ?_⟩
  · rw [Utf8.decode_encode, text, splitOn_lines]
    intro line member
    obtain ⟨r, inside, rfl⟩ := List.mem_map.mp member
    exact (Record.line_reads (proper r inside)).2.2.1
  · rw [List.map_map, List.map_map]
    exact List.map_congr_left fun r inside => (Record.line_reads (proper r inside)).2.2.2

def Recorded (bytes : List UInt8) (records : List Record) : Prop :=
  ∃ values, Json.Lines bytes values ∧ List.Forall₂ (fun value (r : Record) =>
    value.Shows r fun name => r.extra.lookup name) values records

theorem recorded_lines {records : List Record} (proper : ∀ r ∈ records, r.Proper) :
    Recorded (Utf8.encode (records.flatMap Record.line)) records := by
  refine ⟨_, Record.lines_read proper, ?_⟩
  rw [List.forall₂_map_left_iff, List.forall₂_same]
  exact fun r _ => r.toJson_shows fun _ => rfl

end FluentCensus
