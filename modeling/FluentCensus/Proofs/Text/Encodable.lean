import FluentCensus.Csv.Row
import FluentCensus.Proofs.Trace.Shown
import FluentCensus.Tree.Machine

namespace FluentCensus

namespace Machine

variable {m : Machine} {first second : List Char}

theorem encodable_iff {text : List Char} :
    m.encodable text = true ↔ ∀ c ∈ text, m.standIn? c = none := by
  simp [encodable]

theorem standIn?_ascii {c : Char} (ascii : c.toNat < 0x80) : m.standIn? c = none := if_pos ascii

theorem visible (m : Machine) : Json.Visible fun c => m.standIn? c = none :=
  fun _ _ ascii => standIn?_ascii ascii

theorem encodable_ascii {text : List Char} (ascii : text.all (·.toNat < 0x80) = true) :
    m.encodable text = true :=
  encodable_iff.mpr fun c member =>
    standIn?_ascii (of_decide_eq_true (List.all_eq_true.mp ascii c member))

theorem encodable_word (m : Machine) (word : String)
    (ascii : word.toList.all (·.toNat < 0x80) = true) : m.encodable word.toList = true :=
  encodable_ascii ascii

theorem encodable_all (nothing : m.byte? = fun _ => none) (text : List Char) :
    m.encodable text = true := by
  refine encodable_iff.mpr fun c _ => ?_
  rw [standIn?, nothing]
  split <;> rfl

theorem encodable_append :
    m.encodable (first ++ second) = true ↔
      m.encodable first = true ∧ m.encodable second = true := by
  simp only [encodable_iff, List.forall_mem_append]

theorem encodable_label (m : Machine) (fault : Fault) :
    m.encodable fault.label.toList = true := by
  refine encodable_ascii ?_
  have refused (refusal : Refusal) : refusal.label.toList.all (·.toNat < 0x80) = true := by
    cases refusal <;> decide
  unfold Fault.label
  split
  case h_1 | h_2 => exact refused _
  all_goals decide

def Writes (m : Machine) (v : Json) : Prop := v.Within fun c => m.standIn? c = none

theorem Writes.all (nothing : m.byte? = fun _ => none) {v : Json} (proper : v.Proper) :
    m.Writes v :=
  proper.within fun c _ => encodable_iff.mp (encodable_all nothing [c]) c List.mem_cons_self

theorem Writes.string {s : String} (plain : m.encodable s.toList = true) : m.Writes (.string s) :=
  Json.Within.string fun c member _ => encodable_iff.mp plain c member

theorem Writes.object {members : List (String × Json)}
    (each : ∀ e ∈ members, m.encodable e.1.toList = true ∧ m.Writes e.2) :
    m.Writes (.object members) :=
  Json.Within.object (fun e member c seen _ => encodable_iff.mp (each e member).1 c seen)
    fun e member => (each e member).2

/-- An object whose names are fixed ASCII words is as fit to be written as its values are. -/
theorem Writes.named {members : List (String × Json)} (names : List String)
    (same : members.map Prod.fst = names)
    (ascii : names.all (fun name => name.toList.all (·.toNat < 0x80)) = true)
    (each : ∀ e ∈ members, m.Writes e.2) : m.Writes (.object members) := by
  refine .object fun e member => ⟨encodable_ascii ?_, each e member⟩
  exact List.all_eq_true.mp ascii e.1 (same ▸ List.mem_map_of_mem member)

theorem Writes.append {first second : List (String × Json)} (before : m.Writes (.object first))
    (after : m.Writes (.object second)) : m.Writes (.object (first ++ second)) := by
  cases before with
  | object names each =>
    cases after with
    | object others more =>
      exact Json.Within.object (List.forall_mem_append.mpr ⟨names, others⟩)
        (List.forall_mem_append.mpr ⟨each, more⟩)

theorem Writes.putMembers {members added : List (String × Json)}
    (old : m.Writes (.object members)) (new : m.Writes (.object added)) :
    m.Writes (.object (Json.putMembers members added)) := by
  induction added generalizing members with
  | nil => exact old
  | cons first added ih =>
    cases new with
    | object names each =>
      obtain ⟨name, others⟩ := List.forall_mem_cons.mp names
      obtain ⟨value, rest⟩ := List.forall_mem_cons.mp each
      rw [Json.putMembers_cons]
      refine ih ?_ (Json.Within.object others rest)
      cases old with
      | object named kept =>
        unfold Json.putMember
        split
        · refine Json.Within.object (List.forall_mem_map.mpr fun e member => ?_)
            (List.forall_mem_map.mpr fun e member => ?_)
          · split
            · exact name
            · exact named e member
          · split
            · exact value
            · exact kept e member
        · exact Json.Within.object
            (List.forall_mem_append.mpr ⟨named, List.forall_mem_singleton.mpr name⟩)
            (List.forall_mem_append.mpr ⟨kept, List.forall_mem_singleton.mpr value⟩)

theorem Writes.histogram (m : Machine) (h : Histogram) : m.Writes (.ofHistogram h) := by
  refine Json.Within.object (List.forall_mem_map.mpr fun e _ => ?_)
    (List.forall_mem_map.mpr fun e _ => .int _)
  rw [String.toList_ofList]
  exact fun c member _ => List.forall_mem_append.mpr ⟨m.visible.sign _,
    m.visible.digits Decimal.isDigit_digitText⟩ c member

theorem Writes.float (m : Machine) (x : Float) : m.Writes (.ofFloat x) := by
  unfold Json.ofFloat
  split
  · exact .undefined
  · split
    · exact .infinity _
    · exact .real _

theorem Writes.text {v : Json} (writes : m.Writes v) : m.encodable v.text = true :=
  encodable_iff.mpr (Json.Within.text m.visible writes)

theorem Writes.indented {v : Json} (writes : m.Writes v) (depth : Nat) :
    m.encodable (v.indented depth) = true :=
  encodable_iff.mpr (Json.Within.indented m.visible (standIn?_ascii (by decide)) writes depth)

end Machine

structure Record.Textual (m : Machine) (r : Record) : Prop where
  runId : m.encodable r.runId.toList = true
  stage : m.encodable r.stage.toList = true
  project : ∀ name, r.project = some name → m.encodable name.toList = true
  error : ∀ label, r.error = some label → m.encodable label.toList = true
  extra : m.Writes (.object r.extra)

namespace Record.Textual

variable {m : Machine} {r : Record}

theorem all (nothing : m.byte? = fun _ => none) (proper : r.Proper) : r.Textual m where
  runId := Machine.encodable_all nothing _
  stage := Machine.encodable_all nothing _
  project _ _ := Machine.encodable_all nothing _
  error _ _ := Machine.encodable_all nothing _
  extra := .all nothing proper.extra

theorem toJson (textual : r.Textual m) : m.Writes r.toJson := by
  have optional {α : Type} {toJson : α → Json} {a : Option α}
      (each : ∀ b, a = some b → m.Writes (toJson b)) : m.Writes (Record.optional toJson a) := by
    cases a with
    | none => exact .null
    | some b => exact each b rfl
  have label : m.encodable (r.error.getD "").toList = true := by
    cases failed : r.error with
    | none => rfl
    | some label => exact textual.error label failed
  refine .named names rfl (by decide) ?_
  simp only [List.forall_mem_cons, List.not_mem_nil, false_implies, implies_true, and_true]
  exact ⟨.string textual.runId, .string textual.stage,
    optional fun _ given => .string (textual.project _ given), optional fun _ _ => .int _,
    optional fun _ _ => .int _, optional fun _ _ => .histogram m _, optional fun _ _ => .int _,
    .bool _, .string label, textual.extra⟩

theorem line (textual : r.Textual m) : m.encodable r.line = true :=
  Machine.encodable_append.mpr ⟨textual.toJson.text, Machine.encodable_ascii rfl⟩

end Record.Textual

theorem Record.plain_project {m : Machine} {r : Record} {name : String}
    (plain : m.encodable r.line = true) (given : r.project = some name) :
    m.encodable name.toList = true := by
  refine Machine.encodable_iff.mpr fun c member => ?_
  by_cases beyond : c.toNat < 0x80
  · exact Machine.standIn?_ascii beyond
  · have quoted : c ∈ (Record.optional Json.string r.project).text := by
      rw [given, Record.optional, Json.text]
      exact Json.mem_quoted member (Nat.not_lt.mp beyond)
    have inside : c ∈ r.toJson.text :=
      Json.mem_text_object (e := ("project", Record.optional Json.string r.project))
        (by simp) quoted
    exact Machine.encodable_iff.mp plain c (List.mem_append_left _ inside)

namespace Csv

variable {m : Machine}

theorem encodable_intText (m : Machine) (n : Int) : m.encodable (intText n) = true :=
  Machine.encodable_iff.mpr (List.forall_mem_append.mpr
    ⟨m.visible.sign _, m.visible.digits Decimal.isDigit_digitText⟩)

theorem encodable_field {text : List Char} (plain : m.encodable text = true) :
    m.encodable (field text) = true := by
  have quote : m.standIn? '"' = none := Machine.standIn?_ascii (by decide)
  unfold field
  split
  · refine Machine.encodable_iff.mpr (List.forall_mem_cons.mpr ⟨quote, List.forall_mem_append.mpr
      ⟨fun c member => ?_, List.forall_mem_singleton.mpr quote⟩⟩)
    obtain ⟨source, inside, here⟩ := List.mem_flatMap.mp member
    split at here
    · exact (List.mem_pair.mp here).elim (· ▸ quote) (· ▸ quote)
    · exact List.mem_singleton.mp here ▸ Machine.encodable_iff.mp plain source inside
  · exact plain

theorem encodable_rows {s : Survey} (plain : m.encodable s.name.toList = true) :
    m.encodable ((rows s).flatMap endLine) = true := by
  have between : m.encodable separator = true := Machine.encodable_ascii rfl
  refine Machine.encodable_iff.mpr fun c member => ?_
  obtain ⟨line, inside, here⟩ := List.mem_flatMap.mp member
  obtain ⟨e, _, rfl⟩ := List.mem_map.mp inside
  have shape : endLine (row s.name.toList e.1 e.2) = field s.name.toList ++ (separator ++
      (intText e.1 ++ (separator ++ (intText e.2 ++ ['\n'])))) := by
    simp [endLine, row, List.intercalate]
  rw [shape] at here
  refine Machine.encodable_iff.mp ?_ c here
  simp only [Machine.encodable_append, encodable_field plain, between, encodable_intText, true_and]
  exact Machine.encodable_ascii rfl

end Csv

end FluentCensus
