import FluentCensus.Proofs.Json.Reading

namespace FluentCensus.Json

/-- The condition holds of every character that stands in a text inside the value, but for control
    characters, which are never written as they are. -/
inductive Within (p : Char → Prop) : Json → Prop where
  | null : Within p .null
  | bool (b : Bool) : Within p (.bool b)
  | int (n : Int) : Within p (.int n)
  | real (x : Decimal) : Within p (.real x)
  | infinity (negative : Bool) : Within p (.infinity negative)
  | undefined : Within p .undefined
  | string {s : String} (each : ∀ c ∈ s.toList, 0x20 ≤ c.toNat → p c) : Within p (.string s)
  | array {items : List Json} (each : ∀ v ∈ items, Within p v) : Within p (.array items)
  | object {members : List (String × Json)}
      (names : ∀ m ∈ members, ∀ c ∈ m.1.toList, 0x20 ≤ c.toNat → p c)
      (each : ∀ m ∈ members, Within p m.2) : Within p (.object members)

theorem Proper.within {p : Char → Prop} {v : Json} (proper : v.Proper)
    (each : ∀ c : Char, 0x20 ≤ c.toNat → p c) : v.Within p := by
  induction proper with
  | null => exact .null
  | bool b => exact .bool b
  | int n => exact .int n
  | real _ => exact .real _
  | infinity negative => exact .infinity negative
  | undefined => exact .undefined
  | string s => exact .string fun c _ => each c
  | array _ ih => exact .array ih
  | object _ _ ih => exact .object (fun _ _ c _ => each c) ih

section Within

def Visible (p : Char → Prop) : Prop := ∀ c : Char, 0x20 ≤ c.toNat → c.toNat < 0x80 → p c

variable {p : Char → Prop} (visible : Visible p)

include visible

theorem Visible.word {text : List Char}
    (seen : text.all (fun c => decide (0x20 ≤ c.toNat ∧ c.toNat < 0x80)) = true) :
    ∀ c ∈ text, p c := by
  intro c member
  have both := of_decide_eq_true (List.all_eq_true.mp seen c member)
  exact visible c both.1 both.2

theorem Visible.digits {digits : List Char} (all : ∀ c ∈ digits, isDigit c) :
    ∀ c ∈ digits, p c := by
  intro c member
  have digit := all c member
  rw [isDigit, Bool.and_eq_true, decide_eq_true_eq, decide_eq_true_eq] at digit
  exact visible c (Nat.le_trans (by decide) (Char.le_def.mp digit.1))
    (Nat.lt_of_le_of_lt (Char.le_def.mp digit.2) (by decide))

theorem Visible.sign (negative : Prop) [Decidable negative] :
    ∀ c ∈ if negative then ['-'] else [], p c := by
  split
  · exact visible.word (by decide)
  · exact nofun

theorem Visible.plainText {digits : List Char} (all : ∀ c ∈ digits, isDigit c) (lead : Int) :
    ∀ c ∈ Decimal.plainText digits lead, p c := by
  have zeros (count : Nat) : ∀ c ∈ Decimal.zeros count, p c :=
    visible.digits (Decimal.isDigit_zeros count)
  have part {some_digits : List Char} (sub : some_digits ⊆ digits) : ∀ c ∈ some_digits, p c :=
    visible.digits fun c member => all c (sub member)
  have point : p '.' := visible _ (by decide) (by decide)
  unfold Decimal.plainText
  split
  · exact List.forall_mem_cons.mpr ⟨visible _ (by decide) (by decide), List.forall_mem_cons.mpr
      ⟨point, List.forall_mem_append.mpr ⟨zeros _, part (List.Subset.refl _)⟩⟩⟩
  · dsimp only
    split
    · exact List.forall_mem_append.mpr ⟨List.forall_mem_append.mpr
        ⟨part (List.Subset.refl _), zeros _⟩, List.forall_mem_cons.mpr ⟨point, zeros 1⟩⟩
    · exact List.forall_mem_append.mpr ⟨part (List.take_subset _ _),
        List.forall_mem_cons.mpr ⟨point, part (List.drop_subset _ _)⟩⟩

theorem Visible.scaledText (layout : Decimal.Layout) {digits : List Char}
    (all : ∀ c ∈ digits, isDigit c) (lead : Int) :
    ∀ c ∈ Decimal.scaledText layout digits lead, p c := by
  have part {some_digits : List Char} (sub : some_digits ⊆ digits) : ∀ c ∈ some_digits, p c :=
    visible.digits fun c member => all c (sub member)
  have point : ∀ c ∈ if digits.length ≤ 1 then [] else '.' :: digits.drop 1, p c := by
    split
    · exact nofun
    · exact List.forall_mem_cons.mpr ⟨visible _ (by decide) (by decide),
        part (List.drop_subset _ _)⟩
  have sign : p (if lead < 0 then '-' else '+') := by
    split <;> exact visible _ (by decide) (by decide)
  have power {count : Nat} : ∀ c ∈ Decimal.zeros count ++ Decimal.digitText lead.natAbs, p c :=
    List.forall_mem_append.mpr ⟨visible.digits (Decimal.isDigit_zeros _),
      visible.digits Decimal.isDigit_digitText⟩
  exact List.forall_mem_append.mpr ⟨List.forall_mem_append.mpr
    ⟨part (List.take_subset _ _), point⟩, List.forall_mem_cons.mpr
    ⟨visible _ (by decide) (by decide), List.forall_mem_cons.mpr ⟨sign, power⟩⟩⟩

theorem Visible.number (layout : Decimal.Layout) (d : Decimal) : ∀ c ∈ d.text layout, p c := by
  have digits := (whole_digitText d.digits).all
  unfold Decimal.text
  dsimp only
  generalize (if d.digits = 0 then 0 else _ : Int) = lead
  refine List.forall_mem_append.mpr ⟨visible.sign _, ?_⟩
  split
  · exact visible.plainText digits lead
  · exact visible.scaledText layout digits lead

theorem Visible.escape {c : Char} (own : 0x20 ≤ c.toNat → p c) : ∀ d ∈ escape c, p d := by
  have hex : ∀ n < 16, 0x20 ≤ (Nat.digitChar n).toNat ∧ (Nat.digitChar n).toNat < 0x80 := by
    decide
  unfold Json.escape
  split
  case h_8 =>
    split
    · have high := hex (c.toNat / 16) (by omega)
      have low := hex (c.toNat % 16) (by omega)
      have start : ∀ d ∈ ['\\', 'u', '0', '0'], p d := visible.word (by decide)
      exact List.forall_mem_append.mpr ⟨start, List.forall_mem_cons.mpr
        ⟨visible _ high.1 high.2, List.forall_mem_singleton.mpr (visible _ low.1 low.2)⟩⟩
    · rename_i seen
      exact List.forall_mem_singleton.mpr (own (Nat.not_lt.mp seen))
  all_goals exact visible.word (by decide)

theorem Visible.quoted {s : String} (each : ∀ c ∈ s.toList, 0x20 ≤ c.toNat → p c) :
    ∀ c ∈ quoted s, p c := by
  have quote : p '"' := visible _ (by decide) (by decide)
  refine List.forall_mem_cons.mpr ⟨quote, List.forall_mem_append.mpr ⟨?_,
    List.forall_mem_singleton.mpr quote⟩⟩
  intro c member
  obtain ⟨source, inside, escaped⟩ := List.mem_flatMap.mp member
  exact visible.escape (each source inside) c escaped

omit visible in
theorem within_intercalate {gap : List Char} {texts : List (List Char)}
    (comma : ∀ c ∈ ',' :: gap, p c) (each : ∀ text ∈ texts, ∀ c ∈ text, p c) :
    ∀ c ∈ (',' :: gap).intercalate texts, p c := by
  induction texts with
  | nil => exact nofun
  | cons first rest ih =>
    obtain ⟨head, others⟩ := List.forall_mem_cons.mp each
    cases rest with
    | nil => simpa [List.intercalate] using head
    | cons second rest =>
      rw [intercalate_pair, ← List.cons_append]
      exact List.forall_mem_append.mpr ⟨head, List.forall_mem_append.mpr ⟨comma, ih others⟩⟩

theorem Visible.member {print : Json → List Char} {m : String × Json}
    (name : ∀ c ∈ m.1.toList, 0x20 ≤ c.toNat → p c) (value : ∀ c ∈ print m.2, p c) :
    ∀ c ∈ memberText print m, p c := by
  have between : p ':' ∧ p ' ' :=
    ⟨visible _ (by decide) (by decide), visible _ (by decide) (by decide)⟩
  exact List.forall_mem_append.mpr ⟨visible.quoted name, List.forall_mem_cons.mpr
    ⟨between.1, List.forall_mem_cons.mpr ⟨between.2, value⟩⟩⟩

/-- Nothing is written for a value but visible ASCII characters and what the texts in it hold. -/
theorem Within.text {v : Json} (within : v.Within p) : ∀ c ∈ v.text, p c := by
  have mark (c : Char) (seen : 0x20 ≤ c.toNat ∧ c.toNat < 0x80) : p c := visible c seen.1 seen.2
  have comma : ∀ c ∈ [',', ' '], p c := visible.word (by decide)
  induction within with
  | null | undefined =>
    rw [Json.text]
    exact visible.word (by decide)
  | bool b =>
    cases b <;> rw [Json.text] <;> exact visible.word (by decide)
  | infinity negative =>
    rw [Json.text]
    exact List.forall_mem_append.mpr ⟨visible.sign _, visible.word (by decide)⟩
  | int n =>
    rw [Json.text]
    exact List.forall_mem_append.mpr ⟨visible.sign _, visible.digits Decimal.isDigit_digitText⟩
  | real x =>
    rw [Json.text]
    exact visible.number reals x
  | string each =>
    rw [Json.text]
    exact visible.quoted each
  | array each ih =>
    rw [Json.text]
    refine List.forall_mem_cons.mpr ⟨mark _ (by decide), List.forall_mem_append.mpr
      ⟨within_intercalate comma ?_, List.forall_mem_singleton.mpr (mark _ (by decide))⟩⟩
    exact List.forall_mem_map.mpr ih
  | object names each ih =>
    rw [text_object]
    refine List.forall_mem_cons.mpr ⟨mark _ (by decide), List.forall_mem_append.mpr
      ⟨within_intercalate comma ?_, List.forall_mem_singleton.mpr (mark _ (by decide))⟩⟩
    exact List.forall_mem_map.mpr fun m member => visible.member (names m member) (ih m member)

theorem Within.indented (broken : p '\n') {v : Json} (within : v.Within p) (depth : Nat) :
    ∀ c ∈ v.indented depth, p c := by
  have mark (c : Char) (seen : 0x20 ≤ c.toNat ∧ c.toNat < 0x80) : p c := visible c seen.1 seen.2
  have comma : p ',' := mark _ (by decide)
  have line (depth : Nat) : ∀ c ∈ newLine depth, p c :=
    List.forall_mem_cons.mpr ⟨broken, fun c member => (List.mem_replicate.mp member).2 ▸
      mark _ (by decide)⟩
  induction within generalizing depth with
  | null => simpa [Json.indented] using Within.null.text visible
  | undefined => simpa [Json.indented] using Within.undefined.text visible
  | bool b => simpa [Json.indented] using (Within.bool b).text visible
  | infinity negative => simpa [Json.indented] using (Within.infinity negative).text visible
  | int n => simpa [Json.indented] using (Within.int n).text visible
  | real x => simpa [Json.indented] using (Within.real x).text visible
  | string each => simpa [Json.indented] using (Within.string each).text visible
  | @array items each ih =>
    cases items with
    | nil => simpa [Json.indented, Json.text] using (Within.array each).text visible
    | cons first items =>
      rw [Json.indented]
      · refine List.forall_mem_cons.mpr ⟨mark _ (by decide), ?_⟩
        simp only [List.forall_mem_append, List.forall_mem_singleton]
        refine ⟨⟨⟨line _, within_intercalate ?_ ?_⟩, line _⟩, mark _ (by decide)⟩
        · exact List.forall_mem_cons.mpr ⟨comma, line _⟩
        · exact List.forall_mem_map.mpr fun v member => ih v member (depth + 1)
      · simp
  | @object members names each ih =>
    cases members with
    | nil => simpa [Json.indented, Json.text] using (Within.object names each).text visible
    | cons first members =>
      rw [indented_object]
      refine List.forall_mem_cons.mpr ⟨mark _ (by decide), ?_⟩
      simp only [List.forall_mem_append, List.forall_mem_singleton]
      refine ⟨⟨⟨line _, within_intercalate ?_ ?_⟩, line _⟩, mark _ (by decide)⟩
      · exact List.forall_mem_cons.mpr ⟨comma, line _⟩
      · exact List.forall_mem_map.mpr fun m member =>
          visible.member (names m member) (ih m member (depth + 1))

end Within

theorem mem_quoted {s : String} {c : Char} (member : c ∈ s.toList) (beyond : 0x80 ≤ c.toNat) :
    c ∈ quoted s := by
  refine List.mem_cons_of_mem _ (List.mem_append_left _ (List.mem_flatMap.mpr ⟨c, member, ?_⟩))
  unfold escape
  split
  case h_8 =>
    rw [if_neg (by omega)]
    exact List.mem_singleton_self c
  all_goals exact absurd beyond (by decide)

theorem mem_text_object {members : List (String × Json)} {e : String × Json}
    (member : e ∈ members) {c : Char} (inside : c ∈ e.2.text) : c ∈ (object members).text := by
  rw [text_object]
  refine List.mem_cons_of_mem _ (List.mem_append_left _ ?_)
  induction members with
  | nil => cases member
  | cons first rest ih =>
    have shown : e = first → c ∈ memberText text first := by
      rintro rfl
      exact List.mem_append_right _ (List.mem_cons_of_mem _ (List.mem_cons_of_mem _ inside))
    cases rest with
    | nil => simpa [List.intercalate] using shown (List.mem_singleton.mp member)
    | cons second rest =>
      rw [List.map_cons, List.map_cons, intercalate_pair]
      rcases List.mem_cons.mp member with here | later
      · exact List.mem_append_left _ (shown here)
      · exact List.mem_append_right _ (List.mem_cons_of_mem _ (List.mem_append_right _ (ih later)))

end FluentCensus.Json
