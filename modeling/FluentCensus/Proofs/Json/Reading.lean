import FluentCensus.Proofs.Json.Number

namespace FluentCensus.Json

/-- A value as it comes about: an object has each of its names once, and a real is the trimmed
    record of its number. -/
inductive Proper : Json → Prop where
  | null : Proper .null
  | bool (b : Bool) : Proper (.bool b)
  | int (n : Int) : Proper (.int n)
  | real {x : Decimal} (trimmed : x.trim = x) : Proper (.real x)
  | infinity (negative : Bool) : Proper (.infinity negative)
  | undefined : Proper .undefined
  | string (s : String) : Proper (.string s)
  | array {items : List Json} (each : ∀ v ∈ items, Proper v) : Proper (.array items)
  | object {members : List (String × Json)} (distinct : (members.map Prod.fst).Nodup)
      (each : ∀ m ∈ members, Proper m.2) : Proper (.object members)

theorem Proper.named {members : List (String × Json)} (names : List String)
    (same : members.map Prod.fst = names) (distinct : names.Nodup)
    (each : ∀ m ∈ members, Proper m.2) : Proper (.object members) :=
  .object (same ▸ distinct) each

theorem proper_ofFloat (x : Float) : Proper (ofFloat x) := by
  unfold ofFloat
  split
  · exact .undefined
  · split
    · exact .infinity _
    · exact .real (Decimal.trim_shortest _)

section String

theorem hexUnit?_control :
    ∀ n < 0x20, hexUnit? '0' '0' (Nat.digitChar (n / 16)) (Nat.digitChar (n % 16)) = some n := by
  decide

theorem readString_unit {a b c d : Char} {u : Nat} (unit : hexUnit? a b c d = some u)
    (low : u < 0xd800) (read rest : List Char) :
    readString read none ('\\' :: 'u' :: a :: b :: c :: d :: rest) =
      readString (Char.ofNat u :: read) none rest := by
  have first : highUnit u = false := by simp [highUnit]; omega
  have second : lowUnit u = false := by simp [lowUnit]; omega
  rw [readString.eq_def]
  simp only [unit, first, second]
  rfl

theorem readString_escape (read : List Char) (c : Char) (rest : List Char) :
    readString read none (escape c ++ rest) = readString (c :: read) none rest := by
  unfold escape
  split
  · rfl
  · rfl
  · rfl
  · rfl
  · rfl
  · rfl
  · rfl
  · rename_i quote backslash _ _ _ _ _
    split
    · rename_i control
      have unit := hexUnit?_control c.toNat control
      refine (readString_unit unit (by omega) read rest).trans ?_
      rw [Char.ofNat_toNat]
    · rename_i visible
      change readString read none (c :: rest) = _
      rw [readString.eq_def]
      split
      · rename_i same
        exact absurd (List.cons.inj same).1 backslash
      · rename_i same
        exact absurd (List.cons.inj same).1 backslash
      · rename_i same
        exact absurd (List.cons.inj same).1 quote
      · rename_i same
        cases same
        exact if_neg (by simpa using visible)
      · rename_i same
        cases same

theorem readString_text (read text rest : List Char) :
    readString read none (text.flatMap escape ++ '"' :: rest) =
      some (String.ofList (read.reverse ++ text), rest) := by
  induction text generalizing read with
  | nil => rw [List.append_nil]; rfl
  | cons c text ih =>
    rw [List.flatMap_cons, List.append_assoc, readString_escape, ih, List.reverse_cons,
      List.append_assoc]
    rfl

theorem readString_quoted (s : String) (rest : List Char) :
    ∃ tail, quoted s ++ rest = '"' :: tail ∧ readString [] none tail = some (s, rest) := by
  refine ⟨s.toList.flatMap escape ++ '"' :: rest, ?_, ?_⟩
  · simp [quoted]
  · rw [readString_text, List.reverse_nil, List.nil_append, String.ofList_toList]

end String

theorem skipSpace_cons {c : Char} (solid : c ∉ [' ', '\t', '\n', '\r']) (rest : List Char) :
    skipSpace (c :: rest) = c :: rest := if_neg solid

def Gap (gap : List Char) : Prop := ∀ c ∈ gap, c ∈ [' ', '\t', '\n', '\r']

theorem gap_nil : Gap [] := nofun

theorem gap_space : Gap [' '] := by simp [Gap]

theorem gap_newLine (depth : Nat) : Gap (newLine depth) := by
  refine List.forall_mem_cons.mpr ⟨by decide, fun c member => ?_⟩
  rw [List.eq_of_mem_replicate member]
  decide

theorem Gap.closed {gap rest : List Char} (white : Gap gap) (closed : Closed rest) :
    Closed (gap ++ rest) := by
  cases gap with
  | nil => exact closed
  | cons c gap =>
    refine closed_cons ?_
    have space := white c List.mem_cons_self
    exact List.mem_append_right [',', ']', '}'] space

theorem skipSpace_gap {gap : List Char} (white : Gap gap) (text : List Char) :
    skipSpace (gap ++ text) = skipSpace text := by
  induction gap with
  | nil => rfl
  | cons c gap ih =>
    obtain ⟨space, others⟩ := List.forall_mem_cons.mp white
    exact (if_pos space).trans (ih others)

theorem readValue_gap (fuel : Nat) {gap : List Char} (white : Gap gap) (text : List Char) :
    readValue fuel (gap ++ text) = readValue fuel text := by
  cases fuel with
  | zero => rw [readValue, readValue]
  | succ fuel => rw [readValue, readValue, skipSpace_gap white]

theorem readValue_space (fuel : Nat) (text : List Char) :
    readValue fuel (' ' :: text) = readValue fuel text := readValue_gap fuel gap_space text

theorem readItems_gap (fuel : Nat) (read : List Json) {gap : List Char} (white : Gap gap)
    (text : List Char) : readItems fuel read (gap ++ text) = readItems fuel read text := by
  cases fuel with
  | zero => rw [readItems, readItems]
  | succ fuel => rw [readItems, readItems, readValue_gap fuel white]

theorem readMembers_gap (fuel : Nat) (read : List (String × Json)) {gap : List Char}
    (white : Gap gap) (text : List Char) :
    readMembers fuel read (gap ++ text) = readMembers fuel read text := by
  cases fuel with
  | zero => rw [readMembers, readMembers]
  | succ fuel => rw [readMembers, readMembers, skipSpace_gap white]

theorem head_ne_of_digit {c other : Char} (digit : c = '-' ∨ isDigit c)
    (plain : (other == '-' || isDigit other) = false) : c ≠ other := by
  rintro rfl
  rcases digit with rfl | digit
  · cases plain
  · simp [digit] at plain

theorem solid_of_digit {c : Char} (digit : c = '-' ∨ isDigit c) :
    c ∉ [' ', '\t', '\n', '\r'] := by
  simp only [List.mem_cons, List.not_mem_nil, or_false, not_or]
  exact ⟨head_ne_of_digit digit (by decide), head_ne_of_digit digit (by decide),
    head_ne_of_digit digit (by decide), head_ne_of_digit digit (by decide)⟩

theorem readValue_number {text : List Char} {value : Json} (numeral : Numeral text value)
    {rest : List Char} (closed : Closed rest) (fuel : Nat) :
    readValue (fuel + 1) (text ++ rest) = some (value, rest) := by
  rw [← numeral.readNumber closed]
  obtain ⟨c, more, rfl, digit⟩ := numeral.head
  rw [readValue, List.cons_append, skipSpace_cons (solid_of_digit digit)]
  have other {d : Char} {tail tail' : List Char} (same : c :: tail = d :: tail')
      (plain : (d == '-' || isDigit d) = false) : False :=
    head_ne_of_digit digit plain (List.cons.inj same).1
  split
  case h_8 => rfl
  all_goals
    rename_i same
    exact (other same (by decide)).elim

/-- The text starts like a value, and from it, and what may come after a value, the value is
    read. -/
structure Reads (text : List Char) (v : Json) : Prop where
  head : ∃ c more, text = c :: more ∧ c ∉ [' ', '\t', '\n', '\r'] ∧ c ≠ ']'
  read : ∀ fuel rest, text.length < fuel → Closed rest →
    readValue fuel (text ++ rest) = some (v, rest)

theorem Reads.of_succ {text : List Char} {v : Json}
    (head : ∃ c more, text = c :: more ∧ c ∉ [' ', '\t', '\n', '\r'] ∧ c ≠ ']')
    (read : ∀ fuel rest, Closed rest → readValue (fuel + 1) (text ++ rest) = some (v, rest)) :
    Reads text v := by
  refine ⟨head, fun fuel rest enough closed => ?_⟩
  obtain ⟨fuel, rfl⟩ : ∃ n, fuel = n + 1 := ⟨fuel - 1, by omega⟩
  exact read fuel rest closed

theorem Reads.number {text : List Char} {value : Json} (numeral : Numeral text value) :
    Reads text value := by
  obtain ⟨c, more, split, digit⟩ := numeral.head
  refine .of_succ ⟨c, more, split, solid_of_digit digit, head_ne_of_digit digit (by decide)⟩ ?_
  exact fun fuel rest closed => readValue_number numeral closed fuel

section Between

variable {gap after : List Char} (white : Gap gap) (behind : Gap after)
  {print : Json → List Char}

theorem intercalate_pair (gap first second : List Char) (rest : List (List Char)) :
    (',' :: gap).intercalate (first :: second :: rest) =
      first ++ ',' :: (gap ++ (',' :: gap).intercalate (second :: rest)) := by
  simp [List.intercalate]

theorem intercalate_head (gap first : List Char) (rest : List (List Char)) :
    ∃ tail, (',' :: gap).intercalate (first :: rest) = first ++ tail := by
  cases rest with
  | nil => exact ⟨[], by simp [List.intercalate]⟩
  | cons second rest => exact ⟨_, intercalate_pair gap first second rest⟩

include white behind

theorem readItems_texts {first : Json} {items : List Json}
    (each : ∀ v ∈ first :: items, Reads (print v) v) (fuel : Nat) (read : List Json)
    (rest : List Char)
    (enough : ((',' :: gap).intercalate ((first :: items).map print)).length + 1 < fuel) :
    readItems fuel read
        ((',' :: gap).intercalate ((first :: items).map print) ++ (after ++ ']' :: rest)) =
      some (.array (read.reverse ++ first :: items), rest) := by
  induction items generalizing first fuel read with
  | nil =>
    obtain ⟨fuel, rfl⟩ : ∃ n, fuel = n + 1 := ⟨fuel - 1, by omega⟩
    have alone : (',' :: gap).intercalate ([first].map print) = print first := by
      simp [List.intercalate]
    rw [alone] at enough ⊢
    have closed : Closed (after ++ ']' :: rest) := behind.closed (closed_cons (by decide))
    rw [readItems, (each first List.mem_cons_self).read fuel _ (by omega) closed]
    dsimp only
    rw [skipSpace_gap behind, skipSpace_cons (by decide)]
    simp
  | cons second items ih =>
    obtain ⟨fuel, rfl⟩ : ∃ n, fuel = n + 1 := ⟨fuel - 1, by omega⟩
    have others : ∀ v ∈ second :: items, Reads (print v) v :=
      fun v member => each v (List.mem_cons_of_mem first member)
    rw [List.map_cons, List.map_cons, intercalate_pair, ← List.map_cons] at enough ⊢
    rw [List.length_append, List.length_cons, List.length_append] at enough
    rw [List.append_assoc, List.cons_append, List.append_assoc, readItems,
      (each first List.mem_cons_self).read fuel _ (by omega) (closed_cons (by decide))]
    dsimp only
    rw [skipSpace_cons (by decide)]
    change readItems fuel (first :: read) (gap ++ _) = _
    rw [readItems_gap fuel _ white, ih others fuel (first :: read) (by omega)]
    simp

omit white behind in
def memberText (print : Json → List Char) (m : String × Json) : List Char :=
  quoted m.1 ++ ':' :: ' ' :: print m.2

omit white behind in
theorem readString_member (m : String × Json) (tail : List Char) :
    ∃ text, memberText print m ++ tail = '"' :: text ∧
      readString [] none text = some (m.1, ':' :: ' ' :: (print m.2 ++ tail)) := by
  obtain ⟨text, quote, named⟩ := readString_quoted m.1 (':' :: ' ' :: (print m.2 ++ tail))
  refine ⟨text, ?_, named⟩
  rw [← quote, memberText, List.append_assoc, List.cons_append, List.cons_append]

omit white behind in
theorem readMembers_more {m : String × Json} (reads : Reads (print m.2) m.2) {fuel : Nat}
    (read : List (String × Json)) (rest : List Char) (enough : (print m.2).length < fuel) :
    readMembers (fuel + 1) read (memberText print m ++ ',' :: rest) =
      readMembers fuel (m :: read) rest := by
  obtain ⟨text, split, named⟩ := readString_member m (',' :: rest)
  have value := reads.read fuel (',' :: rest) enough (closed_cons (by decide))
  rw [← readValue_space] at value
  rw [split, readMembers, skipSpace_cons (by decide)]
  simp only [named, skipSpace_cons (c := ':') (by decide), value,
    skipSpace_cons (c := ',') (by decide)]

omit white in
theorem readMembers_last {m : String × Json} (reads : Reads (print m.2) m.2) {fuel : Nat}
    (read : List (String × Json)) (rest : List Char) (enough : (print m.2).length < fuel) :
    readMembers (fuel + 1) read (memberText print m ++ (after ++ '}' :: rest)) =
      some (.object (m :: read).reverse, rest) := by
  obtain ⟨text, split, named⟩ := readString_member m (after ++ '}' :: rest)
  have value := reads.read fuel (after ++ '}' :: rest) enough
    (behind.closed (closed_cons (by decide)))
  rw [← readValue_space] at value
  rw [split, readMembers, skipSpace_cons (by decide)]
  simp only [named, skipSpace_cons (c := ':') (by decide), value, skipSpace_gap behind,
    skipSpace_cons (c := '}') (by decide)]

omit white behind in
theorem length_memberText (m : String × Json) :
    (print m.2).length < (memberText print m).length := by
  rw [memberText, List.length_append, List.length_cons, List.length_cons]
  omega

theorem readMembers_texts {first : String × Json} {members : List (String × Json)}
    (each : ∀ m ∈ first :: members, Reads (print m.2) m.2) (fuel : Nat)
    (read : List (String × Json)) (rest : List Char)
    (enough :
      ((',' :: gap).intercalate ((first :: members).map (memberText print))).length + 1 < fuel) :
    readMembers fuel read
        ((',' :: gap).intercalate ((first :: members).map (memberText print)) ++
          (after ++ '}' :: rest)) =
      some (.object (read.reverse ++ first :: members), rest) := by
  have short : (print first.2).length < (memberText print first).length :=
    length_memberText first
  have reads := each first List.mem_cons_self
  obtain ⟨fuel, rfl⟩ : ∃ n, fuel = n + 1 := ⟨fuel - 1, by omega⟩
  induction members generalizing first fuel read with
  | nil =>
    have alone : (',' :: gap).intercalate ([first].map (memberText print)) =
        memberText print first := by
      simp [List.intercalate]
    rw [alone] at enough ⊢
    rw [readMembers_last behind reads read rest (by omega)]
    simp
  | cons second members ih =>
    have others : ∀ m ∈ second :: members, Reads (print m.2) m.2 :=
      fun m member => each m (List.mem_cons_of_mem first member)
    rw [List.map_cons, List.map_cons, intercalate_pair, ← List.map_cons] at enough ⊢
    rw [List.length_append, List.length_cons, List.length_append] at enough
    obtain ⟨fuel, rfl⟩ : ∃ n, fuel = n + 1 := ⟨fuel - 1, by omega⟩
    rw [List.append_assoc, List.cons_append, List.append_assoc,
      readMembers_more reads read _ (by omega), readMembers_gap _ _ white,
      ih others (first :: read) (length_memberText second)
      (others second List.mem_cons_self) fuel (by omega)]
    simp

variable {before : List Char} (ahead : Gap before)

include ahead

theorem reads_array {first : Json} {items : List Json}
    (each : ∀ v ∈ first :: items, Reads (print v) v) :
    Reads ('[' :: (before ++ (',' :: gap).intercalate ((first :: items).map print) ++
      after ++ [']'])) (.array (first :: items)) := by
  refine ⟨⟨_, _, rfl, by decide, by decide⟩, fun fuel rest enough closed => ?_⟩
  obtain ⟨fuel, rfl⟩ : ∃ n, fuel = n + 1 := ⟨fuel - 1, by omega⟩
  simp only [List.length_cons, List.length_append, List.length_nil] at enough
  have read := readItems_texts white behind each fuel [] rest (by omega)
  obtain ⟨c, more, head, solid, item⟩ := (each first List.mem_cons_self).head
  obtain ⟨tail, split⟩ := intercalate_head gap (print first) (items.map print)
  rw [List.cons_append, readValue, skipSpace_cons (by decide)]
  simp only [List.append_assoc, List.singleton_append, skipSpace_gap ahead]
  rw [List.map_cons, split, head, List.cons_append, List.cons_append] at read ⊢
  simp only [skipSpace_cons solid]
  split
  · rename_i same
    exact absurd (List.cons.inj same).1 item
  · exact read

theorem reads_object {first : String × Json} {members : List (String × Json)}
    (each : ∀ m ∈ first :: members, Reads (print m.2) m.2) :
    Reads ('{' :: (before ++ (',' :: gap).intercalate ((first :: members).map (memberText print)) ++
      after ++ ['}'])) (.object (first :: members)) := by
  refine ⟨⟨_, _, rfl, by decide, by decide⟩, fun fuel rest enough closed => ?_⟩
  obtain ⟨fuel, rfl⟩ : ∃ n, fuel = n + 1 := ⟨fuel - 1, by omega⟩
  simp only [List.length_cons, List.length_append, List.length_nil] at enough
  have read := readMembers_texts white behind each fuel [] rest (by omega)
  obtain ⟨tail, split⟩ :=
    intercalate_head gap (memberText print first) (members.map (memberText print))
  rw [List.cons_append, readValue, skipSpace_cons (by decide)]
  simp only [List.append_assoc, List.singleton_append, skipSpace_gap ahead]
  rw [List.map_cons, split] at read ⊢
  exact read

end Between

theorem text_object (members : List (String × Json)) :
    (Json.object members).text =
      '{' :: ([',', ' '].intercalate (members.map (memberText text)) ++ ['}']) := by
  rw [text]
  rfl

theorem indented_object (depth : Nat) (first : String × Json) (members : List (String × Json)) :
    (Json.object (first :: members)).indented depth =
      '{' :: (newLine (depth + 1) ++ (',' :: newLine (depth + 1)).intercalate
        ((first :: members).map (memberText (indented (depth + 1)))) ++
          newLine depth ++ ['}']) := by
  rw [indented]
  · rfl
  · simp

theorem Proper.reads {v : Json} (proper : v.Proper) : Reads v.text v := by
  induction proper with
  | null | undefined =>
    rw [text]
    refine .of_succ ⟨_, _, rfl, by decide, by decide⟩ fun fuel rest _ => ?_
    rw [readValue]
    rfl
  | bool b =>
    cases b <;> rw [text] <;>
      exact .of_succ ⟨_, _, rfl, by decide, by decide⟩ fun fuel rest _ => by rw [readValue]; rfl
  | infinity negative =>
    cases negative <;> rw [text] <;>
      exact .of_succ ⟨_, _, rfl, by decide, by decide⟩ fun fuel rest _ => by rw [readValue]; rfl
  | int n =>
    rw [text]
    exact .number (numeral_int n)
  | @real x trimmed =>
    have numeral := numeral_real reals x
    rw [trimmed] at numeral
    rw [text]
    exact .number numeral
  | string s =>
    rw [text]
    refine .of_succ ⟨_, _, rfl, by decide, by decide⟩ fun fuel rest _ => ?_
    obtain ⟨tail, quote, read⟩ := readString_quoted s rest
    rw [quote, readValue, skipSpace_cons (by decide)]
    simp only [read]
    rfl
  | @array items each reads =>
    rw [text]
    cases items with
    | nil => exact .of_succ ⟨_, _, rfl, by decide, by decide⟩ fun _ _ _ => by rw [readValue]; rfl
    | cons first items => simpa using reads_array gap_space gap_nil gap_nil reads
  | @object members distinct each reads =>
    rw [text_object]
    cases members with
    | nil => exact .of_succ ⟨_, _, rfl, by decide, by decide⟩ fun _ _ _ => by rw [readValue]; rfl
    | cons first members => simpa using reads_object gap_space gap_nil gap_nil reads

/-- The white space that sets a value out on lines of its own does not change what is read. -/
theorem Proper.reads_indented {v : Json} (proper : v.Proper) (depth : Nat) :
    Reads (v.indented depth) v := by
  induction proper generalizing depth with
  | null => simpa [indented] using Proper.null.reads
  | undefined => simpa [indented] using Proper.undefined.reads
  | bool b => simpa [indented] using (Proper.bool b).reads
  | infinity negative => simpa [indented] using (Proper.infinity negative).reads
  | int n => simpa [indented] using (Proper.int n).reads
  | real trimmed => simpa [indented] using (Proper.real trimmed).reads
  | string s => simpa [indented] using (Proper.string s).reads
  | @array items each reads =>
    cases items with
    | nil => simpa [indented, text] using (Proper.array each).reads
    | cons first items =>
      rw [indented]
      · exact reads_array (gap_newLine _) (gap_newLine _) (gap_newLine _)
          fun v member => reads v member (depth + 1)
      · simp
  | @object members distinct each reads =>
    cases members with
    | nil => simpa [indented, text] using (Proper.object distinct each).reads
    | cons first members =>
      rw [indented_object]
      exact reads_object (gap_newLine _) (gap_newLine _) (gap_newLine _)
        fun m member => reads m member (depth + 1)

theorem Reads.read? {text : List Char} {v : Json} (reads : Reads text v) :
    read? text = some v := by
  have read := reads.read (text.length + 1) [] (Nat.lt_succ_self _) closed_nil
  rw [List.append_nil] at read
  rw [Json.read?, read]
  rfl

/-- Reading undoes writing. -/
theorem read?_text {v : Json} (proper : v.Proper) : read? v.text = some v := proper.reads.read?

theorem read?_indented {v : Json} (proper : v.Proper) : read? (v.indented 0) = some v :=
  (proper.reads_indented 0).read?

end FluentCensus.Json
