import FluentCensus.Csv.Row

namespace FluentCensus.Csv

inductive Place where
  | start
  | plain
  | quoted
  | closed
deriving DecidableEq

/-- The records of a text, each ended by a line feed, with their fields between separators. The
    field and the record read so far come first. -/
def readFrom : Place → List Char → List (List Char) → List Char →
    Option (List (List (List Char)))
  | .start, _, [], [] => some []
  | _, _, _, [] => none
  | .quoted, field, record, '"' :: text => readFrom .closed field record text
  | .quoted, field, record, c :: text => readFrom .quoted (field ++ [c]) record text
  | .closed, field, record, '"' :: text => readFrom .quoted (field ++ ['"']) record text
  | .start, _, record, '"' :: text => readFrom .quoted [] record text
  | _, field, record, '\n' :: text =>
    (readFrom .start [] [] text).map ((record ++ [field]) :: ·)
  | _, field, record, ',' :: ' ' :: text => readFrom .start [] (record ++ [field]) text
  | .closed, _, _, _ => none
  | _, field, record, c :: text => readFrom .plain (field ++ [c]) record text

def read? (text : List Char) : Option (List (List (List Char))) := readFrom .start [] [] text

def Place.AtEnd (place : Place) : Prop := place = .plain ∨ place = .closed

theorem Place.AtEnd.separator {place : Place} (ended : place.AtEnd) (text rest : List Char)
    (record : List (List Char)) :
    readFrom place text record (separator ++ rest) =
      readFrom .start [] (record ++ [text]) rest := by
  rcases ended with rfl | rfl <;> rfl

theorem Place.AtEnd.line {place : Place} (ended : place.AtEnd) (text rest : List Char)
    (record : List (List Char)) :
    readFrom place text record ('\n' :: rest) =
      (read? rest).map ((record ++ [text]) :: ·) := by
  rcases ended with rfl | rfl <;> rfl

theorem not_special {c : Char} (plain : isSpecial c = false) : c ≠ ',' ∧ c ≠ '"' ∧ c ≠ '\n' := by
  refine ⟨?_, ?_, ?_⟩ <;>
    · rintro rfl
      exact absurd plain (by decide)

theorem readFrom_char {place : Place} (unquoted : place = .start ∨ place = .plain) {c : Char}
    (plain : isSpecial c = false) (read rest : List Char) (record : List (List Char)) :
    readFrom place read record (c :: rest) = readFrom .plain (read ++ [c]) record rest := by
  obtain ⟨comma, quote, line⟩ := not_special plain
  rcases unquoted with rfl | rfl
  · rw [readFrom] <;> simp [comma, quote, line]
  · rw [readFrom] <;> simp [comma, line]

theorem readFrom_plain (text rest read : List Char) (record : List (List Char))
    (plain : text.any isSpecial = false) :
    readFrom .plain read record (text ++ rest) = readFrom .plain (read ++ text) record rest := by
  induction text generalizing read with
  | nil => simp
  | cons c text ih =>
    obtain ⟨first, others⟩ : isSpecial c = false ∧ text.any isSpecial = false := by
      simpa using plain
    rw [List.cons_append, readFrom_char (.inr rfl) first, ih _ others, List.append_assoc]
    rfl

theorem readFrom_quoted (text rest read : List Char) (record : List (List Char)) :
    readFrom .quoted read record
        (text.flatMap (fun c => if c = '"' then ['"', '"'] else [c]) ++ '"' :: rest) =
      readFrom .closed (read ++ text) record rest := by
  induction text generalizing read with
  | nil => simp [readFrom]
  | cons c text ih =>
    by_cases quote : c = '"'
    · subst quote
      simp only [List.flatMap_cons, if_true, List.cons_append, List.nil_append, readFrom]
      rw [ih]
      simp
    · simp only [List.flatMap_cons, quote, if_false, List.cons_append, List.nil_append]
      rw [readFrom, ih]
      · simp
      · exact quote

theorem readFrom_field (text rest : List Char) (record : List (List Char)) :
    ∃ place, place.AtEnd ∧
      readFrom .start [] record (field text ++ rest) = readFrom place text record rest := by
  by_cases quoted : text.isEmpty ∨ text.any isSpecial
  · refine ⟨.closed, .inr rfl, ?_⟩
    have closed := readFrom_quoted text rest [] record
    rw [List.nil_append] at closed
    rw [field, if_pos quoted, List.cons_append, List.append_assoc, readFrom]
    exact closed
  · refine ⟨.plain, .inl rfl, ?_⟩
    obtain ⟨filled, plain⟩ : text ≠ [] ∧ text.any isSpecial = false := by
      simpa using quoted
    rw [field, if_neg quoted]
    obtain ⟨c, text, rfl⟩ := List.exists_cons_of_ne_nil filled
    obtain ⟨first, others⟩ : isSpecial c = false ∧ text.any isSpecial = false := by
      simpa using plain
    rw [List.cons_append, readFrom_char (.inl rfl) first, readFrom_plain _ _ _ _ others]
    rfl

def line (record : List (List Char)) : List Char :=
  endLine (separator.intercalate (record.map field))

theorem readFrom_line (texts : List (List Char)) (filled : texts ≠ []) (read : List (List Char))
    (rest : List Char) :
    readFrom .start [] read (line texts ++ rest) = (read? rest).map ((read ++ texts) :: ·) := by
  induction texts generalizing read with
  | nil => exact absurd rfl filled
  | cons text texts ih =>
    by_cases last : texts = []
    · subst last
      obtain ⟨place, ended, stopped⟩ := readFrom_field text ('\n' :: rest) read
      have alone : line [text] ++ rest = field text ++ '\n' :: rest := by simp [line, endLine]
      rw [alone, stopped, ended.line]
    · have more : texts.map field ≠ [] := by simpa using last
      have parts :
          line (text :: texts) ++ rest = field text ++ (separator ++ (line texts ++ rest)) := by
        simp [line, endLine, List.intercalate_cons_of_ne_nil more]
      obtain ⟨place, ended, stopped⟩ := readFrom_field text (separator ++ (line texts ++ rest)) read
      rw [parts, stopped, ended.separator, ih last]
      simp

/-- Whatever their fields hold, records are read as they were written. -/
theorem read?_lines (records : List (List (List Char))) (filled : ∀ record ∈ records, record ≠ []) :
    read? (records.flatMap line) = some records := by
  induction records with
  | nil => rfl
  | cons record records ih =>
    have first : record ≠ [] := filled record (by simp)
    have others := ih fun record member => filled record (List.mem_cons_of_mem _ member)
    rw [List.flatMap_cons, read?, readFrom_line record first, others]
    rfl

end FluentCensus.Csv
