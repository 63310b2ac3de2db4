import FluentCensus.Decimal.Shortest
import FluentCensus.Json.Printer
import FluentCensus.Json.Reader
import Mathlib

namespace FluentCensus

namespace Decimal

theorem trim_zero (negative : Bool) (exponent : Int) :
    trim ⟨negative, 0, exponent⟩ = ⟨negative, 0, 0⟩ := by
  rw [trim, dif_pos rfl]

theorem trim_ten (negative : Bool) {n : Nat} (filled : n ≠ 0) (exponent : Int) :
    trim ⟨negative, n * 10, exponent⟩ = trim ⟨negative, n, exponent + 1⟩ := by
  have product : n * 10 ≠ 0 := Nat.mul_ne_zero filled (by decide)
  rw [trim, dif_neg product, if_pos (Nat.mul_mod_left n 10)]
  dsimp only
  rw [Nat.mul_div_cancel n (by decide)]

theorem trim_zeros (negative : Bool) {n count : Nat} (exponent : Int) {scaled : Int}
    (balanced : n ≠ 0 → scaled = exponent - count) :
    trim ⟨negative, n * 10 ^ count, scaled⟩ = trim ⟨negative, n, exponent⟩ := by
  by_cases zero : n = 0
  · rw [zero, Nat.zero_mul, trim_zero, trim_zero]
  · rw [balanced zero]
    clear balanced
    induction count with
    | zero => simp
    | succ count ih =>
      have filled : n * 10 ^ count ≠ 0 := Nat.mul_ne_zero zero (by positivity)
      have power : exponent - ((count + 1 : Nat) : Int) + 1 = exponent - count := by omega
      rw [Nat.pow_succ, ← Nat.mul_assoc, trim_ten negative filled, power, ih]

theorem trim_trim (d : Decimal) : d.trim.trim = d.trim := by
  fun_induction trim d with
  | case1 d zero =>
    rw [trim]
    exact dif_pos zero
  | case2 d zero more ih => exact ih
  | case3 d zero last =>
    rw [trim, dif_neg zero, if_neg last]

theorem trim_shortest (b : Binary) : b.shortest.trim = b.shortest := by
  unfold Binary.shortest
  split
  · exact trim_zero b.negative 0
  · dsimp only
    split
    · exact trim_trim _
    · exact trim_zero b.negative 0

theorem digitText_ne_nil (n : Nat) : digitText n ≠ [] := Nat.toDigits_ne_nil

theorem isDigit_digitText {n : Nat} : ∀ c ∈ digitText n, Json.isDigit c :=
  fun _ member => Nat.isDigit_of_mem_toDigits (by decide) (by decide) member

theorem digitText_head {n : Nat} (some_digit : n ≠ 0) : (digitText n).head? ≠ some '0' := by
  induction n using Nat.strongRecOn with
  | ind n ih =>
    by_cases short : n < 10
    · have first : ∀ n < 10, n ≠ 0 → n.digitChar ≠ '0' := by decide
      rw [digitText, Nat.toDigits_of_lt_base short]
      exact fun same => first n short some_digit (Option.some.inj same)
    · have rest := ih (n / 10) (by omega) (by omega)
      rw [digitText] at rest ⊢
      rw [Nat.toDigits_of_base_le (by decide) (by omega),
        List.head?_append_of_ne_nil _ Nat.toDigits_ne_nil]
      exact rest

theorem isDigit_zeros (count : Nat) : ∀ c ∈ zeros count, Json.isDigit c := by
  intro c member
  rw [(List.mem_replicate.mp member).2]
  rfl

end Decimal

namespace Json

open Decimal (digitText zeros)

theorem digitValue_digitText (n : Nat) : digitValue (digitText n) = n :=
  Nat.ofDigitChars_ten_toDigits

theorem digitValue_zeros (count : Nat) (digits : List Char) :
    digitValue (zeros count ++ digits) = digitValue digits := by
  change Nat.ofDigitChars 10 _ 0 = Nat.ofDigitChars 10 _ 0
  rw [Nat.ofDigitChars_append, zeros, Nat.ofDigitChars_replicate_zero, Nat.mul_zero]

theorem digitValue_append_zeros (digits : List Char) (count : Nat) :
    digitValue (digits ++ zeros count) = digitValue digits * 10 ^ count := by
  change Nat.ofDigitChars 10 _ 0 = Nat.ofDigitChars 10 _ 0 * _
  rw [Nat.ofDigitChars_append, zeros, Nat.ofDigitChars_replicate_zero, Nat.mul_comm]

/-- What may come after a value: nothing, the next item, the end of the items, or white space. -/
def Closed (rest : List Char) : Prop :=
  ∀ c ∈ rest.head?, c ∈ [',', ']', '}', ' ', '\t', '\n', '\r']

theorem closed_nil : Closed [] := nofun

theorem closed_cons {c : Char} {rest : List Char}
    (closing : c ∈ [',', ']', '}', ' ', '\t', '\n', '\r']) : Closed (c :: rest) := by
  intro other same
  cases same
  exact closing

theorem Closed.unpointed {rest : List Char} (closed : Closed rest) : rest.head? ≠ some '.' :=
  fun point => absurd (closed '.' point) (by decide)

def NoDigit (rest : List Char) : Prop := ∀ c ∈ rest.head?, isDigit c = false

theorem noDigit_cons {c : Char} {rest : List Char} (plain : isDigit c = false) :
    NoDigit (c :: rest) := by
  intro other same
  cases same
  exact plain

theorem Closed.noDigit {rest : List Char} (closed : Closed rest) : NoDigit rest := by
  have plain : ∀ c ∈ [',', ']', '}', ' ', '\t', '\n', '\r'], isDigit c = false := by
    simp [isDigit]
  exact fun c first => plain c (closed c first)

theorem span_digits {digits rest : List Char} (all : ∀ c ∈ digits, isDigit c)
    (ended : NoDigit rest) : (digits ++ rest).span isDigit = (digits, rest) := by
  have nothing : rest.takeWhile isDigit = [] ∧ rest.dropWhile isDigit = rest := by
    cases rest with
    | nil => exact ⟨rfl, rfl⟩
    | cons c rest => simp [ended c rfl]
  rw [List.span_eq_takeWhile_dropWhile, List.takeWhile_append_of_pos all,
    List.dropWhile_append_of_pos all, nothing.1, nothing.2, List.append_nil]

def pointed (fraction : List Char) : List Char :=
  if fraction.isEmpty then [] else '.' :: fraction

theorem readFraction_pointed {fraction rest : List Char} (all : ∀ c ∈ fraction, isDigit c)
    (ended : NoDigit rest) (unpointed : rest.head? ≠ some '.') :
    readFraction (pointed fraction ++ rest) = some (fraction, rest) := by
  cases fraction with
  | nil =>
    cases rest with
    | nil => rfl
    | cons c rest =>
      change readFraction (c :: rest) = _
      unfold readFraction
      split
      · rename_i same
        exact absurd (congrArg List.head? same) unpointed
      · rfl
  | cons c fraction =>
    change readFraction ('.' :: (c :: fraction ++ rest)) = _
    rw [readFraction, span_digits all ended]

theorem readExponent_closed {rest : List Char} (closed : Closed rest) :
    readExponent rest = some (none, rest) := by
  cases rest with
  | nil => rfl
  | cons c rest =>
    have plain : ∀ c ∈ [',', ']', '}', ' ', '\t', '\n', '\r'], ¬ (c = 'e' ∨ c = 'E') := by
      simp
    unfold readExponent
    exact if_neg (plain c (closed c rfl))

def signed (negative : Bool) (n : Nat) : Int := if negative then -n else n

theorem readExponent_signed {digits rest : List Char} (negative : Bool) (filled : digits ≠ [])
    (all : ∀ c ∈ digits, isDigit c) (closed : Closed rest) :
    readExponent ('e' :: (if negative then '-' else '+') :: (digits ++ rest)) =
      some (some (signed negative (digitValue digits)), rest) := by
  have found := span_digits all closed.noDigit
  cases digits with
  | nil => exact absurd rfl filled
  | cons c more =>
    cases negative <;>
    · unfold readExponent
      simp only [Bool.false_eq_true, if_true, if_false]
      rw [found]
      rfl

/-- A run of digits without a zero too many at its head. -/
structure Whole (digits : List Char) : Prop where
  all : ∀ c ∈ digits, isDigit c
  filled : digits ≠ []
  tight : digits.length = 1 ∨ digits.head? ≠ some '0'

theorem readDigits_parts (negative : Bool) {whole fraction tail rest : List Char}
    {exponent : Option Int} (numeral : Whole whole) (all : ∀ c ∈ fraction, isDigit c)
    (ended : NoDigit tail) (unpointed : tail.head? ≠ some '.')
    (scaled : readExponent tail = some (exponent, rest)) :
    readDigits negative (whole ++ (pointed fraction ++ tail)) =
      if fraction.isEmpty ∧ exponent.isNone then
        some (.int (signed negative (digitValue whole)), rest)
      else
        some (.real (Decimal.trim ⟨negative, digitValue (whole ++ fraction),
          exponent.getD 0 - fraction.length⟩), rest) := by
  have before : NoDigit (pointed fraction ++ tail) := by
    cases fraction with
    | nil => exact ended
    | cons c fraction => exact noDigit_cons rfl
  have usable : ¬ (whole.isEmpty = true ∨ whole.length ≠ 1 ∧ whole.head? = some '0') := by
    rintro (empty | ⟨long, zero⟩)
    · exact numeral.filled (List.isEmpty_iff.mp empty)
    · exact numeral.tight.elim long (absurd zero)
  rw [readDigits, span_digits numeral.all before]
  dsimp only
  rw [if_neg usable, readFraction_pointed all ended unpointed]
  dsimp only [Option.bind_eq_bind, Option.bind_some]
  rw [scaled]
  dsimp only [Option.bind_some]
  split <;> rfl

theorem whole_digitText (n : Nat) : Whole (digitText n) := by
  refine ⟨Decimal.isDigit_digitText, Decimal.digitText_ne_nil n, ?_⟩
  by_cases zero : n = 0
  · exact .inl (zero ▸ rfl)
  · exact .inr (Decimal.digitText_head zero)

theorem readDigits_digitText (negative : Bool) (n : Nat) {rest : List Char}
    (closed : Closed rest) :
    readDigits negative (digitText n ++ rest) = some (.int (signed negative n), rest) := by
  have nothing : ∀ c ∈ ([] : List Char), isDigit c := nofun
  have parts := readDigits_parts negative (whole_digitText n) nothing closed.noDigit
    closed.unpointed
    (readExponent_closed closed)
  rw [if_pos ⟨rfl, rfl⟩, digitValue_digitText] at parts
  exact parts

theorem digits_lead {n : Nat} {exponent lead : Int}
    (first : lead = if n = 0 then 0 else exponent + (digitText n).length - 1) :
    n = 0 ∧ (digitText n).length = 1 ∧ lead = 0 ∨
      n ≠ 0 ∧ lead = exponent + (digitText n).length - 1 ∧ (digitText n).head? ≠ some '0' := by
  by_cases zero : n = 0
  · rw [if_pos zero] at first
    exact .inl ⟨zero, zero ▸ rfl, first⟩
  · rw [if_neg zero] at first
    exact .inr ⟨zero, first, Decimal.digitText_head zero⟩

theorem pointed_filled {fraction : List Char} (filled : fraction ≠ []) :
    pointed fraction = '.' :: fraction :=
  if_neg fun empty => filled (List.isEmpty_iff.mp empty)

theorem Whole.more {digits more : List Char} (all : ∀ c ∈ digits ++ more, isDigit c)
    (filled : digits ≠ []) (head : digits.head? ≠ some '0') : Whole (digits ++ more) := by
  refine ⟨all, List.append_ne_nil_of_left_ne_nil filled more, .inr ?_⟩
  rw [List.head?_append_of_ne_nil _ filled]
  exact head

section Text

-- Wherever the point stands, the digits around it are those of the number with zeros before or
-- after them.
variable {n : Nat} {exponent lead : Int} {rest : List Char} (negative : Bool)
  (first : lead = if n = 0 then 0 else exponent + (digitText n).length - 1)
  (closed : Closed rest)

include closed

theorem readDigits_point {whole fraction : List Char} (numeral : Whole whole)
    (all : ∀ c ∈ fraction, isDigit c) (filled : fraction ≠ []) (count : Nat)
    (value : digitValue (whole ++ fraction) = n * 10 ^ count)
    (balanced : n ≠ 0 → -(fraction.length : Int) = exponent - count) :
    readDigits negative ((whole ++ '.' :: fraction) ++ rest) =
      some (.real (Decimal.trim ⟨negative, n, exponent⟩), rest) := by
  have parts := readDigits_parts negative numeral all closed.noDigit closed.unpointed
    (readExponent_closed closed)
  rw [if_neg fun both => filled (List.isEmpty_iff.mp both.1), value, pointed_filled filled,
    Decimal.trim_zeros negative exponent (by simpa using balanced)] at parts
  rw [List.append_assoc]
  exact parts

include first

theorem readDigits_plain :
    readDigits negative (Decimal.plainText (digitText n) lead ++ rest) =
      some (.real (Decimal.trim ⟨negative, n, exponent⟩), rest) := by
  have digits := whole_digitText n
  have value := digitValue_digitText n
  have lengths := digits_lead first
  unfold Decimal.plainText
  by_cases below : lead < 0
  · rw [if_pos below]
    change readDigits negative ((['0'] ++ '.' :: _) ++ rest) = _
    refine readDigits_point negative closed ⟨?_, ?_, .inl rfl⟩ ?_ ?_ 0 ?_ ?_
    · exact Decimal.isDigit_zeros 1
    · exact nofun
    · exact List.forall_mem_append.mpr ⟨Decimal.isDigit_zeros _, digits.all⟩
    · exact List.append_ne_nil_of_right_ne_nil _ digits.filled
    · change digitValue (zeros 1 ++ _) = _
      rw [digitValue_zeros, digitValue_zeros, value, Nat.pow_zero, Nat.mul_one]
    · intro filled
      simp only [zeros, List.length_append, List.length_replicate]
      omega
  · rw [if_neg below]
    dsimp only
    by_cases short : (digitText n).length ≤ (lead + 1).toNat
    · rw [if_pos short]
      refine readDigits_point negative closed ?_ (Decimal.isDigit_zeros 1) nofun
        ((lead + 1).toNat - (digitText n).length + 1) ?_ ?_
      · rcases lengths with ⟨_, single, zero⟩ | ⟨_, _, head⟩
        · have none_more : (lead + 1).toNat - (digitText n).length = 0 := by omega
          rw [none_more, zeros, List.replicate_zero, List.append_nil]
          exact digits
        · exact .more (List.forall_mem_append.mpr ⟨digits.all, Decimal.isDigit_zeros _⟩)
            digits.filled head
      · change digitValue (_ ++ zeros 1) = _
        rw [digitValue_append_zeros, digitValue_append_zeros, value, Nat.mul_assoc, ← Nat.pow_add]
      · intro filled
        rw [List.length_singleton]
        omega
    · rw [if_neg short]
      obtain ⟨filled, last, head⟩ := lengths.resolve_left (by omega)
      have parts := List.take_append_drop (lead + 1).toNat (digitText n)
      have before : (digitText n).take (lead + 1).toNat ≠ [] := by
        rw [Ne, ← List.length_eq_zero_iff, List.length_take]
        omega
      refine readDigits_point negative closed ⟨?_, before, .inr ?_⟩ ?_ ?_ 0 ?_ ?_
      · exact fun c member => digits.all c (List.mem_of_mem_take member)
      · rwa [List.head?_take, if_neg (by omega)]
      · exact fun c member => digits.all c (List.mem_of_mem_drop member)
      · rw [Ne, List.drop_eq_nil_iff]
        omega
      · rw [parts, value, Nat.pow_zero, Nat.mul_one]
      · intro _
        rw [List.length_drop]
        omega

theorem readDigits_scaled (layout : Decimal.Layout) :
    readDigits negative (Decimal.scaledText layout (digitText n) lead ++ rest) =
      some (.real (Decimal.trim ⟨negative, n, exponent⟩), rest) := by
  have lengths := digits_lead first
  have value := digitValue_digitText n
  have digits := (whole_digitText n).all
  let power := zeros (layout.exponentWidth - (digitText lead.natAbs).length) ++
    digitText lead.natAbs
  let tail := 'e' :: (if lead < 0 then '-' else '+') :: (power ++ rest)
  have scaled : readExponent tail = some (some lead, rest) := by
    have filled : power ≠ [] :=
      List.append_ne_nil_of_right_ne_nil _ (Decimal.digitText_ne_nil _)
    have all : ∀ c ∈ power, isDigit c :=
      List.forall_mem_append.mpr ⟨Decimal.isDigit_zeros _, Decimal.isDigit_digitText⟩
    have read := readExponent_signed (lead < 0) filled all closed
    have total : signed (lead < 0) (digitValue power) = lead := by
      rw [digitValue_zeros, digitValue_digitText, signed]
      simp only [decide_eq_true_eq]
      omega
    rw [total] at read
    simpa only [decide_eq_true_eq] using read
  unfold Decimal.scaledText
  obtain ⟨c, more, split⟩ := List.exists_cons_of_ne_nil (Decimal.digitText_ne_nil n)
  rw [split] at lengths value digits ⊢
  have point : (if (c :: more).length ≤ 1 then [] else '.' :: (c :: more).drop 1) =
      pointed more := by
    cases more <;> rfl
  have trimmed : Decimal.trim ⟨negative, n, lead - more.length⟩ =
      Decimal.trim ⟨negative, n, exponent⟩ := by
    have balanced : n ≠ 0 → lead - more.length = exponent - (0 : Nat) := by
      rw [List.length_cons] at lengths
      omega
    have same := Decimal.trim_zeros negative exponent balanced
    rwa [Nat.pow_zero, Nat.mul_one] at same
  obtain ⟨digit, others⟩ := List.forall_mem_cons.mp digits
  have first : Whole [c] := ⟨List.forall_mem_singleton.mpr digit, nofun, .inl rfl⟩
  have unpointed : tail.head? ≠ some '.' := fun same => absurd (Option.some.inj same) (by decide)
  have parts := readDigits_parts negative first others (noDigit_cons rfl) unpointed scaled
  have real : ¬ (more.isEmpty ∧ (some lead).isNone) := fun both => absurd both.2 (by simp)
  have whole : digitValue ([c] ++ more) = n := value
  rw [if_neg real, whole, Option.getD_some, trimmed] at parts
  dsimp only
  rw [point, List.append_assoc, List.append_assoc]
  exact parts

end Text

/-- The text is a sign, if any, and a part that starts with a digit, from which the value is
    read. -/
def Numeral (text : List Char) (value : Json) : Prop :=
  ∃ negative c more, text = (if negative then ['-'] else []) ++ c :: more ∧ isDigit c ∧
    ∀ rest, Closed rest → readDigits negative (c :: more ++ rest) = some (value, rest)

namespace Numeral

variable {text : List Char} {value : Json}

theorem head (numeral : Numeral text value) :
    ∃ c more, text = c :: more ∧ (c = '-' ∨ isDigit c) := by
  obtain ⟨negative, c, more, rfl, digit, _⟩ := numeral
  cases negative with
  | false => exact ⟨c, more, rfl, .inr digit⟩
  | true => exact ⟨'-', c :: more, rfl, .inl rfl⟩

theorem readNumber (numeral : Numeral text value) {rest : List Char} (closed : Closed rest) :
    readNumber (text ++ rest) = some (value, rest) := by
  obtain ⟨negative, c, more, rfl, digit, read⟩ := numeral
  have unsigned : c ≠ '-' := by
    rintro rfl
    cases digit
  have finite : c ≠ 'I' := by
    rintro rfl
    cases digit
  unfold Json.readNumber
  split
  rename_i signed unread sign
  obtain ⟨rfl, rfl⟩ : signed = negative ∧ unread = c :: more ++ rest := by
    cases negative with
    | true =>
      cases sign
      exact ⟨rfl, rfl⟩
    | false =>
      split at sign
      · rename_i same
        exact absurd (List.cons.inj same).1 unsigned
      · cases sign
        exact ⟨rfl, rfl⟩
  split
  · rename_i same
    exact absurd (List.cons.inj same).1 finite
  · exact read rest closed

end Numeral

theorem numeral_of_parts (negative : Bool) {body : List Char} {value : Json}
    (head : ∃ c more, body = c :: more ∧ isDigit c)
    (read : ∀ rest, Closed rest → readDigits negative (body ++ rest) = some (value, rest)) :
    Numeral ((if negative then ['-'] else []) ++ body) value := by
  obtain ⟨c, more, rfl, digit⟩ := head
  exact ⟨negative, c, more, rfl, digit, read⟩

theorem Whole.head {digits : List Char} (whole : Whole digits) :
    ∃ c more, digits = c :: more ∧ isDigit c := by
  obtain ⟨c, more, rfl⟩ := List.exists_cons_of_ne_nil whole.filled
  exact ⟨c, more, rfl, whole.all c List.mem_cons_self⟩

theorem plainText_head {digits : List Char} (head : ∃ c more, digits = c :: more ∧ isDigit c)
    (lead : Int) : ∃ c more, Decimal.plainText digits lead = c :: more ∧ isDigit c := by
  obtain ⟨c, rest, rfl, digit⟩ := head
  unfold Decimal.plainText
  by_cases below : lead < 0
  · rw [if_pos below]
    exact ⟨'0', _, rfl, rfl⟩
  · obtain ⟨whole, length⟩ : ∃ whole, (lead + 1).toNat = whole + 1 := ⟨lead.toNat, by omega⟩
    rw [if_neg below, length]
    dsimp only
    split
    · exact ⟨c, _, rfl, digit⟩
    · exact ⟨c, _, rfl, digit⟩

theorem scaledText_head {digits : List Char} (head : ∃ c more, digits = c :: more ∧ isDigit c)
    (layout : Decimal.Layout) (lead : Int) :
    ∃ c more, Decimal.scaledText layout digits lead = c :: more ∧ isDigit c := by
  obtain ⟨c, rest, rfl, digit⟩ := head
  exact ⟨c, _, rfl, digit⟩

theorem numeral_int (n : Int) : Numeral (intText n) (.int n) := by
  have value : signed (n < 0) n.natAbs = n := by
    rw [signed]
    simp only [decide_eq_true_eq]
    omega
  have numeral := numeral_of_parts (n < 0) (whole_digitText n.natAbs).head
    fun rest closed => readDigits_digitText (n < 0) n.natAbs closed
  rw [value] at numeral
  simpa only [intText, decide_eq_true_eq] using numeral

theorem numeral_real (layout : Decimal.Layout) (d : Decimal) :
    Numeral (d.text layout) (.real d.trim) := by
  obtain ⟨negative, n, exponent⟩ := d
  have head := (whole_digitText n).head
  unfold Decimal.text
  dsimp only
  generalize first : (if n = 0 then 0 else exponent + ((digitText n).length : Int) - 1) = lead
  by_cases plain : layout.leastPlain ≤ lead ∧ lead ≤ layout.mostPlain
  · rw [if_pos plain]
    exact numeral_of_parts negative (plainText_head head lead)
      fun rest closed => readDigits_plain negative first.symm closed
  · rw [if_neg plain]
    exact numeral_of_parts negative (scaledText_head head layout lead)
      fun rest closed => readDigits_scaled negative first.symm closed layout

end Json

end FluentCensus
