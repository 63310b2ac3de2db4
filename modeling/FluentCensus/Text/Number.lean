import FluentCensus.Text.Blank
import FluentCensus.Text.Digit

namespace FluentCensus.Text

def readDigits (value : Nat) (afterDigit : Bool) : List Char → Option Nat
  | [] => if afterDigit then some value else none
  | '_' :: rest => if afterDigit then readDigits value false rest else none
  | c :: rest => (digitValue? c).bind fun d => readDigits (10 * value + d) true rest

def mostDigits : Nat := 4300

def readNat? (text : List Char) : Option Nat :=
  if mostDigits < (text.filter isDecimalDigit).length then none else readDigits 0 false text

/-- A whole number between white space, with or without a sign, in the digits of any system. -/
def readInt? (text : List Char) : Option Int :=
  match trimWhite text with
  | '-' :: digits => (readNat? digits).map fun n => -(n : Int)
  | '+' :: digits => (readNat? digits).map Int.ofNat
  | digits => (readNat? digits).map Int.ofNat

/-- A minus sign with decimal digits and at most one point, which digits follow. A line feed at the
    end does not count. -/
def looksNegative (text : List Char) : Bool :=
  match text with
  | '-' :: rest =>
    let rest := if rest.getLast? = some '\n' then rest.dropLast else rest
    match rest.span isDecimalDigit with
    | (whole, []) => !whole.isEmpty
    | (_, '.' :: part) => !part.isEmpty && part.all isDecimalDigit
    | _ => false
  | _ => false

end FluentCensus.Text
