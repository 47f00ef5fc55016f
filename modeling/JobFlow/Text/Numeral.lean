import JobFlow.Text.Blank
import JobFlow.Text.Digit

/-!
Reading integers. A numeral is a sign at most, then digits of any script, with single underscores
allowed between two digits and spacing allowed around the whole. The number of digits is limited.
-/

set_option autoImplicit false

namespace JobFlow.Text

inductive NumeralError
  | malformed
  | tooLong (digits : Nat)
  deriving DecidableEq, Repr

/-- The blanks that may stand around a numeral: all but the four separator controls. -/
def spacesNumeral (c : Char) : Bool :=
  isBlank c && !(0x1C ≤ c.toNat && c.toNat ≤ 0x1F)

/-- The characters that digits grouped by underscores consist of. -/
def isNumeralPart (c : Char) : Bool :=
  c == '_' || (digitValue? c).isSome

/-- The values of a run of digits, `none` when the run is empty or holds something else. -/
def digitRun? (cs : List Char) : Option (List Nat) :=
  if cs.isEmpty then none else cs.mapM digitValue?

/-- The values of digits that are grouped by single underscores. -/
def groupedDigits? (cs : List Char) : Option (List Nat) :=
  ((cs.splitOn '_').mapM digitRun?).map List.flatten

def ofDigits (digits : List Nat) : Nat :=
  digits.foldl (fun n d => 10 * n + d) 0

/-- Reads digits grouped by single underscores. They are counted before anything is said about what
stands behind them. -/
def readNat (cs : List Char) : Except NumeralError Nat :=
  match groupedDigits? (cs.takeWhile isNumeralPart) with
  | none => .error .malformed
  | some digits =>
    if digitLimit < digits.length then .error (.tooLong digits.length)
    else if (cs.dropWhile isNumeralPart).isEmpty then .ok (ofDigits digits)
    else .error .malformed

def readInt (s : String) : Except NumeralError Int :=
  match trimWhile spacesNumeral s.toList with
  | '-' :: digits => (readNat digits).map fun n => -(n : Int)
  | '+' :: digits => (readNat digits).map fun n => (n : Int)
  | digits => (readNat digits).map fun n => (n : Int)

end JobFlow.Text
