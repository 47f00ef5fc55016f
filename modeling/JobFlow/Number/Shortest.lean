import JobFlow.Number.Binary64
import JobFlow.Text.Digit

/-!
The shortest decimal text of a binary number: the fewest digits that still read back as the same
number, and of those the nearest ones. Everything is compared as exact fractions.
-/

set_option autoImplicit false

namespace JobFlow.Number

/-- A positive fraction. -/
structure Fraction where
  num : Nat
  den : Nat

namespace Fraction

/-- `n * 2 ^ e` as a fraction. -/
def scaled (n : Nat) (e : Int) : Fraction :=
  match e with
  | .ofNat e => ⟨n * Nat.pow 2 e, 1⟩
  | .negSucc e => ⟨n, Nat.pow 2 (e + 1)⟩

/-- `n * 10 ^ e` as a fraction. -/
def decimal (n : Nat) (e : Int) : Fraction :=
  match e with
  | .ofNat e => ⟨n * Nat.pow 10 e, 1⟩
  | .negSucc e => ⟨n, Nat.pow 10 (e + 1)⟩

def le (a b : Fraction) : Bool :=
  a.num * b.den ≤ b.num * a.den

def lt (a b : Fraction) : Bool :=
  a.num * b.den < b.num * a.den

def distance (a b : Fraction) : Fraction :=
  let x := a.num * b.den
  let y := b.num * a.den
  ⟨(x - y) + (y - x), a.den * b.den⟩

/-- How many whole times `unit` fits into `a`. -/
def quotient (a unit : Fraction) : Nat :=
  a.num * unit.den / (a.den * unit.num)

/-- The exponent of the leading decimal digit: `10 ^ e ≤ a < 10 ^ (e + 1)`. The digit counts of
numerator and denominator leave two candidates, and one comparison decides. -/
def decimalExponent (a : Fraction) : Int :=
  let guess : Int := (Nat.toDigits 10 a.num).length - (Nat.toDigits 10 a.den).length
  if (decimal 1 guess).le a then guess else guess - 1

end Fraction

/-- The numbers that round to `significand * 2 ^ exponent`: from half-way to the neighbour below
to half-way to the neighbour above. The neighbour below a power of two is at half the distance. -/
structure RoundingInterval where
  lower : Fraction
  upper : Fraction
  /-- The ends belong to the interval: ties go to the even significand. -/
  closed : Bool

namespace RoundingInterval

def ofFinite (significand : Nat) (exponent : Int) : RoundingInterval :=
  let nearBelow := significand = Binary64.normalFloor ∧ Binary64.leastExponent < exponent
  { lower := .scaled (4 * significand - if nearBelow then 1 else 2) (exponent - 2)
    upper := .scaled (4 * significand + 2) (exponent - 2)
    closed := significand % 2 = 0 }

def contains (i : RoundingInterval) (a : Fraction) : Bool :=
  if i.closed then i.lower.le a && a.le i.upper else i.lower.lt a && a.lt i.upper

end RoundingInterval

structure DecimalFloat where
  digits : Nat
  exponent : Int

/-- The multiple of `10 ^ exponent` next to `value` that lies in the interval, if there is one.
Of two the nearer is taken, and at equal distance the even one. -/
def nearestOnGrid? (value : Fraction) (interval : RoundingInterval) (exponent : Int) :
    Option DecimalFloat :=
  let below := value.quotient (.decimal 1 exponent)
  let point (n : Nat) : Fraction := .decimal n exponent
  let fits (n : Nat) : Bool := n != 0 && interval.contains (point n)
  let gapBelow := value.distance (point below)
  let gapAbove := value.distance (point (below + 1))
  match fits below, fits (below + 1) with
  | true, false => some ⟨below, exponent⟩
  | false, true => some ⟨below + 1, exponent⟩
  | true, true =>
    let takeBelow := gapBelow.lt gapAbove || (gapBelow.le gapAbove && below % 2 == 0)
    some ⟨if takeBelow then below else below + 1, exponent⟩
  | false, false => none

/-- The shortest decimal of `significand * 2 ^ exponent`, tried with one digit, two digits and so
on. Seventeen digits always suffice. -/
def shortestDecimal (significand : Nat) (exponent : Int) : DecimalFloat :=
  let value := Fraction.scaled significand exponent
  let interval := RoundingInterval.ofFinite significand exponent
  let leading := value.decimalExponent
  let grid (n : Nat) := nearestOnGrid? value interval (leading - (n : Int))
  ((List.range 17).findSome? grid).getD ⟨0, 0⟩

namespace DecimalFloat

/-- The digits without trailing zeros, and the exponent of the first of them. -/
def scientific (d : DecimalFloat) : List Char × Int :=
  let all := Nat.toDigits 10 d.digits
  ((all.reverse.dropWhile (· == '0')).reverse, d.exponent + all.length - 1)

end DecimalFloat

/-- How a number is laid out. Exponents in `positionalFrom ≤ e < positionalBelow` are written
without an exponent part. -/
structure Layout where
  positionalFrom : Int
  positionalBelow : Int
  /-- The exponent is padded to this many digits. -/
  exponentWidth : Nat

/-- Numbers from `0.0001` up to sixteen integer digits are written out, and an exponent has a
sign and two digits at least. -/
def plainLayout : Layout :=
  ⟨-4, 16, 2⟩

namespace Layout

def exponentText (layout : Layout) (e : Int) : List Char :=
  let digits := Nat.toDigits 10 e.natAbs
  (if e < 0 then '-' else '+') ::
    List.replicate (layout.exponentWidth - digits.length) '0' ++ digits

/-- Writes digits whose first has the place `10 ^ e`. A positional number keeps one digit after
the point; an exponent part needs no point after a single digit. -/
def write (layout : Layout) (digits : List Char) (e : Int) : List Char :=
  if layout.positionalFrom ≤ e ∧ e < layout.positionalBelow then
    match e with
    | .negSucc n => '0' :: '.' :: List.replicate n '0' ++ digits
    | .ofNat n =>
      let whole := digits.take (n + 1)
      let fraction := digits.drop (n + 1)
      whole ++ List.replicate (n + 1 - digits.length) '0' ++ '.' ::
        (if fraction.isEmpty then ['0'] else fraction)
  else
    match digits with
    | [] => []
    | [d] => d :: 'e' :: layout.exponentText e
    | d :: ds => d :: '.' :: ds ++ 'e' :: layout.exponentText e

end Layout

namespace Binary64

/-- The text of a number: the shortest digits that read back, in the plain layout. -/
def text : Binary64 → String
  | nan => "nan"
  | infinite negative => if negative then "-inf" else "inf"
  | finite negative significand exponent =>
    let unsigned :=
      if significand = 0 then ['0', '.', '0']
      else
        let (digits, e) := (shortestDecimal significand exponent).scientific
        plainLayout.write digits e
    String.ofList (if negative then '-' :: unsigned else unsigned)

end Binary64

end JobFlow.Number
