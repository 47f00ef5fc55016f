/-!
Binary floating-point numbers of 64 bits, as exact dyadic values.
-/

set_option autoImplicit false

namespace JobFlow.Number

/-- A number of the 64-bit binary format. A finite one is `significand * 2 ^ exponent` with its
sign kept apart, so that zero keeps its sign too. -/
inductive Binary64
  | nan
  | infinite (negative : Bool)
  | finite (negative : Bool) (significand : Nat) (exponent : Int)
  deriving DecidableEq, Repr, Inhabited

namespace Binary64

/-- The significand from which on a number is normal. -/
def normalFloor : Nat :=
  Nat.pow 2 52

/-- The exponent of the last place of the smallest numbers. -/
def leastExponent : Int :=
  -1074

/-- Decodes the interchange format: a sign bit, eleven exponent bits, fifty-two fraction bits. -/
def ofBits (bits : UInt64) : Binary64 :=
  let n : Nat := bits.toNat
  let negative := n / Nat.pow 2 63 == 1
  let biased : Nat := n / normalFloor % Nat.pow 2 11
  let fraction : Nat := n % normalFloor
  if biased = 2047 then
    if fraction = 0 then infinite negative else nan
  else if biased = 0 then finite negative fraction leastExponent
  else finite negative (normalFloor + fraction) (leastExponent + (biased : Int) - 1)

/-- The integer that a finite number without fractional part equals. The sign of zero is lost. -/
def toInt? : Binary64 → Option Int
  | nan => none
  | infinite _ => none
  | finite negative significand exponent =>
    let signed (n : Nat) : Int := if negative then -(n : Int) else n
    match exponent with
    | .ofNat e => some (signed (significand * Nat.pow 2 e))
    | .negSucc e =>
      let unit := Nat.pow 2 (e + 1)
      if significand % unit = 0 then some (signed (significand / unit)) else none

end Binary64

end JobFlow.Number
