/-!
# Magnitudes of numbers

Numbers are held in double precision, and what lies beyond its range is no number.  How large a
number is, is found from the digits that fit into 64 bits and a power of ten: both are rounded, and
then their product.  So close to the end of the range the answer is that of these three roundings,
which may differ from that of one rounding of all the digits.
-/

namespace Morphotactics.Json

/-- Digits times a power of ten. -/
structure Magnitude where
  /-- The digits that are held, as one number of at most 64 bits. -/
  digits : Nat
  exponent : Int
deriving DecidableEq, Repr

/-- Rounds a number to the nearest one with at most 53 binary digits before its zeros.  Halfway
between two of them, the one whose last digit is even is taken. -/
def roundToDouble (n : Nat) : Nat :=
  let unit := Nat.pow 2 (n.log2 - 52)
  let q := n / unit
  let r := n % unit
  if 2 * r < unit ∨ 2 * r = unit ∧ q % 2 = 0 then q * unit else (q + 1) * unit

/-- The smallest number that is rounded beyond all numbers of double precision. -/
def tooLargeFrom : Nat := Nat.pow 2 1024 - Nat.pow 2 970

namespace Magnitude

/-- Nothing but a digit. -/
def ofDigit (digit : Nat) : Magnitude := ⟨digit, 0⟩

/-- Whether one more digit can be held. -/
def hasRoom (m : Magnitude) (digit : Nat) : Bool := 10 * m.digits + digit < Nat.pow 2 64

/-- The magnitude with one more digit in front of the point. -/
def push (m : Magnitude) (digit : Nat) : Magnitude := { m with digits := 10 * m.digits + digit }

/-- The magnitude times a power of ten. -/
def scale (m : Magnitude) (power : Int) : Magnitude := { m with exponent := m.exponent + power }

/-- Whether the magnitude is beyond the range.  Powers of ten that are themselves beyond the range
are not computed, and negative ones lead nowhere near its end. -/
def isTooLarge (m : Magnitude) : Bool :=
  if m.digits = 0 ∨ m.exponent < 0 then false
  else if m.exponent > 308 then true
  else roundToDouble m.digits * roundToDouble (Nat.pow 10 m.exponent.toNat) ≥ tooLargeFrom

end Magnitude

end Morphotactics.Json
