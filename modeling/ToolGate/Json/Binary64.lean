/-!
# Floats of 64 bits

The finite floats that are not negative, computed with natural numbers. A decimal fraction is taken
to the nearest float, from halfway to the one with the even mantissa. A float is written by the
shortest decimal fraction that is taken to it; of several such the nearest counts.
-/

namespace ToolGate.Json

/-- The float `mantissa · 2 ^ exponent`. -/
structure Binary64 where
  mantissa : Nat
  exponent : Int
deriving DecidableEq, Repr

namespace Binary64

/-- The exponent that no float goes below. -/
def leastExponent : Int := -1074

/-- The least mantissa of a float with a greater exponent; mantissas have one binary digit more. -/
def leastMantissa : Nat := Nat.pow 2 52

/-- `a / b` rounded to a whole number, from halfway to the even one. -/
def divNearest (a b : Nat) : Nat :=
  let q := a / b
  let r := a % b
  if b < 2 * r ∨ (2 * r = b ∧ q % 2 = 1) then q + 1 else q

/-- Both sides of `a / b` multiplied so that the ratio is divided by `base ^ exponent`. -/
def rescale (base : Nat) (exponent : Int) (a b : Nat) : Nat × Nat :=
  (a * Nat.pow base (-exponent).toNat, b * Nat.pow base exponent.toNat)

/-- The float nearest to `a / b`, whatever its size. -/
def ofRatio (a b : Nat) : Binary64 :=
  let e : Int := (a.log2 : Int) - b.log2 - 52
  let (n, d) := rescale 2 e a b
  let e := max leastExponent (if n < leastMantissa * d then e - 1 else e)
  let (n, d) := rescale 2 e a b
  let m := divNearest n d
  if m = 2 * leastMantissa then ⟨leastMantissa, e + 1⟩ else ⟨m, e⟩

/-- The float nearest to `digits · 10 ^ exponent`, whatever its size; what has more than 330 zeros
behind its point is nearest to zero. -/
def ofDecimal (digits : Nat) (exponent : Int) : Binary64 :=
  if digits = 0 ∨ (Nat.toDigits 10 digits).length + exponent < -330 then ⟨0, leastExponent⟩
  else
    let (a, b) := rescale 10 (-exponent) digits 1
    ofRatio a b

def floor (x : Binary64) : Nat :=
  let (n, d) := rescale 2 (-x.exponent) x.mantissa 1
  n / d

/-- Four times the mantissas halfway to the floats below and above. -/
def halfway (x : Binary64) : Nat × Nat :=
  let low := if x.mantissa = leastMantissa ∧ leastExponent < x.exponent then 1 else 2
  (4 * x.mantissa - low, 4 * x.mantissa + 2)

/-- Whether `digits · 10 ^ exponent` is taken to a float. -/
def rounds (x : Binary64) (digits : Nat) (exponent : Int) : Bool :=
  let (a, b) := rescale 10 (-exponent) digits 1
  let (n, d) := rescale 2 (x.exponent - 2) a b
  let (low, high) := x.halfway
  if x.mantissa % 2 = 0 then low * d ≤ n && n ≤ high * d else low * d < n && n < high * d

/-- Looks for digits with the given exponent or a lower one; `fuel` bounds the exponents. -/
def search (x : Binary64) : (fuel : Nat) → (exponent : Int) → Nat × Int
  | 0, exponent => (0, exponent)
  | fuel + 1, exponent =>
    let (a, b) := rescale 2 (-x.exponent) x.mantissa 1
    let (n, d) := rescale 10 exponent a b
    let below := n / d
    match x.rounds below exponent, x.rounds (below + 1) exponent with
    | true, true => (divNearest n d, exponent)
    | true, false => (below, exponent)
    | false, true => (below + 1, exponent)
    | false, false => search x fuel (exponent - 1)

/-- The digits and the exponent of the shortest decimal fraction of a float. Seventeen digits are
enough for every float, and the search begins two exponents too high at most. -/
def shortest (x : Binary64) : Nat × Int :=
  if x.mantissa = 0 then (0, 0)
  else
    let (a, b) := rescale 2 (-x.exponent) x.mantissa 1
    search x 20 ((Nat.toDigits 10 a).length - (Nat.toDigits 10 b).length + 1)

end Binary64

end ToolGate.Json
