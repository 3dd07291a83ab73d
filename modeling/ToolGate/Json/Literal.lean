import ToolGate.Json.Number

/-!
# Number literals

A number as a JSON text writes it. An integer beyond 64 bits and a negative zero stand for
fractions.

A fraction is in range if it can be computed as a float of 64 bits: its first digits, as many as fit
64 bits, are rounded to a float and multiplied by the float nearest to a power of ten. Both
roundings can decide whether a number just below the greatest float is in range.
-/

namespace ToolGate.Json

/-- A number literal in its parts. -/
structure Literal where
  negative : Bool
  /-- The digits before the point. -/
  whole : List Char
  /-- The digits behind the point. -/
  decimals : List Char
  /-- The exponent; an integer has neither a point nor an exponent. -/
  exponent : Option Int

namespace Literal

/-- Whether digits are a whole part: at least one, and no zero before another. -/
def isWholePart : List Char → Bool
  | [] => false
  | ['0'] => true
  | c :: cs => c != '0' && c.isDigit && cs.all Char.isDigit

/-- The literal behind a sign. -/
def unsigned? (negative : Bool) (cs : List Char) : Option Literal :=
  let whole := cs.takeWhile Char.isDigit
  if isWholePart whole then
    match cs.dropWhile Char.isDigit with
    | [] => some ⟨negative, whole, [], none⟩
    | '.' :: rest =>
      let decimals := rest.takeWhile Char.isDigit
      if decimals = [] then none
      else
        (Number.exponentPart? (rest.dropWhile Char.isDigit)).map fun e =>
          ⟨negative, whole, decimals, some e⟩
    | rest => (Number.exponentPart? rest).map fun e => ⟨negative, whole, [], some e⟩
  else none

def ofText? : List Char → Option Literal
  | '-' :: cs => unsigned? true cs
  | cs => unsigned? false cs

def number (l : Literal) : Number :=
  match l.exponent with
  | none =>
    let n := Number.digitsValue 0 l.whole
    let value : Int := if l.negative then -n else n
    if (l.negative ∧ n = 0) ∨ Number.fits64 value = false then .ofDigits l.negative n 0
    else .integer value
  | some e =>
    .ofDigits l.negative (Number.digitsValue (Number.digitsValue 0 l.whole) l.decimals)
      (e - l.decimals.length)

/-- Appends digits to a number while it stays below 2⁶⁴; also the number of digits left. -/
def appendDigits (n : Nat) : List Char → Nat × Nat
  | [] => (n, 0)
  | c :: cs =>
    let m := Number.digitsValue n [c]
    if m < Nat.pow 2 64 then appendDigits m cs else (n, cs.length + 1)

/-- The natural number that the float nearest to a natural number is. -/
def nearest (n : Nat) : Nat := (Binary64.ofRatio n 1).floor

/-- Whether a literal stands for a finite float. -/
def isInRange (l : Literal) : Bool :=
  let (n, left) := appendDigits 0 l.whole
  let (n, unused) := appendDigits n l.decimals
  let e : Int := l.exponent.getD 0 + left - (l.decimals.length - unused)
  n == 0 || e < 0 ||
    (e ≤ 308 && nearest n * nearest (Nat.pow 10 e.toNat) < Nat.pow 2 1024 - Nat.pow 2 970)

end Literal

end ToolGate.Json
