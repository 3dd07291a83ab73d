import ToolGate.Json.Binary64

/-!
# Numbers of data texts

A number is an integer of 64 bits or a float, kept as the digits and the power of ten of its
shortest decimal fraction. An integer is written plainly. A fraction keeps a point or an exponent,
so that it reads back as a fraction; it is written positionally while it has at most sixteen digits
before the point and fewer than five zeros after it, and with an exponent beyond.
-/

namespace ToolGate.Json

/-- A number: an integer, or `± digits · 10 ^ exponent`. -/
inductive Number where
  | integer (value : Int)
  | fraction (negative : Bool) (digits : Nat) (exponent : Int)
deriving DecidableEq

namespace Number

/-- Whether an integer fits 64 bits, signed or unsigned. -/
def fits64 (value : Int) : Bool := -9223372036854775808 ≤ value && value ≤ 18446744073709551615

/-- Whether `digits · 10 ^ exponent` rounds to a finite number of 64 bits. -/
def isFinite (digits : Nat) (exponent : Int) : Bool :=
  let scale := (Nat.toDigits 10 digits).length + exponent
  if digits = 0 ∨ scale < 300 then true
  else if 320 < scale then false
  else
    let bound := Nat.pow 2 1024 - Nat.pow 2 970
    if 0 ≤ exponent then digits * Nat.pow 10 exponent.toNat < bound
    else digits < bound * Nat.pow 10 (-exponent).toNat

/-- The fraction of given digits, taken to the nearest float and brought to its shortest digits. -/
def ofDigits (negative : Bool) (digits : Nat) (exponent : Int) : Number :=
  let (d, e) := (Binary64.ofDecimal digits exponent).shortest
  .fraction negative d e

def natural (n : Nat) : List Char := Nat.toDigits 10 n

def signed (value : Int) : List Char :=
  if value < 0 then '-' :: natural value.natAbs else natural value.natAbs

/-- The written form of a positive fraction with shortest digits `ds`. -/
def positional (ds : List Char) (exponent : Int) : List Char :=
  let point : Int := ds.length + exponent
  if 0 ≤ exponent ∧ point ≤ 16 then
    ds ++ List.replicate exponent.toNat '0' ++ ['.', '0']
  else if 0 < point ∧ point ≤ 16 then
    ds.take point.toNat ++ '.' :: ds.drop point.toNat
  else if -5 < point ∧ point ≤ 0 then
    '0' :: '.' :: (List.replicate (-point).toNat '0' ++ ds)
  else
    match ds with
    | [] => []
    | [d] => d :: 'e' :: signed (point - 1)
    | d :: rest => d :: '.' :: (rest ++ 'e' :: signed (point - 1))

def text : Number → List Char
  | .integer value => signed value
  | .fraction negative digits exponent =>
    let body := if digits = 0 then ['0', '.', '0'] else positional (natural digits) exponent
    if negative then '-' :: body else body

/-- The value of a run of decimal digits, after the value of those before it. -/
def digitsValue (start : Nat) (cs : List Char) : Nat :=
  cs.foldl (fun n c => 10 * n + (c.toNat - 48)) start

/-- An exponent part: empty, or `e` with an optional sign and at least one digit. -/
def exponentPart? : List Char → Option Int
  | [] => some 0
  | c :: cs =>
    if c = 'e' ∨ c = 'E' then
      let (negative, ds) : Bool × List Char := match cs with
        | '-' :: ds => (true, ds)
        | '+' :: ds => (false, ds)
        | ds => (false, ds)
      if ds ≠ [] ∧ ds.all Char.isDigit then
        let n : Int := digitsValue 0 ds
        some (if negative then -n else n)
      else none
    else none

end Number

end ToolGate.Json
