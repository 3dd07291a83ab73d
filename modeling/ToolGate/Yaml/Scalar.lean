import ToolGate.Json.Number
import ToolGate.Text.Hex
import ToolGate.Yaml.Error
import ToolGate.Yaml.Token

/-!
# What scalars stand for

By the core schema a plain scalar is null, a truth value, a number or a text, as its spelling says;
a quoted or block scalar is a text. The standard tags ask for one kind each.

Integers are decimal without leading zeros, or hexadecimal, octal or binary behind `0x`, `0o` and
`0b`; digits with a leading zero are a text.
-/

namespace ToolGate.Yaml

/-- What a scalar stands for. -/
inductive Scalar where
  | null
  | bool (value : Bool)
  | integer (value : Int)
  | fraction (value : Json.Number)
  /-- An infinity or no number. -/
  | notFinite
  | text (value : String)

/-- The tag of a kind of the core schema. -/
def coreTag (kind : String) : String := "tag:yaml.org,2002:" ++ kind

/-- Whether a tag is one of a document's own, which begin with an exclamation mark. -/
def isLocalTag (tag : String) : Bool := tag.toList.head? == some '!'

namespace Scalar

def isNull (s : String) : Bool := ["~", "null", "Null", "NULL"].contains s

def bool? (s : String) : Option Bool :=
  if ["true", "True", "TRUE"].contains s then some true
  else if ["false", "False", "FALSE"].contains s then some false
  else none

/-! ## Integers -/

/-- The value of digits in a base; there must be one at least. -/
def digits? (base : Nat) : List Char → Option Nat
  | [] => none
  | cs => cs.foldlM (fun n c => (Text.hexValue? c).bind fun d =>
      if d < base then some (base * n + d) else none) 0

/-- Whether digits begin with a zero that another digit follows. -/
def hasLeadingZero : List Char → Bool
  | '0' :: c :: cs => (c :: cs).all Char.isDigit
  | _ => false

/-- The value of an integer without sign. -/
def magnitude? : List Char → Option Nat
  | '0' :: 'x' :: cs => digits? 16 cs
  | '0' :: 'o' :: cs => digits? 8 cs
  | '0' :: 'b' :: cs => digits? 2 cs
  | cs => if hasLeadingZero cs then none else digits? 10 cs

/-- A sign and what follows it; without a sign the number is positive. -/
def sign : List Char → Bool × List Char
  | '-' :: cs => (true, cs)
  | '+' :: cs => (false, cs)
  | cs => (false, cs)

/-- The integer of a spelling, of any size. -/
def integer? (s : String) : Option Int :=
  let (negative, cs) := sign s.toList
  (magnitude? cs).map fun n => if negative then -(n : Int) else n

/-- Whether an integer is beyond 64 bits but within 128. -/
def isWide (n : Int) : Bool :=
  !Json.Number.fits64 n && -170141183460469231731687303715884105728 ≤ n &&
    n ≤ 340282366920938463463374607431768211455

/-! ## Fractions -/

/-- A fraction without sign: digits around an optional point, and an optional exponent. -/
def decimal? (negative : Bool) (cs : List Char) : Option Json.Number :=
  let whole := cs.takeWhile Char.isDigit
  let rest := cs.dropWhile Char.isDigit
  let (decimals, rest) := match rest with
    | '.' :: r => (r.takeWhile Char.isDigit, r.dropWhile Char.isDigit)
    | _ => ([], rest)
  if whole = [] ∧ decimals = [] then none
  else
    (Json.Number.exponentPart? rest).bind fun e =>
      let digits := Json.Number.digitsValue (Json.Number.digitsValue 0 whole) decimals
      let exponent := e - decimals.length
      if Json.Number.isFinite digits exponent then some (.ofDigits negative digits exponent)
      else none

def isInfinite (cs : List Char) : Bool := [".inf", ".Inf", ".INF"].contains (String.ofList cs)

/-- The fraction of a spelling. -/
def fraction? (s : String) : Option Scalar :=
  let (negative, cs) := sign s.toList
  if isInfinite cs || [".nan", ".NaN", ".NAN"].contains s then some .notFinite
  else (decimal? negative cs).map .fraction

/-! ## Resolution -/

/-- What a plain scalar stands for; an integer beyond 64 bits is refused. -/
def ofPlain (s : String) : Except Error Scalar :=
  if s = "" ∨ isNull s then .ok .null
  else
    match bool? s, integer? s with
    | some b, _ => .ok (.bool b)
    | none, some n =>
      if Json.Number.fits64 n then .ok (.integer n)
      else if isWide n then .error (.expected "an integer of 64 bits")
      else .ok ((fraction? s).getD (.text s))
    | none, none =>
      if hasLeadingZero (sign s.toList).2 then .ok (.text s) else .ok ((fraction? s).getD (.text s))

/-- What a scalar of a given style and tag stands for. -/
def resolve (s : String) (style : Style) (tag : Option String) : Except Error Scalar :=
  match tag with
  | none => if style = .plain then ofPlain s else .ok (.text s)
  | some t =>
    if isLocalTag t then .error (.expected "a value without a tag of its own")
    else if t = coreTag "bool" then
      match bool? s with
      | some b => .ok (.bool b)
      | none => .error (.expected "a truth value")
    else if t = coreTag "int" then
      match integer? s with
      | some n =>
        if Json.Number.fits64 n then .ok (.integer n)
        else .error (.expected "an integer of 64 bits")
      | none => .error (.expected "an integer")
    else if t = coreTag "float" then
      match fraction? s with
      | some v => .ok v
      | none => .error (.expected "a fraction")
    else if t = coreTag "null" then
      if isNull s then .ok .null else .error (.expected "null")
    else .ok (.text s)

end Scalar

end ToolGate.Yaml
