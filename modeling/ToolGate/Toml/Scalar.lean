import ToolGate.Json.Number
import ToolGate.Toml.Basic

/-!
# Bare TOML scalars

Truth values, numbers and moments. Digits may be grouped by single underscores. An integer fits 64
bits with a sign; a day exists in its month.
-/

namespace ToolGate.Toml.Scalar

/-- Characters of bare scalars. -/
def isPart (c : Char) : Bool :=
  c.isAlphanum || c == '+' || c == '-' || c == '_' || c == '.' || c == ':'

/-! ## Numbers -/

/-- The digits of a run in which single underscores stand between digits; `after` says whether a
digit stands before. -/
def ungroup (isDigit : Char → Bool) : (after : Bool) → List Char → Option (List Char)
  | true, [] => some []
  | false, [] => none
  | after, c :: cs =>
    if c = '_' then if after then ungroup isDigit false cs else none
    else if isDigit c then (ungroup isDigit true cs).map (c :: ·)
    else none

def digitValue (c : Char) : Nat :=
  if c.isDigit then c.toNat - 48 else if c.toNat < 97 then c.toNat - 55 else c.toNat - 87

/-- The value of digits in a base. -/
def valueIn (base : Nat) (ds : List Char) : Nat := ds.foldl (fun n c => base * n + digitValue c) 0

def isHexDigit (c : Char) : Bool := c.isDigit || ('a' ≤ c && c ≤ 'f') || ('A' ≤ c && c ≤ 'F')

/-- The value of a number that fits 64 bits with a sign. -/
def fit (n : Int) : Option Toml :=
  if -9223372036854775808 ≤ n ∧ n ≤ 9223372036854775807 then some (.integer n) else none

/-- Decimal digits without a leading zero. -/
def whole? (cs : List Char) : Option (List Char) :=
  (ungroup Char.isDigit false cs).bind fun ds =>
    match ds with
    | '0' :: _ :: _ => none
    | _ => some ds

/-- An exponent part behind its letter. -/
def exponent? (cs : List Char) : Option Int :=
  let (negative, ds) : Bool × List Char := match cs with
    | '-' :: ds => (true, ds)
    | '+' :: ds => (false, ds)
    | ds => (false, ds)
  (ungroup Char.isDigit false ds).map fun ds =>
    if negative then -(valueIn 10 ds : Int) else valueIn 10 ds

/-- Whether a fraction is small enough; a negative one may be of any size. -/
def isSmall (negative : Bool) (digits : List Char) (exponent : Int) : Bool :=
  negative || Json.Number.isFinite (valueIn 10 digits) exponent

/-- Whether the characters are a decimal fraction behind its sign. -/
def isFraction (negative : Bool) (cs : List Char) : Bool :=
  let isRun := fun c => Char.isDigit c || c == '_'
  match whole? (cs.takeWhile isRun), cs.dropWhile isRun with
  | some whole, '.' :: rest =>
    match ungroup Char.isDigit false (rest.takeWhile isRun), rest.dropWhile isRun with
    | some decimals, [] => isSmall negative (whole ++ decimals) (-(decimals.length : Int))
    | some decimals, e :: more =>
      (e == 'e' || e == 'E') &&
        match exponent? more with
        | some x => isSmall negative (whole ++ decimals) (x - decimals.length)
        | none => false
    | none, _ => false
  | some whole, e :: more =>
    (e == 'e' || e == 'E') &&
      match exponent? more with
      | some x => isSmall negative whole x
      | none => false
  | _, _ => false

/-- The number of characters behind a sign. -/
def signed? (negative : Bool) (cs spelling : List Char) : Option Toml :=
  if cs = ['i', 'n', 'f'] ∨ cs = ['n', 'a', 'n'] then some (.fraction (String.ofList spelling))
  else
    match whole? cs with
    | some ds => fit (if negative then -(valueIn 10 ds : Int) else valueIn 10 ds)
    | none => if isFraction negative cs then some (.fraction (String.ofList spelling)) else none

/-- The number that characters spell. -/
def number? (cs : List Char) : Option Toml :=
  match cs with
  | '0' :: 'x' :: ds => (ungroup isHexDigit false ds).bind fun ds => fit (valueIn 16 ds)
  | '0' :: 'o' :: ds =>
    (ungroup (fun c => '0' ≤ c && c ≤ '7') false ds).bind fun ds => fit (valueIn 8 ds)
  | '0' :: 'b' :: ds =>
    (ungroup (fun c => c == '0' || c == '1') false ds).bind fun ds => fit (valueIn 2 ds)
  | '+' :: ds => signed? false ds cs
  | '-' :: ds => signed? true ds cs
  | _ => signed? false cs cs

/-! ## Moments -/

/-- The value of exactly `count` digits and what follows them. -/
def digits? (count : Nat) (cs : List Char) : Option (Nat × List Char) :=
  let ds := cs.take count
  if ds.length = count ∧ ds.all Char.isDigit then some (valueIn 10 ds, cs.drop count) else none

/-- What follows a given character. -/
def after? (c : Char) : List Char → Option (List Char)
  | d :: cs => if d = c then some cs else none
  | [] => none

def daysIn (year month : Nat) : Nat :=
  if month = 2 then
    if year % 4 = 0 ∧ (year % 100 ≠ 0 ∨ year % 400 = 0) then 29 else 28
  else if [4, 6, 9, 11].contains month then 30
  else 31

def date? (cs : List Char) : Option (List Char) := do
  let (year, cs) ← digits? 4 cs
  let cs ← after? '-' cs
  let (month, cs) ← digits? 2 cs
  guard (1 ≤ month && month ≤ 12)
  let cs ← after? '-' cs
  let (day, cs) ← digits? 2 cs
  guard (1 ≤ day && day ≤ daysIn year month)
  return cs

/-- What follows hours and minutes. -/
def clock? (cs : List Char) : Option (List Char) := do
  let (hour, cs) ← digits? 2 cs
  let cs ← after? ':' cs
  let (minute, cs) ← digits? 2 cs
  guard (hour ≤ 23 && minute ≤ 59)
  return cs

def time? (cs : List Char) : Option (List Char) := do
  let cs ← clock? cs
  let cs ← after? ':' cs
  let (second, cs) ← digits? 2 cs
  guard (second ≤ 60)
  match cs with
  | '.' :: rest =>
    guard (!(rest.takeWhile Char.isDigit).isEmpty)
    return rest.dropWhile Char.isDigit
  | _ => return cs

/-- Whether the characters are nothing or the offset of a time zone. -/
def isOffset (cs : List Char) : Bool :=
  match cs with
  | [] => true
  | ['Z'] | ['z'] => true
  | c :: rest => (c == '+' || c == '-') && clock? rest == some []

/-- Whether the characters are a date, a time of day or both. -/
def isMoment (cs : List Char) : Bool :=
  match date? cs with
  | some [] => true
  | some (c :: rest) =>
    (c == 'T' || c == 't' || c == ' ') &&
      match time? rest with
      | some zone => isOffset zone
      | none => false
  | none => time? cs == some []

/-- The scalar that characters spell. -/
def ofRun? (cs : List Char) : Option Toml :=
  if cs = "true".toList then some (.bool true)
  else if cs = "false".toList then some (.bool false)
  else if isMoment cs then some (.moment (String.ofList cs))
  else number? cs

/-- Reads a bare scalar; the time behind a date may follow a space. -/
def read? (cs : List Char) : Option (Toml × List Char) :=
  let run := cs.takeWhile isPart
  let rest := cs.dropWhile isPart
  match date? run, rest with
  | some [], ' ' :: more =>
    match clock? more with
    | some _ => (ofRun? (run ++ ' ' :: more.takeWhile isPart)).map (·, more.dropWhile isPart)
    | none => (ofRun? run).map (·, rest)
  | _, _ => (ofRun? run).map (·, rest)

end ToolGate.Toml.Scalar
