import ToolGate.Text.Blank
import ToolGate.Vocabulary.Word

/-!
# Governance protocols and combination modes

A check speaks one of six protocols. The checks of one group are combined by a mode: a group of one
check is `single`, and larger groups ask for `all` checks or for `any` of them.

Operators may type a name loosely: blanks around it, capitals and, for protocols, underscores do not
matter. Stored tables use the exact names only.

* `Protocol.read?_name`, `Mode.read?_name`: every exact name is also a loose one.
-/

namespace ToolGate.Route

/-- The protocol a check speaks. -/
inductive Protocol where
  | approval
  | rateLimit
  | constraint
  | precondition
  | flow
  | identity
deriving DecidableEq, Repr

/-- How the checks of one group combine. -/
inductive Mode where
  | single
  | all
  | any
deriving DecidableEq, Repr

instance : Word Protocol where
  all := [.approval, .rateLimit, .constraint, .precondition, .flow, .identity]
  name
    | .approval => "approval"
    | .rateLimit => "rate-limit"
    | .constraint => "constraint"
    | .precondition => "precondition"
    | .flow => "flow"
    | .identity => "identity"
  mem_all a := by cases a <;> decide
  name_injective a b := by cases a <;> cases b <;> decide

instance : Word Mode where
  all := [.single, .all, .any]
  name
    | .single => "single"
    | .all => "all"
    | .any => "any"
  mem_all a := by cases a <;> decide
  name_injective a b := by cases a <;> cases b <;> decide

namespace Protocol

def name (p : Protocol) : String := Word.name p

/-- A loosely typed name brought to the spelling of the exact names. -/
def normalName (raw : String) : String :=
  let s := String.ofList
    ((Text.trim raw.toList).map (fun c => if c = '_' then '-' else Text.lower c))
  if s = "ratelimit" then "rate-limit" else s

/-- The protocol of a loosely typed name. -/
def read? (raw : String) : Option Protocol := Word.ofName? (normalName raw)

def rejection (raw : String) : String :=
  "unknown protocol '" ++ raw ++
    "': expected one of approval, rate-limit, constraint, precondition, flow, identity"

theorem read?_name (p : Protocol) : read? p.name = some p := by
  cases p <;> decide +kernel

end Protocol

namespace Mode

def name (m : Mode) : String := Word.name m

/-- The mode of a loosely typed name. -/
def read? (raw : String) : Option Mode :=
  Word.ofName? (String.ofList ((Text.trim raw.toList).map Text.lower))

def rejection (raw : String) : String :=
  "unknown mode '" ++ raw ++ "': expected all or any"

theorem read?_name (m : Mode) : read? m.name = some m := by
  cases m <;> decide +kernel

end Mode

end ToolGate.Route
