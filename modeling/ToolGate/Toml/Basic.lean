/-!
# TOML values

The values of a TOML text. Fractions and moments are kept as they are spelled; the keys of a table
are different.
-/

namespace ToolGate

inductive Toml where
  | text (value : String)
  | bool (value : Bool)
  | integer (value : Int)
  | fraction (spelling : String)
  /-- A date, a time or both. -/
  | moment (spelling : String)
  | array (items : List Toml)
  | table (entries : List (String × Toml))

namespace Toml

instance : Inhabited Toml := ⟨.table []⟩

/-- Why a text or a value could not be read. -/
inductive Error where
  /-- The text is no TOML, or gives a key twice. -/
  | malformed
  /-- A value has another shape. -/
  | expected (what : String)
  /-- A word is not in its vocabulary. -/
  | unknown (word : String)
deriving DecidableEq, Repr

namespace Error

def message : Error → String
  | .malformed => "malformed TOML: unexpected character, end or key"
  | .expected what => "malformed TOML: expected " ++ what
  | .unknown word => "malformed TOML: unknown word " ++ word

end Error

end Toml

end ToolGate
