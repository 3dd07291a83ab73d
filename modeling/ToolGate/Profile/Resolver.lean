import ToolGate.Policy.Error
import ToolGate.Profile.Basic

/-!
# Resolving profile ids

A resolver looks profiles up by service and keeps those that it found, until it is told to forget
them. A failed lookup is not kept.
-/

namespace ToolGate

/-- What a catalog answers at some time. -/
abbrev Lookup := String → Except TransportError (Option Profile)

/-- The profiles found so far, by service. -/
structure Resolver where
  cache : SortedMap String Profile

namespace Resolver

def empty : Resolver := ⟨∅⟩

/-- A step that may look profiles up. What was found before a failure is kept. -/
abbrev Step (α : Type) := ExceptT Policy.Error (StateM Resolver) α

/-- The profile of an id, from the cache or by a lookup. -/
def resolveId (lookup : Lookup) (id : ProfileId) : Step Profile := do
  match (← get).cache.get? id.service with
  | some p => return p
  | none =>
    match lookup id.service with
    | .error e => throw (.transport e)
    | .ok none => throw (.profileMissing id.text id.service)
    | .ok (some p) =>
      modify fun r => ⟨r.cache.insert id.service p⟩
      return p

/-- The profiles of ids in order, up to the first failure. -/
def resolveAll (lookup : Lookup) : List ProfileId → Step (List Profile)
  | [] => return []
  | id :: ids => do
    let p ← resolveId lookup id
    let ps ← resolveAll lookup ids
    return p :: ps

def readId (raw : String) : Except Policy.Error ProfileId :=
  match ProfileId.parse? raw with
  | some id => .ok id
  | none => .error (.badProfileId raw)

def resolve (lookup : Lookup) (raw : String) : Step Profile :=
  match readId raw with
  | .ok id => resolveId lookup id
  | .error e => throw e

/-- Forgets what was found. -/
def invalidate (_ : Resolver) : Resolver := .empty

end Resolver

end ToolGate
