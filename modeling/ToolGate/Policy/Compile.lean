import ToolGate.Digest.Sha256
import ToolGate.Draft.Check
import ToolGate.Draft.Reader
import ToolGate.Policy.Merge
import ToolGate.Policy.Store
import ToolGate.Profile.Resolver

/-!
# Compiling documents

A document is read, checked, completed with the profiles it imports and merged into a policy, which
comes with its canonical text and a summary. A document with defects is refused before any profile
is looked up. To publish what was compiled is another step, after it has been reviewed.
-/

namespace ToolGate.Policy

/-- A summary of a policy for review before it is published. -/
structure Stats where
  annotations : Nat
  classifiers : Nat
  rules : Nat
  /-- The size of the canonical text in bytes. -/
  size : Nat
  /-- The digest of the canonical text. -/
  digest : String
deriving DecidableEq, Repr

def Stats.of (p : Policy) (text : String) : Stats where
  annotations := p.annotations.toolCount
  classifiers := p.classifiers.toolCount
  rules := p.rules.length
  size := text.utf8ByteSize
  digest := Sha256.hexDigest text

/-- What a document is compiled to. -/
structure Compiled where
  policy : Policy
  /-- The canonical text of the policy. -/
  text : String
  stats : Stats
deriving DecidableEq

/-- A policy with its canonical text and the summary of both. -/
def Compiled.of (p : Policy) : Compiled :=
  let text := p.render
  ⟨p, text, .of p text⟩

def compile (lookup : Lookup) (d : Draft) : Resolver.Step Compiled :=
  match d.check with
  | .error findings => throw (.invalid findings)
  | .ok doc => do
    let profiles ← Resolver.resolveAll lookup doc.profiles
    return .of (merge doc profiles doc.tenantVars)

def compileText (lookup : Lookup) (s : String) : Resolver.Step Compiled :=
  match Draft.parse s with
  | .error e => throw (.parse e)
  | .ok d => compile lookup d

/-- Reads the draft in a file. -/
def readDraft (t : Files.Tree) (path : String) : Except Error Draft :=
  match t.read path with
  | .error e => .error (.io path e)
  | .ok s =>
    match Draft.parse s with
    | .error e => .error (.parse e)
    | .ok d => .ok d

def compileFile (t : Files.Tree) (lookup : Lookup) (path : String) : Resolver.Step Compiled :=
  match readDraft t path with
  | .error e => throw e
  | .ok d => compile lookup d

/-- Publishes what was compiled, in place of the policy that a store has. -/
def publish {σ : Type} (store : Store σ) (out : Compiled) : ExceptT Error (StateM σ) Unit :=
  ExceptT.adapt Error.transport (.mk (store.set out.policy))

end ToolGate.Policy
