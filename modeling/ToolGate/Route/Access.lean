import ToolGate.Files.Tree
import ToolGate.Route.Table
import ToolGate.Yaml.Reader

/-!
# Reports of effective access

A report says for every tool that a subject may call which checks its calls are subject to, with the
parameters that the instance of each check is known to have. A grant of all tools of a service
stands for those that the service has enabled.
-/

namespace ToolGate.Route

/-- A tool that a subject may call; the tool may be the wildcard. -/
abbrev Grant := Key

structure CatalogTool where
  name : String
  enabled : Bool
deriving DecidableEq, Repr

/-- The tools of services. -/
abbrev ServiceCatalog := SortedMap String (List CatalogTool)

/-- What is known about an instance. -/
structure InstanceRecord where
  protocol : Protocol
  parameters : Json

/-- What is known about instances, by their reference. -/
abbrev InstanceDirectory := SortedMap String InstanceRecord

/-- The tools of a service that are enabled. -/
def ServiceCatalog.enabledTools (c : ServiceCatalog) (service : String) : List String :=
  (((c.get? service).getD []).filter (·.enabled)).map (·.name)

/-- The parameters of a check's instance, if the instance is known and speaks the check's protocol.
-/
def InstanceDirectory.parameters? (d : InstanceDirectory) (b : Binding) : Option Json :=
  match d.get? b.instanceRef with
  | some r => if r.protocol = b.protocol then some r.parameters else none
  | none => none

/-- A check in a report. -/
structure RenderedCheck where
  applied : Applied
  parameters : Option Json

/-- The checks of one tool. -/
structure EffectiveAccess where
  key : Key
  checks : List RenderedCheck

namespace EffectiveAccess

def protocols (a : EffectiveAccess) : List Protocol := a.checks.map (·.applied.binding.protocol)

/-- Whether calls are subject to no check. -/
def isUnguarded (a : EffectiveAccess) : Bool := a.checks.isEmpty

end EffectiveAccess

/-- The tools that a grant stands for. -/
def Grant.tools (c : ServiceCatalog) (g : Grant) : List Key :=
  if g.isWildcard then (c.enabledTools g.service).map (⟨g.service, ·⟩) else [g]

/-- The tools that grants stand for, in order and each once. -/
def targets (grants : List Grant) (c : ServiceCatalog) : List Key :=
  (SortedMap.ofList ((grants.flatMap (Grant.tools c)).map fun k => (k, ()))).keys

/-- The checks of one tool with their parameters. -/
def Table.access (t : Table) (d : InstanceDirectory) (k : Key) : EffectiveAccess :=
  ⟨k, (t.applicable k.service k.tool).map fun a => ⟨a, d.parameters? a.binding⟩⟩

def report (grants : List Grant) (t : Table) (c : ServiceCatalog) (d : InstanceDirectory) :
    List EffectiveAccess :=
  (targets grants c).map (t.access d)

/-! ## Forms of a report -/

def RenderedCheck.toJson (c : RenderedCheck) : Json :=
  let b := c.applied.binding
  .object
    ([("protocol", .text b.protocol.name), ("instanceRef", .text b.instanceRef),
      ("endpointRef", .text b.endpointRef), ("source", .text (Word.name c.applied.source)),
      ("groupMode", .text c.applied.groupMode.name)] ++
      (match c.parameters with
        | some v => [("parameters", v)]
        | none => []))

def EffectiveAccess.toJson (a : EffectiveAccess) : Json :=
  .object [("service", .text a.key.service), ("tool", .text a.key.tool),
    ("checks", .array (a.checks.map RenderedCheck.toJson))]

/-! ## Reading snapshots -/

/-- Reads a tool of a service; it is enabled unless it says otherwise. -/
def CatalogTool.ofYaml : Yaml.Reader CatalogTool := fun n => do
  let fields ← Yaml.asRecord ["name", "enabled"] n
  let name ← Yaml.required fields "name" Yaml.asText
  let enabled ← Yaml.optional fields "enabled" true Yaml.asBool
  return ⟨name, enabled⟩

def ServiceCatalog.ofYaml : Yaml.Reader ServiceCatalog :=
  Yaml.asMap Yaml.asText (Yaml.asList CatalogTool.ofYaml)

/-- The depth to which parameters may hold collections: they stand inside two of them. -/
def InstanceRecord.maxDepth : Nat := Yaml.Node.maxDepth - 2

/-- Reads what is known about an instance; parameters that are not given are null. -/
def InstanceRecord.ofYaml : Yaml.Reader InstanceRecord := fun n => do
  let fields ← Yaml.asRecord ["protocol", "parameters"] n
  let protocol ← Yaml.required fields "protocol" Yaml.asWord
  let parameters ← Yaml.optional fields "parameters" .null (Yaml.asJson InstanceRecord.maxDepth)
  return ⟨protocol, parameters⟩

def InstanceDirectory.ofYaml : Yaml.Reader InstanceDirectory :=
  Yaml.asMap Yaml.asText InstanceRecord.ofYaml

def readSnapshot {α : Type} (f : Yaml.Reader α) (tree : Files.Tree) (path : String) :
    Except Error α :=
  match tree.read path with
  | .error e => .error (.io path e.message)
  | .ok s =>
    match Yaml.read f s with
    | .error e => .error (.transport (.at_ "load_snapshot" path e.message))
    | .ok a => .ok a

end ToolGate.Route
