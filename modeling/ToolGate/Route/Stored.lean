import ToolGate.Json.Parser
import ToolGate.Json.Printer
import ToolGate.Json.Record
import ToolGate.Route.Table

/-!
# Stored routing tables

A table is stored as indented JSON: a list of rows in key order, each with its service, tool, mode
and bindings. Reading takes any layout and brings the rows into form. A row is read as a whole, with
its unknown fields.
-/

namespace ToolGate.Route

def Binding.toJson (b : Binding) : Json :=
  .object [("protocol", .text b.protocol.name), ("instanceRef", .text b.instanceRef),
    ("endpointRef", .text b.endpointRef)]

def Table.Row.toJson (r : Table.Row) : Json :=
  .object [("service", .text r.key.service), ("tool", .text r.key.tool),
    ("mode", .text r.group.mode.name), ("bindings", .array (r.group.bindings.map Binding.toJson))]

def Table.toJson (t : Table) : Json := .array (t.rows.map Table.Row.toJson)

def Table.render (t : Table) : String := t.toJson.pretty

def Binding.ofJson : Json.Reader Binding := fun v => do
  let members ← Json.asRecord ["protocol", "instanceRef", "endpointRef"] v
  let protocol ← Json.required members "protocol" Json.asWordOfWhole
  let instanceRef ← Json.required members "instanceRef" Json.asText
  let endpointRef ← Json.required members "endpointRef" Json.asText
  return ⟨protocol, instanceRef, endpointRef⟩

/-- Reads a row, which stands inside one collection. -/
def Table.Row.ofJson : Json.Reader Table.Row := fun v => do
  Json.checkWhole 1 v
  let members ← Json.asMembers ["service", "tool", "mode", "bindings"] v
  let service ← Json.required members "service" Json.asText
  let tool ← Json.required members "tool" Json.asText
  let mode ← Json.required members "mode" Json.asWordOfWhole
  let bindings ← Json.required members "bindings" (Json.asList Binding.ofJson)
  return ⟨⟨service, tool⟩, ⟨mode, bindings⟩⟩

def Table.ofJson : Json.Reader Table := fun v => do
  return Table.ofRows (← Json.asList Table.Row.ofJson v)

def Table.parse (s : String) : Except Json.Error Table := do
  Table.ofJson (← Json.parse s)

end ToolGate.Route
