import ToolGate.Toml.Parser
import ToolGate.Vocabulary.Word

/-!
# Settings of a project

The settings say where a project keeps its catalog of profiles, its released policy and its routes.
Each one that is not given has a default below the project's `.tg` directory.
-/

namespace ToolGate

/-- What holds the released policy of a project. -/
inductive StoreKind where
  | file
  /-- A server. -/
  | http
deriving DecidableEq, Repr

instance : Word StoreKind where
  all := [.file, .http]
  name
    | .file => "file"
    | .http => "http"
  mem_all a := by cases a <;> decide
  name_injective a b := by cases a <;> cases b <;> decide

/-- Where the released policy of a project is kept. -/
structure StoreSettings where
  kind : StoreKind
  /-- The file of a store of kind `file`. -/
  path : String
  /-- The address of a store of kind `http`. -/
  url : Option String
  /-- The environment variable with the token for the server. -/
  tokenVariable : String
deriving DecidableEq, Repr

/-- Where the routes of a project are kept, and the snapshots that reports on them use. -/
structure RouteSettings where
  table : String
  instances : String
  services : String
deriving DecidableEq, Repr

structure Settings where
  /-- The directory of the catalog of profiles. -/
  catalog : String
  store : StoreSettings
  routes : RouteSettings
deriving DecidableEq, Repr

namespace Settings

/-- The settings of a project that gives none. -/
def initial : Settings where
  catalog := ".tg/profiles"
  store :=
    { kind := .file
      path := ".tg/policy.json"
      url := none
      tokenVariable := "TG_ADMIN_TOKEN" }
  routes :=
    { table := ".tg/routes.json"
      instances := ".tg/instances.yaml"
      services := ".tg/services.yaml" }

/-- Reads a word of a vocabulary, which may also be the only key of a table, with nothing behind it.
-/
def readWord {α : Type} [Word α] : Toml.Reader α
  | .text s | .table [(s, .table [])] | .table [(s, .array [])] =>
    match Word.ofName? s with
    | some a => .ok a
    | none => .error (.unknown s)
  | _ => .error (.expected "a word")

def readCatalog : Toml.Reader String := fun v => do
  Toml.optional (← Toml.asRecord ["dir"] v) "dir" initial.catalog Toml.asText

def readStore : Toml.Reader StoreSettings := fun v => do
  let fields ← Toml.asRecord ["kind", "path", "url", "token_env"] v
  let kind ← Toml.optional fields "kind" initial.store.kind readWord
  let path ← Toml.optional fields "path" initial.store.path Toml.asText
  let url ← Toml.optional fields "url" initial.store.url fun v => (Toml.asText v).map some
  let tokenVariable ← Toml.optional fields "token_env" initial.store.tokenVariable Toml.asText
  return { kind, path, url, tokenVariable }

def readRoutes : Toml.Reader RouteSettings := fun v => do
  let fields ← Toml.asRecord ["table", "instances", "services"] v
  let table ← Toml.optional fields "table" initial.routes.table Toml.asText
  let instances ← Toml.optional fields "instances" initial.routes.instances Toml.asText
  let services ← Toml.optional fields "services" initial.routes.services Toml.asText
  return { table, instances, services }

/-- Reads settings; keys that mean nothing are passed over. -/
def ofToml : Toml.Reader Settings := fun v => do
  let fields ← Toml.asTable v
  let catalog ← Toml.optional fields "catalog" initial.catalog readCatalog
  let store ← Toml.optional fields "policy_store" initial.store readStore
  let routes ← Toml.optional fields "routing" initial.routes readRoutes
  return { catalog, store, routes }

def parse (s : String) : Except Toml.Error Settings := Toml.parse s >>= ofToml

end Settings

end ToolGate
