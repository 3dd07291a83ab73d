import ToolGate.Files.Tree
import ToolGate.Policy.Store
import ToolGate.Profile.Catalog
import ToolGate.Project.Settings
import ToolGate.Route.Store

/-!
# Projects

A project is a directory with settings. The paths of the settings, and those that commands are
given, begin at that directory unless they begin at the top of all directories.
-/

namespace ToolGate

/-- A directory with the settings that count there. -/
structure Project where
  root : String
  settings : Settings
deriving DecidableEq, Repr

namespace Project

/-- Where the settings of a project are, below its directory. -/
def settingsPath : String := ".tg/config.toml"

/-- Why a project or its store cannot be used. -/
inductive Error where
  | unreadable (path : String) (cause : Files.Fault)
  | malformed (path : String) (cause : Toml.Error)
  /-- The released policy is on a server without an address. -/
  | noAddress
deriving DecidableEq, Repr

/-- The descriptions of an error and of its causes, from the outermost one inwards. -/
def Error.chain : Error → List String
  | .unreadable path cause => ["failed to read " ++ path, cause.message]
  | .malformed path cause => ["failed to parse " ++ path, cause.message]
  | .noAddress => ["policy_store.kind = \"http\" requires policy_store.url in " ++ settingsPath]

/-- The project in a directory. A directory without a file for its settings has the initial ones. -/
def load (t : Files.Tree) (root : String) : Except Error Project :=
  let path := Files.Path.join root settingsPath
  if t.holds path then
    match t.read path with
    | .error e => .error (.unreadable path e)
    | .ok s =>
      match Settings.parse s with
      | .error e => .error (.malformed path e)
      | .ok settings => .ok ⟨root, settings⟩
  else .ok ⟨root, .initial⟩

/-- The path that a path of the project stands for. -/
def path (p : Project) (given : String) : String := Files.Path.join p.root given

def catalogPath (p : Project) : String := p.path p.settings.catalog

def routesPath (p : Project) : String := p.path p.settings.routes.table

/-- The file of what is known about instances. -/
def instancesPath (p : Project) : String := p.path p.settings.routes.instances

/-- The file of the tools of services. -/
def servicesPath (p : Project) : String := p.path p.settings.routes.services

def policyPath (p : Project) : String := p.path p.settings.store.path

def catalog (p : Project) : Catalog := .directory p.catalogPath

def routes (p : Project) : Route.Store Files.Tree := .file p.routesPath

/-- The store of the released policy. No request leaves from here, so a server is never reached. -/
def policies (p : Project) : Except Error (Policy.Store Files.Tree) :=
  match p.settings.store.kind, p.settings.store.url with
  | .file, _ => .ok (.file p.policyPath)
  | .http, some _ => .ok (.unreachable Files.Tree)
  | .http, none => .error .noAddress

end Project

end ToolGate
