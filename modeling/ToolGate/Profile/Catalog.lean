import ToolGate.Files.Glob
import ToolGate.Policy.Error
import ToolGate.Profile.Reader

/-!
# Catalogs of profiles

A catalog has profiles by service: in memory, or as the files `<service>.yaml` of a directory. A
file that is not there is no entry; one that cannot be read is a failure.
-/

namespace ToolGate

/-- Where profiles come from. -/
inductive Catalog where
  | memory (profiles : SortedMap String Profile)
  | directory (path : String)

namespace Catalog

/-- The catalog of given profiles; of two for one service the later counts. -/
def ofProfiles (ps : List Profile) : Catalog :=
  .memory (SortedMap.ofList (ps.map fun p => (p.service, p)))

def entryPath (directory service : String) : String :=
  Files.Path.join directory (service ++ ".yaml")

def readEntry (t : Files.Tree) (path : String) : Except TransportError Profile :=
  match t.read path with
  | .error e => .error (.at_ "load_profile" path e.message)
  | .ok s =>
    match Profile.parse s with
    | .error e => .error (.at_ "load_profile" path e.message)
    | .ok p => .ok p

/-- The profile of a service, if the catalog has an entry for it. -/
def lookup (t : Files.Tree) : Catalog → String → Except TransportError (Option Profile)
  | .memory profiles, service => .ok (profiles.get? service)
  | .directory path, service =>
    let file := entryPath path service
    if t.holds file then (readEntry t file).map some else .ok none

/-- The services that a catalog has entries for, in order. -/
def services (t : Files.Tree) : Catalog → Except TransportError (List String)
  | .memory profiles => .ok profiles.keys
  | .directory path =>
    match Files.Glob.places t (Files.Path.join path "*.yaml") with
    | .error e => .error ⟨"list_profiles", e.message⟩
    | .ok places =>
      .ok ((places.filterMap fun p => p.getLast?.map Files.Path.stem).mergeSort)

end Catalog

end ToolGate
