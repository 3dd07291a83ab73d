import ToolGate.Command.Basic
import ToolGate.Command.Error
import ToolGate.Json.Printer
import ToolGate.Policy.Compile

/-!
# Running commands

A command works on a tree of files and prints lines. What it has changed and printed before it fails
stays.
-/

namespace ToolGate.Command

/-- The files that a command works on and what it has printed. -/
structure Scene where
  tree : Files.Tree
  output : String
  /-- What has been printed beside the output. -/
  notes : String

abbrev Step (α : Type) := ExceptT Error (StateM Scene) α

namespace Step

def print (line : String) : Step Unit :=
  modify fun s => { s with output := s.output ++ line ++ "\n" }

/-- Prints a line beside the output. -/
def note (line : String) : Step Unit :=
  modify fun s => { s with notes := s.notes ++ line ++ "\n" }

/-- Looks at the files. -/
def look {ε α : Type} (wrap : ε → Error) (f : Files.Tree → Except ε α) : Step α := do
  match f (← get).tree with
  | .ok a => return a
  | .error e => throw (wrap e)

/-- Changes the files. -/
def edit {ε α : Type} (wrap : ε → Error) (f : Files.Tree → Except ε α × Files.Tree) : Step α := do
  let (result, tree) := f (← get).tree
  modify fun s => { s with tree }
  match result with
  | .ok a => return a
  | .error e => throw (wrap e)

end Step

open Step

/-- A text with blanks behind it that fill it up to a width. -/
def padded (width : Nat) (s : String) : String :=
  s ++ String.ofList (List.replicate (width - s.length) ' ')

/-! ## The policy -/

def findingLine (f : Finding) : String := "  " ++ f.line

/-- Tells the defects of a document. -/
def runValidate (p : Project) (document : String) : Step Unit := do
  let path := p.path document
  let draft ← look .policy fun t => Policy.readDraft t path
  let findings := draft.findings
  if findings.isEmpty then print (path ++ ": valid")
  else
    findings.forM fun f => print (findingLine f)
    throw (.defective path findings.length)

/-- Compiles a document; its defects are noted. -/
def compiled (p : Project) (document : String) : Step Policy.Compiled := do
  let path := p.path document
  let tree := (← get).tree
  match ((Policy.compileFile tree (p.catalog.lookup tree) path).run .empty).1 with
  | .ok out => return out
  | .error (.invalid findings) =>
    findings.forM fun f => note (findingLine f)
    throw (.notCompiled path findings)
  | .error e => throw (.policy e)

def printStats (s : Policy.Stats) : Step Unit := do
  print (toString s.annotations ++ " tool annotation(s), " ++ toString s.classifiers ++
    " classifier tool(s), " ++ toString s.rules ++ " policy rule(s)")
  print (toString s.size ++ " bytes, sha256 " ++ s.digest)

/-- Compiles a document, and prints the policy or writes it to a file. -/
def runCompile (p : Project) (document : String) (output : Option String) : Step Unit := do
  let out ← compiled p document
  match output with
  | none => print out.text
  | some path =>
    edit (.unwritable path) (Files.Tree.writeFile path out.text).run
    printStats out.stats
    print ("Wrote " ++ path)

/-- Compiles a document and releases the policy. -/
def runPublish (p : Project) (document : String) : Step Unit := do
  let out ← compiled p document
  let store ← look .project fun _ => p.policies
  edit .policy (Policy.publish store out).run
  printStats out.stats
  print "Published."

def runShow (p : Project) : Step Unit := do
  let store ← look .project fun _ => p.policies
  match ← look (fun e => .policy (.transport e)) store.get with
  | some policy => print policy.render
  | none => print "No policy has been published."

def runProfiles (p : Project) : Step Unit := do
  let services ← look (fun e => .policy (.transport e)) fun t => p.catalog.services t
  if services.isEmpty then print ("No profiles in " ++ p.catalogPath)
  else services.forM print

/-! ## The routes -/

/-- The protocol or the mode that a change is about. -/
def subject : Route.Change → String
  | .register _ b | .stack _ b | .ensure _ b => b.protocol.name
  | .unstack _ p => p.name
  | .setMode _ m => m.name
  | .clear _ => ""

/-- What is said of a change that was made, or need not be made. -/
def changeLine (c : Route.Change) (o : Route.Outcome) : String :=
  let key := c.key.text
  match o with
  | .registered => "Registered " ++ subject c ++ " on " ++ key
  | .stacked .added => "Stacked " ++ subject c ++ " on " ++ key
  | .stacked .alreadyBound => subject c ++ " already bound on " ++ key ++ "; unchanged"
  | .modeSet => key ++ " now combines with mode " ++ subject c
  | .unstacked (.remaining n) =>
    "Removed " ++ subject c ++ " from " ++ key ++ " (" ++ toString n ++ " check(s) remain)"
  | .unstacked .groupDeleted => "Removed " ++ subject c ++ " from " ++ key ++ "; group deleted"
  | .cleared true => "Cleared " ++ key
  | .cleared false => "No route group for " ++ key
  | .ensured .registered => subject c ++ " on " ++ key ++ ": registered"
  | .ensured .stacked => subject c ++ " on " ++ key ++ ": stacked"
  | .ensured .alreadyBound => subject c ++ " on " ++ key ++ ": already bound"

def runChange (p : Project) (c : Route.Change) : Step Unit := do
  let outcome ← edit .route (c.run p.routes).run
  print (changeLine c outcome)

def routeRow (route mode checks : String) : String :=
  padded 32 route ++ " " ++ padded 8 mode ++ " " ++ checks

def checkItem (b : Route.Binding) : String := b.protocol.name ++ "=" ++ b.instanceRef

/-- Prints the route groups, of one service if one is given. -/
def runRoutes (p : Project) (service : Option String) : Step Unit := do
  let groups ← look .route (p.routes.list service)
  if groups.isEmpty then print "No route groups."
  else
    print (routeRow "ROUTE" "MODE" "CHECKS")
    print (String.ofList (List.replicate 80 '-'))
    groups.forM fun g =>
      print (routeRow g.1.text g.2.mode.name
        (String.intercalate ", " (g.2.bindings.map checkItem)))

/-! ## Reports -/

/-- The value of a snapshot file, or what stands for one that is not there. -/
def snapshot {α : Type} (f : Yaml.Reader α) (missing : α) (path : String) : Step α := do
  if (← get).tree.holds path then look (.noSnapshot path) fun t => Route.readSnapshot f t path
  else return missing

/-- The lines on a check in a report. -/
def checkLines (c : Route.RenderedCheck) : List String :=
  let a := c.applied
  ("  " ++ padded 13 a.binding.protocol.name ++ " " ++ padded 24 a.binding.instanceRef ++ " " ++
      padded 9 (Word.name a.source) ++ " mode=" ++ a.groupMode.name) ::
    (c.parameters.map fun v => "  " ++ padded 13 "" ++ " " ++ v.compact).toList

/-- The lines on a tool in a report. -/
def accessLines (a : Route.EffectiveAccess) : List String :=
  a.key.text :: (if a.isUnguarded then ["  (no checks)"] else a.checks.flatMap checkLines)

/-- Reports what grants amount to. -/
def runAccess (p : Project) (grants : List Route.Grant) (json : Bool) : Step Unit := do
  let table ← look .route p.routes.load
  let catalog ← snapshot Route.ServiceCatalog.ofYaml ∅ p.servicesPath
  let directory ← snapshot Route.InstanceDirectory.ofYaml ∅ p.instancesPath
  let report := Route.report grants table catalog directory
  if json then print (Json.array (report.map Route.EffectiveAccess.toJson)).pretty
  else if report.isEmpty then print "No tools granted."
  else (report.flatMap accessLines).forM print

/-! ## All commands -/

def run (p : Project) : Command → Step Unit
  | .validate document => runValidate p document
  | .compile document output => runCompile p document output
  | .publish document => runPublish p document
  | .showPolicy => runShow p
  | .profiles => runProfiles p
  | .change c => runChange p c
  | .routes service => runRoutes p service
  | .access grants json => runAccess p grants json

end ToolGate.Command
