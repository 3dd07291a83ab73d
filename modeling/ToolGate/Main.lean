import ToolGate.Command.Reach
import ToolGate.Command.Session

/-!
# The program

Brings the files that a call may reach into a tree, runs the session there and writes back what it
has changed.
-/

namespace ToolGate.Program

/-- What is printed when the words of a call make no sense. -/
def usage : String :=
  "usage: tg [--project-root DIR] [-v] " ++
  "policy (validate | compile | publish) DOCUMENT [-o FILE]\n" ++
  "       tg [--project-root DIR] [-v] policy (show | profiles)\n" ++
  "       tg [--project-root DIR] [-v] route (register | stack | ensure) SERVICE TOOL\n" ++
  "          --protocol PROTOCOL --instance REFERENCE --endpoint REFERENCE\n" ++
  "       tg [--project-root DIR] [-v] route unstack SERVICE TOOL --protocol PROTOCOL\n" ++
  "       tg [--project-root DIR] [-v] route mode SERVICE TOOL MODE\n" ++
  "       tg [--project-root DIR] [-v] route clear SERVICE TOOL\n" ++
  "       tg [--project-root DIR] [-v] route list [--service SERVICE]\n" ++
  "       tg [--project-root DIR] [-v] access --grant SERVICE/TOOL ... [--json]\n" ++
  "       tg --version\n"

def contentOf (bytes : ByteArray) : Files.Content :=
  match String.fromUTF8? bytes with
  | some s => .text s
  | none => .binary bytes.toList

def bytesOf : Files.Content → ByteArray
  | .text s => s.toUTF8
  | .binary bytes => ⟨bytes.toArray⟩

/-- Brings what stands at a place into a tree. -/
def bring (t : Files.Tree) (place : Files.Place) : IO Files.Tree := do
  let path := System.mkFilePath [Files.Path.ofSteps true place]
  if ← path.isDir then return t.put place .directory
  else if ← path.pathExists then
    return t.put place (.file (contentOf (← IO.FS.readBinFile path)))
  else return t

/-- Brings what stands along a way below a place into a tree. -/
def bringAlong (t : Files.Tree) (place : Files.Place) : List String → IO Files.Tree
  | [] => return t
  | ".." :: way => bringAlong t place.dropLast way
  | name :: way => do bringAlong (← bring t (place ++ [name])) (place ++ [name]) way

/-- Brings what a path leads along into a tree. -/
def bringPath (t : Files.Tree) (path : String) : IO Files.Tree :=
  bringAlong t (t.origin path) (Files.Path.steps path)

/-- Brings what a directory holds into a tree. -/
def bringInside (t : Files.Tree) (path : String) : IO Files.Tree := do
  match t.locate path with
  | .ok (.taken place .directory) =>
    let entries ← (System.mkFilePath [Files.Path.ofSteps true place]).readDir
    entries.foldlM (fun t entry => bring t (place ++ [entry.fileName])) t
  | _ => return t

/-- The files that a command in a project directory may reach. -/
def reached (root : String) (c : Command) (t : Files.Tree) : IO Files.Tree := do
  let t ← bringPath t root
  let root := Session.fullPath t root
  let t ← bringPath t (Files.Path.join root Project.settingsPath)
  match Project.load t root with
  | .error _ => return t
  | .ok p => bringInside (← (c.reach p).foldlM bringPath t) p.catalogPath

/-- Makes a file beside a path, under the first of some names that is not taken. -/
def makeBeside (path : String) : Nat → IO (String × IO.FS.Handle)
  | 0 => throw (IO.userError ("no name is left beside " ++ path))
  | left + 1 => do
    let staging := path ++ "." ++ toString left ++ ".tmp"
    try return (staging, ← IO.FS.Handle.mk staging .writeNew)
    catch
      | .alreadyExists .. => makeBeside path left
      | e => throw e

/-- Writes an entry that a session has changed. A file is finished beside its place and moved. -/
def writeEntry (place : Files.Place) : Files.Entry → IO Unit
  | .directory => IO.FS.createDirAll (Files.Path.ofSteps true place)
  | .file content => do
    let path := Files.Path.ofSteps true place
    let (staging, handle) ← makeBeside path 1000
    try
      handle.write (bytesOf content)
      handle.flush
      IO.FS.rename staging path
    catch e =>
      IO.FS.removeFile staging
      throw e

/-- Writes what a session has changed. -/
def writeBack (old new : Files.Tree) : IO Unit :=
  new.entries.entries.forM fun e => do
    if old.entry? e.1 ≠ some e.2 then writeEntry e.1 e.2

def call (i : Invocation) : IO UInt32 := do
  let current ← IO.FS.realPath "."
  let start := { Files.Tree.empty with current := Files.Path.steps current.toString }
  let tree ← match i with
    | .version => pure start
    | .run root c => do reached root c (← bringPath start current.toString)
  let session := Session.run tree i
  writeBack tree session.tree
  (← IO.getStdout).putStr session.output
  (← IO.getStderr).putStr session.notes
  return UInt32.ofNat session.status

end ToolGate.Program

/-- Runs the program with the words that it is called with. -/
def main (words : List String) : IO UInt32 := do
  match ToolGate.Invocation.ofWords? words with
  | some i => ToolGate.Program.call i
  | none =>
    (← IO.getStderr).putStr ToolGate.Program.usage
    return UInt32.ofNat ToolGate.Session.usageStatus
