import ToolGate.Command.Run
import ToolGate.Proofs.Policy.Release

/-!
# The command that publishes

The command compiles the document in a file and publishes what it is compiled to, in the store that
the settings name. This is an attempt with the text of the file, the catalog of the project, and
nothing found of profiles before. Whatever comes of the attempt, the command tells it in its own
words and leaves the files as the attempt leaves them.

* `run_compiled`: compiling the document;
* `run_publish_of_unread`, `run_publish`: publishing it.
-/

namespace ToolGate.Command

open Step

variable {p : Project} {document text : String}

/-! ## Steps -/

theorem run_print (line : String) (s : Scene) :
    (print line).run s = (.ok (), { s with output := s.output ++ line ++ "\n" }) := rfl

theorem run_note (line : String) (s : Scene) :
    (note line).run s = (.ok (), { s with notes := s.notes ++ line ++ "\n" }) := rfl

theorem run_look {ε α : Type} (wrap : ε → Error) (f : Files.Tree → Except ε α) (s : Scene) :
    (look wrap f).run s = ((f s.tree).mapError wrap, s) := by
  unfold look
  rw [run_bind_state, run_get_state]
  rcases hf : f s.tree with e | a <;> simp only [hf] <;> rfl

theorem run_edit {ε α : Type} (wrap : ε → Error) (f : Files.Tree → Except ε α × Files.Tree)
    (s : Scene) :
    (edit wrap f).run s = ((f s.tree).1.mapError wrap, { s with tree := (f s.tree).2 }) := by
  unfold edit
  rw [run_bind_state, run_get_state]
  rcases hf : f s.tree with ⟨e | a, t⟩ <;> simp only [hf] <;> rfl

/-- Findings as they are noted, each on a line of its own. -/
def findingNotes (findings : List Finding) : String :=
  String.join (findings.map fun f => findingLine f ++ "\n")

/-- Findings are noted one by one. -/
theorem run_note_findings (findings : List Finding) (s : Scene) :
    (findings.forM fun f => note (findingLine f)).run s =
      (.ok (), { s with notes := s.notes ++ findingNotes findings }) := by
  unfold findingNotes
  induction findings generalizing s with
  | nil =>
    rw [List.map_nil, String.join_nil, String.append_empty]
    rfl
  | cons f findings ih =>
    change (note (findingLine f) >>= fun _ => findings.forM fun f => note (findingLine f)).run s = _
    rw [run_bind_state, run_note]
    simp only [ih]
    rw [List.map_cons, String.join_cons]
    simp only [String.append_assoc]

/-! ## Compiling a document -/

/-- What compiling a document ends in for the command, and what it notes. -/
def compiledResult (path : String) (s : Scene) :
    Except Policy.Error Policy.Compiled → Except Error Policy.Compiled × Scene
  | .ok out => (.ok out, s)
  | .error (.invalid findings) =>
    (.error (.notCompiled path findings), { s with notes := s.notes ++ findingNotes findings })
  | .error e => (.error (.policy e), s)

/-- The document is compiled with a resolver that has found nothing so far. -/
theorem run_compiled (p : Project) (document : String) (s : Scene) :
    (compiled p document).run s = compiledResult (p.path document) s
      ((Policy.compileFile s.tree (p.catalog.lookup s.tree) (p.path document)).run .empty).1 := by
  unfold compiled
  simp only
  rw [run_bind_state, run_get_state]
  simp only
  rcases ((Policy.compileFile s.tree (p.catalog.lookup s.tree) (p.path document)).run .empty).1
    with e | out
  · cases e with
    | invalid findings =>
      simp only
      rw [run_bind_state, run_note_findings]
      rfl
    | _ => rfl
  · rfl

/-! ## Publishing a document -/

/-- A file that is not read as a text is told and nothing is changed. -/
theorem run_publish_of_unread {s : Scene} {e : Files.Fault}
    (h : s.tree.read (p.path document) = .error e) :
    (runPublish p document).run s = (.error (.policy (.io (p.path document) e)), s) := by
  unfold runPublish
  rw [run_bind_state, run_compiled, Policy.compileFile_of_unread h]
  rfl

def statsLines (s : Policy.Stats) : String :=
  toString s.annotations ++ " tool annotation(s), " ++ toString s.classifiers ++
    " classifier tool(s), " ++ toString s.rules ++ " policy rule(s)" ++ "\n" ++
    toString s.size ++ " bytes, sha256 " ++ s.digest ++ "\n"

theorem run_printStats (stats : Policy.Stats) (s : Scene) :
    (printStats stats).run s = (.ok (), { s with output := s.output ++ statsLines stats }) := by
  unfold printStats statsLines
  rw [run_bind_state, run_print]
  simp only
  rw [run_print]
  simp only [String.append_assoc]

/-- What publishing ends in for the command, with the files that are left. -/
def publishResult (path : String) (s : Scene) (result : Except Policy.Error Policy.Compiled)
    (t : Files.Tree) : Except Error Unit × Scene :=
  match compiledResult path { s with tree := t } result with
  | (.ok out, s) =>
    (.ok (), { s with output := s.output ++ statsLines out.stats ++ "Published.\n" })
  | (.error e, s) => (.error e, s)

/-- The command tells what an attempt with the text of the file comes to. -/
theorem run_publish {store : Policy.Store Files.Tree} {s : Scene}
    (hread : s.tree.read (p.path document) = .ok text) (hstore : p.policies = .ok store) :
    let a : Policy.Attempt := ⟨text, p.catalog.lookup s.tree, .empty⟩
    (runPublish p document).run s =
      publishResult (p.path document) s (a.publish store s.tree).1.1 (a.publish store s.tree).2 := by
  intro a
  unfold runPublish Policy.Attempt.publish
  rw [run_bind_state, run_compiled, Policy.compileFile_of_read hread]
  rcases (Policy.compileText a.lookup text).run a.resolver with ⟨e | out, r⟩
  · -- no store is looked for when nothing was compiled
    rcases e with _ | _ | findings | _ | _ <;> rfl
  · simp only [compiledResult]
    rw [run_bind_state, run_look, hstore]
    simp only [mapError_ok]
    rw [run_bind_state, run_edit]
    rcases hpublish : (Policy.publish store out).run s.tree with ⟨e | _, t⟩
    · rcases Policy.publish_eq_error hpublish with ⟨cause, rfl⟩
      rfl
    · simp only [mapError_ok]
      rw [run_bind_state, run_printStats]
      simp only
      rw [run_print]
      simp only [publishResult, compiledResult, String.append_assoc]
      rfl

end ToolGate.Command
