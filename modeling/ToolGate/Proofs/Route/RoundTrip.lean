import ToolGate.Proofs.Json.Record
import ToolGate.Proofs.Route.Invariant
import ToolGate.Route.Stored

/-!
# Stored tables read back

A row is read back as it was written, whatever its names and checks are, but the table of its rows
brings every group into form. So a table is read back from its text as soon as its groups are in
form, as those of all tables are that rows and changes lead to.

* `Binding.readsBack`, `Table.Row.readsBack`: the parts of a stored table;
* `Table.ofRows_rows`: the table of the rows of a table;
* `Table.parse_render`: the table of its stored text.
-/

namespace ToolGate.Route

open Json (ReadsBack)

/-- A word is read back from its name. -/
theorem readsBack_word {α : Type} [Word α] :
    ReadsBack (fun a : α => .text (Word.name a)) Json.asWordOfWhole :=
  ⟨Json.wordOfName_name, fun _ => trivial⟩

namespace Binding

def fields (b : Binding) : List (String × Json) :=
  [("protocol", .text (Word.name b.protocol)), ("instanceRef", .text b.instanceRef),
    ("endpointRef", .text b.endpointRef)]

/-- A check is read back field by field. -/
theorem ofJson_toJson (b : Binding) : ofJson b.toJson = .ok b := by
  have hnodup : (b.fields.map (·.1)).Nodup := by
    have hnames : b.fields.map (·.1) = ["protocol", "instanceRef", "endpointRef"] := rfl
    rw [hnames]
    decide
  have hmembers := Json.asRecord_of_nodup ["protocol", "instanceRef", "endpointRef"] hnodup
  have hprotocol : Json.required b.fields "protocol" Json.asWordOfWhole = .ok b.protocol :=
    readsBack_word.required (by simp [fields])
  have hinstance : Json.required b.fields "instanceRef" Json.asText = .ok b.instanceRef :=
    Json.readsBack_text.required (by simp [fields])
  have hendpoint : Json.required b.fields "endpointRef" Json.asText = .ok b.endpointRef :=
    Json.readsBack_text.required (by simp [fields])
  change ofJson (.object b.fields) = .ok b
  unfold ofJson
  simp only [bind, Except.bind, hmembers, hprotocol, hinstance, hendpoint, pure, Except.pure]

theorem readsBack : ReadsBack toJson ofJson where
  read_write := ofJson_toJson
  plain _ := ⟨trivial, trivial, trivial, trivial⟩

/-- The checks of a row hold no collections. -/
theorem areWhole_toJson (depth : Nat) (bs : List Binding) :
    Json.areWhole (depth + 1) (bs.map toJson) = true := by
  induction bs with
  | nil => rfl
  | cons b bs ih => exact ih

end Binding

namespace Table

namespace Row

def fields (r : Row) : List (String × Json) :=
  [("service", .text r.key.service), ("tool", .text r.key.tool),
    ("mode", .text (Word.name r.group.mode)),
    ("bindings", .array (r.group.bindings.map Binding.toJson))]

/-- A row holds collections in three layers: itself, its checks and each of them. -/
theorem checkWhole_fields (r : Row) : Json.checkWhole 1 (.object r.fields) = .ok () := by
  unfold Json.checkWhole fields
  rw [if_pos]
  simp [Json.isWhole, Json.membersAreWhole, Json.maxDepth, Binding.areWhole_toJson]

/-- A row is read back field by field, whatever stands in it. -/
theorem ofJson_toJson (r : Row) : ofJson r.toJson = .ok r := by
  have hnodup : (r.fields.map (·.1)).Nodup := by
    have hnames : r.fields.map (·.1) = ["service", "tool", "mode", "bindings"] := rfl
    rw [hnames]
    decide
  have hmembers := Json.asMembers_of_nodup ["service", "tool", "mode", "bindings"] hnodup
  have hservice : Json.required r.fields "service" Json.asText = .ok r.key.service :=
    Json.readsBack_text.required (by simp [fields])
  have htool : Json.required r.fields "tool" Json.asText = .ok r.key.tool :=
    Json.readsBack_text.required (by simp [fields])
  have hmode : Json.required r.fields "mode" Json.asWordOfWhole = .ok r.group.mode :=
    readsBack_word.required (by simp [fields])
  have hbindings : Json.required r.fields "bindings" (Json.asList Binding.ofJson) =
      .ok r.group.bindings :=
    Binding.readsBack.list.required (by simp [fields])
  change ofJson (.object r.fields) = .ok r
  unfold ofJson
  simp only [bind, Except.bind, r.checkWhole_fields, hmembers, hservice, htool, hmode, hbindings,
    pure, Except.pure]

theorem readsBack : ReadsBack toJson ofJson where
  read_write := ofJson_toJson
  plain r := ⟨trivial, trivial, trivial, Binding.readsBack.list.plain r.group.bindings, trivial⟩

end Row

variable {t : Table}

/-- Rows of groups in form are neither dropped nor changed. -/
theorem ofRows_rows (ht : t.WellFormed) : ofRows t.rows = t := by
  have hgroup : ∀ e ∈ t.entries, e.2.WellFormed := fun e he =>
    ht e.1 e.2 (SortedMap.mem_entries.1 he)
  -- no group is empty, and each is read as it is
  have hkept : t.rows.filter (!·.group.isEmpty) = t.rows := by
    refine List.filter_eq_self.2 fun r hr => ?_
    rcases List.mem_map.1 hr with ⟨e, he, rfl⟩
    simpa [Group.isEmpty] using (hgroup e he).nonempty
  have hsame : t.rows.map (fun r => (r.key, r.group.normalize)) = t.entries := by
    rw [rows, List.map_map]
    refine (List.map_congr_left fun e he => ?_).trans (List.map_id t.entries)
    change (e.1, e.2.normalize) = e
    rw [Group.normalize_eq_self (hgroup e he)]
  unfold ofRows
  rw [hkept, hsame]
  exact SortedMap.foldl_insert_entries t

/-- A table of groups in form is read back from its stored text. -/
theorem parse_render (ht : t.WellFormed) : parse t.render = .ok t := by
  have hplain : t.toJson.Plain := Row.readsBack.list.plain t.rows
  have hrows : Json.asList Row.ofJson t.toJson = .ok t.rows := Row.readsBack.list.read_write t.rows
  unfold parse render
  rw [Json.parse_pretty hplain]
  change (Json.asList Row.ofJson t.toJson).bind (fun rows => .ok (ofRows rows)) = .ok t
  rw [hrows]
  exact congrArg Except.ok (ofRows_rows ht)

/-- Whatever a table was read from, its groups are in form. -/
theorem wellFormed_of_parse {s : String} (h : parse s = .ok t) : t.WellFormed := by
  unfold parse at h
  rcases hjson : Json.parse s with e | v
  · rw [hjson] at h
    cases h
  rw [hjson] at h
  have hread : (Json.asList Row.ofJson v).bind (fun rows => .ok (ofRows rows)) = .ok t := h
  rcases hrows : Json.asList Row.ofJson v with e | rows
  · rw [hrows] at hread
    cases hread
  · -- the table is that of some rows, whatever these are
    rw [hrows] at hread
    have hof : ofRows rows = t := Except.ok.inj hread
    rw [← hof]
    exact wellFormed_ofRows rows

end Table

end ToolGate.Route
