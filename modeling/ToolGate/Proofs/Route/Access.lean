import Mathlib.Data.List.Sort
import ToolGate.Proofs.ToolMap
import ToolGate.Route.Access

/-!
# What a report of effective access says

A report has a row for every tool that some grant stands for and for no other one, in order and each
once. The row lists the checks of the service's group of all tools and then those of the tool's own
group. Nothing is left open by that, so a report depends on which grants there are and not on how
they are listed, and further grants only add rows.

* `Grant.Covers`, `mem_targets_iff`: the tools that grants stand for;
* `ChecksOf`, `checksOf_iff`: the checks of one group;
* `Exact`, `exact_report`: what a report says;
* `Exact.unique`: that it says all there is to say;
* `report_exact`: reports, for whatever grants, routes, services and instances.
-/

namespace ToolGate.Route

/-! ## The order of rows -/

/-- Keys in the order of a report: by service, and by tool within one service. -/
def Key.Before (a b : Key) : Prop :=
  a.service < b.service ∨ a.service = b.service ∧ a.tool < b.tool

/-- This is the order in which maps have keys. -/
theorem Key.before_iff {a b : Key} : a.Before b ↔ compare a b = .lt := by
  have hlt : ∀ s s' : String, compare s s' = .lt ↔ s < s' := fun _ _ => compareOfLessAndEq_eq_lt
  rw [Key.compare_eq_lt_iff, hlt, hlt]
  rfl

instance : Std.Irrefl Key.Before where
  irrefl k h := by
    rw [Key.before_iff, Std.compare_self] at h
    contradiction

instance : Std.Antisymm Key.Before where
  antisymm a b hab hba := by
    rw [Key.before_iff] at hab hba
    have hself : compare a a = .lt := Std.TransCmp.lt_trans hab hba
    rw [Std.compare_self] at hself
    contradiction

/-- Of keys in order, those that are among others in order are a part of them. -/
theorem sublist_of_before {ks ks' : List Key} (hks : ks.Pairwise Key.Before)
    (hks' : ks'.Pairwise Key.Before) (hsub : ks ⊆ ks') : ks.Sublist ks' :=
  List.sublist_of_subperm_of_pairwise (List.subperm_of_subset hks.nodup hsub) hks hks'

/-! ## What grants stand for -/

/-- A grant of a tool stands for this tool, and a grant of all tools for those that the catalog says
are enabled. -/
def Grant.Covers (c : ServiceCatalog) (g : Grant) (k : Key) : Prop :=
  k.tool ≠ "*" ∧ g = k ∨
    g = ⟨k.service, "*"⟩ ∧ ∃ tools, c.get? k.service = some tools ∧ ⟨k.tool, true⟩ ∈ tools

/-- A tool is enabled if some entry of its service says so, whatever the other entries say. -/
theorem ServiceCatalog.mem_enabledTools_iff {c : ServiceCatalog} {service tool : String} :
    tool ∈ c.enabledTools service ↔
      ∃ tools, c.get? service = some tools ∧ ⟨tool, true⟩ ∈ tools := by
  unfold enabledTools
  rw [List.mem_map]
  simp only [List.mem_filter]
  constructor
  · rintro ⟨⟨name, enabled⟩, ⟨hmem, henabled⟩, rfl⟩
    cases hc : c.get? service with
    | none =>
      rw [hc] at hmem
      contradiction
    | some tools =>
      rw [hc] at hmem
      have htrue : enabled = true := henabled
      exact ⟨tools, rfl, htrue ▸ hmem⟩
  · rintro ⟨tools, hc, hmem⟩
    refine ⟨⟨tool, true⟩, ⟨?_, rfl⟩, rfl⟩
    rw [hc]
    exact hmem

/-- The tools of a grant are those that it stands for. -/
theorem Grant.mem_tools_iff {c : ServiceCatalog} {g : Grant} {k : Key} :
    k ∈ Grant.tools c g ↔ g.Covers c k := by
  have hwild : g.isWildcard = true ↔ g.tool = "*" := beq_iff_eq
  unfold Grant.tools Grant.Covers
  -- a grant of all tools and one of a single tool never stand for a key in the same way
  by_cases hg : g.tool = "*"
  · rw [if_pos (hwild.2 hg), List.mem_map]
    simp only [ServiceCatalog.mem_enabledTools_iff]
    constructor
    · rintro ⟨tool, henabled, rfl⟩
      refine .inr ⟨?_, henabled⟩
      rw [← hg]
    · rintro (⟨hk, rfl⟩ | ⟨rfl, henabled⟩)
      · exact absurd hg hk
      · exact ⟨k.tool, henabled, rfl⟩
  · have hnot : ¬g.isWildcard = true := fun h => hg (hwild.1 h)
    rw [if_neg hnot, List.mem_singleton]
    constructor
    · rintro rfl
      exact .inl ⟨hg, rfl⟩
    · rintro (⟨_, rfl⟩ | ⟨rfl, _⟩)
      · rfl
      · exact absurd rfl hg

/-- The keys of the rows are those that some grant stands for. -/
theorem mem_targets_iff {grants : List Grant} {c : ServiceCatalog} {k : Key} :
    k ∈ targets grants c ↔ ∃ g ∈ grants, Grant.Covers c g k := by
  unfold targets SortedMap.ofList
  rw [SortedMap.mem_keys_iff, holds_foldl_iff (fun m : SortedMap Key Unit => (m.get? k).isSome)
    (fun e => e.1 = k)]
  · -- the walk begins with no key, so the keys at its end are the ones put in
    have hempty : ¬((∅ : SortedMap Key Unit).get? k).isSome = true := by simp
    rw [or_iff_left hempty]
    simp only [List.mem_map, List.mem_flatMap, Grant.mem_tools_iff]
    constructor
    · rintro ⟨_, ⟨j, ⟨g, hg, hcovers⟩, rfl⟩, rfl⟩
      exact ⟨g, hg, hcovers⟩
    · rintro ⟨g, hg, hcovers⟩
      exact ⟨(k, ()), ⟨k, ⟨g, hg, hcovers⟩, rfl⟩, rfl⟩
  · intro m e
    rw [SortedMap.get?_insert]
    by_cases he : e.1 = k <;> simp [he]

/-- They come in order and each once. -/
theorem pairwise_targets (grants : List Grant) (c : ServiceCatalog) :
    (targets grants c).Pairwise Key.Before := by
  unfold targets SortedMap.keys
  rw [List.pairwise_map]
  refine (SortedMap.increasing _).imp ?_
  intro a b hab
  exact Key.before_iff.2 hab

/-! ## The checks of a row -/

/-- The checks that a row has of one group: one for each of the group's bindings, in their order,
with where it comes from, the group's mode, and the parameters of the instance, if the directory has
a record of it for the protocol. -/
structure ChecksOf (t : Table) (d : InstanceDirectory) (source : Source) (k : Key)
    (checks : List RenderedCheck) : Prop where
  bindings : checks.map (·.applied.binding) = (t.get? k).elim [] (·.bindings)
  source : ∀ check ∈ checks, check.applied.source = source
  groupMode : ∀ check ∈ checks, ∀ g, t.get? k = some g → check.applied.groupMode = g.mode
  parameters : ∀ check ∈ checks, ∀ v, check.parameters = some v ↔
    ∃ r, d.get? check.applied.binding.instanceRef = some r ∧
      r.protocol = check.applied.binding.protocol ∧ r.parameters = v

/-- A check has the parameters of its instance only if the instance speaks the protocol of the
check. -/
theorem InstanceDirectory.parameters?_eq_some_iff {d : InstanceDirectory} {b : Binding} {v : Json} :
    d.parameters? b = some v ↔
      ∃ r, d.get? b.instanceRef = some r ∧ r.protocol = b.protocol ∧ r.parameters = v := by
  unfold parameters?
  cases d.get? b.instanceRef with
  | none => simp
  | some r => by_cases hr : r.protocol = b.protocol <;> simp [hr]

/-- There is one list of checks that a row can have of a group. -/
theorem checksOf_iff {t : Table} {d : InstanceDirectory} {source : Source} {k : Key}
    {checks : List RenderedCheck} :
    ChecksOf t d source k checks ↔
      checks = (Table.appliedOf source (t.get? k)).map fun a => ⟨a, d.parameters? a.binding⟩ := by
  cases hg : t.get? k with
  | none =>
    constructor
    · intro h
      have hnone := h.bindings
      rw [hg] at hnone
      exact List.map_eq_nil_iff.1 hnone
    · rintro rfl
      exact ⟨by rw [hg]; rfl, by simp [Table.appliedOf], by simp [Table.appliedOf],
        by simp [Table.appliedOf]⟩
  | some g =>
    have happlied : (Table.appliedOf source (some g)).map
        (fun a => (⟨a, d.parameters? a.binding⟩ : RenderedCheck)) =
        g.bindings.map fun b => ⟨⟨source, g.mode, b⟩, d.parameters? b⟩ := by
      simp [Table.appliedOf, Function.comp_def]
    rw [happlied]
    constructor
    · intro h
      -- everything about a check is laid down once its binding is
      have hcheck : ∀ check ∈ checks,
          (⟨⟨source, g.mode, check.applied.binding⟩, d.parameters? check.applied.binding⟩ :
            RenderedCheck) = check := by
        intro check hmem
        -- field by field: the source, the mode and the parameters follow from the binding
        obtain ⟨⟨source', mode, b⟩, parameters⟩ := check
        have hsource : source' = source := h.source _ hmem
        have hmode : mode = g.mode := h.groupMode _ hmem g hg
        have hparameters : parameters = d.parameters? b := by
          ext v
          rw [InstanceDirectory.parameters?_eq_some_iff]
          exact h.parameters _ hmem v
        rw [hsource, hmode, hparameters]
      have hbindings := h.bindings
      rw [hg] at hbindings
      change checks.map (·.applied.binding) = g.bindings at hbindings
      rw [← hbindings, List.map_map]
      exact ((List.map_congr_left hcheck).trans (List.map_id checks)).symm
    · rintro rfl
      refine ⟨?_, ?_, ?_, ?_⟩
      · rw [hg]
        simp [Function.comp_def]
      · simp
      · intro check hmem g' hg'
        rcases List.mem_map.1 hmem with ⟨b, _, rfl⟩
        rw [hg] at hg'
        cases hg'
        rfl
      · intro check hmem v
        rcases List.mem_map.1 hmem with ⟨b, _, rfl⟩
        exact InstanceDirectory.parameters?_eq_some_iff

/-- The checks of a row: those of all tools of the service and then those of the tool itself, unless
the row is about all tools anyway. -/
def RowChecks (t : Table) (d : InstanceDirectory) (row : EffectiveAccess) : Prop :=
  ∃ ofAll own, row.checks = ofAll ++ own ∧
    ChecksOf t d .wildcard ⟨row.key.service, "*"⟩ ofAll ∧
    (row.key.tool = "*" → own = []) ∧ (row.key.tool ≠ "*" → ChecksOf t d .tool row.key own)

/-- The checks of all tools come first, and a call of all tools has no others. -/
theorem Table.applicable_eq (t : Table) (service tool : String) :
    t.applicable service tool = appliedOf .wildcard (t.get? ⟨service, "*"⟩) ++
      if tool = "*" then [] else appliedOf .tool (t.get? ⟨service, tool⟩) := rfl

/-- Only the groups of all tools of its service and of its own tool matter to a call. -/
theorem Table.applicable_congr {t t' : Table} {service tool : String}
    (h : ∀ k : Key, service = k.service → k.tool = "*" ∨ k.tool = tool → t'.get? k = t.get? k) :
    t'.applicable service tool = t.applicable service tool := by
  rw [applicable_eq, applicable_eq, h ⟨service, "*"⟩ rfl (.inl rfl),
    h ⟨service, tool⟩ rfl (.inr rfl)]

/-- A row has the checks of its key exactly if it is the row that a report makes of the key. -/
theorem rowChecks_iff {t : Table} {d : InstanceDirectory} {row : EffectiveAccess} :
    RowChecks t d row ↔ row = t.access d row.key := by
  obtain ⟨⟨service, tool⟩, checks⟩ := row
  have haccess : (⟨⟨service, tool⟩, checks⟩ : EffectiveAccess) = t.access d ⟨service, tool⟩ ↔
      checks = (t.applicable service tool).map fun a => ⟨a, d.parameters? a.binding⟩ := by
    simp [Table.access]
  rw [haccess, Table.applicable_eq, List.map_append]
  unfold RowChecks
  simp only [checksOf_iff]
  constructor
  · rintro ⟨ofAll, own, rfl, rfl, hall, hown⟩
    -- a row about all tools has no checks of its own
    by_cases htool : tool = "*"
    · rw [hall htool, if_pos htool]
      rfl
    · rw [hown htool, if_neg htool]
  · intro hchecks
    refine ⟨_, _, hchecks, rfl, fun htool => ?_, fun htool => ?_⟩
    · rw [if_pos htool]
      rfl
    · rw [if_neg htool]

/-! ## Reports -/

/-- What the rows of a report say. -/
structure Exact (grants : List Grant) (t : Table) (c : ServiceCatalog) (d : InstanceDirectory)
    (rows : List EffectiveAccess) : Prop where
  /-- The rows strictly increase, so none comes twice. -/
  increasing : rows.Pairwise fun a b => a.key.Before b.key
  /-- There is a row for what some grant stands for, and no other row. -/
  row_iff : ∀ k, (∃ row ∈ rows, row.key = k) ↔ ∃ g ∈ grants, Grant.Covers c g k
  checks : ∀ row ∈ rows, RowChecks t d row

/-- A report has a row for each of the keys, in their order. -/
theorem keys_report (grants : List Grant) (t : Table) (c : ServiceCatalog) (d : InstanceDirectory) :
    (report grants t c d).map (·.key) = targets grants c := by
  unfold report
  rw [List.map_map]
  exact List.map_id _

/-- What a report says of grants is what they stand for. -/
theorem exact_report (grants : List Grant) (t : Table) (c : ServiceCatalog)
    (d : InstanceDirectory) : Exact grants t c d (report grants t c d) where
  increasing := by
    have hkeys := pairwise_targets grants c
    rw [← keys_report grants t c d, List.pairwise_map] at hkeys
    exact hkeys
  row_iff k := by
    rw [← mem_targets_iff, ← keys_report grants t c d, List.mem_map]
  checks row hrow := by
    rcases List.mem_map.1 hrow with ⟨k, _, rfl⟩
    exact rowChecks_iff.2 rfl

section Exact

variable {grants grants' : List Grant} {t : Table} {c : ServiceCatalog} {d : InstanceDirectory}
  {rows rows' : List EffectiveAccess}

/-- Rows are made of their keys. -/
theorem Exact.rows_eq (h : Exact grants t c d rows) :
    rows = (rows.map (·.key)).map (t.access d) := by
  have hrow : ∀ row ∈ rows, t.access d row.key = row := by
    intro row hmem
    exact (rowChecks_iff.1 (h.checks row hmem)).symm
  rw [List.map_map]
  exact ((List.map_congr_left hrow).trans (List.map_id rows)).symm

/-- Further grants add rows and change none. -/
theorem Exact.sublist (h : Exact grants t c d rows) (h' : Exact grants' t c d rows')
    (hsub : grants ⊆ grants') : rows.Sublist rows' := by
  have hkeys : (rows.map (·.key)).Sublist (rows'.map (·.key)) := by
    -- keys in order that are among others in order are a part of them, so it is enough to look at
    -- which keys there are
    apply sublist_of_before (List.pairwise_map.2 h.increasing) (List.pairwise_map.2 h'.increasing)
    intro k hk
    rw [List.mem_map, h.row_iff] at hk
    rcases hk with ⟨g, hg, hcovers⟩
    rw [List.mem_map, h'.row_iff]
    exact ⟨g, hsub hg, hcovers⟩
  rw [h.rows_eq, h'.rows_eq]
  exact hkeys.map _

/-- Nothing else can be said about the same grants. -/
theorem Exact.unique (h : Exact grants t c d rows) (h' : Exact grants t c d rows') :
    rows = rows' :=
  (h.sublist h' (List.Subset.refl _)).antisymm (h'.sublist h (List.Subset.refl _))

end Exact

/-- A report is exact, and no other list of rows is. It depends only on which grants there are, not
on their order or on how often they are given, and further grants only add rows. -/
theorem report_exact (grants : List Grant) (t : Table) (c : ServiceCatalog)
    (d : InstanceDirectory) :
    (∀ rows, Exact grants t c d rows ↔ rows = report grants t c d) ∧
      (∀ grants', (∀ g, g ∈ grants' ↔ g ∈ grants) → report grants' t c d = report grants t c d) ∧
      ∀ grants', grants ⊆ grants' → (report grants t c d).Sublist (report grants' t c d) := by
  have hexact := fun grants => exact_report grants t c d
  refine ⟨fun rows => ⟨fun h => h.unique (hexact grants), fun h => h ▸ hexact grants⟩, ?_, ?_⟩
  · intro grants' hsame
    apply List.Sublist.antisymm
    · exact (hexact grants').sublist (hexact grants) fun g hg => (hsame g).1 hg
    · exact (hexact grants).sublist (hexact grants') fun g hg => (hsame g).2 hg
  · intro grants' hsub
    exact (hexact grants).sublist (hexact grants') hsub

/-- Two lists of the same grants, one of them with a repeated one, for a service of which two tools
are enabled. -/
theorem report_exact_of_search_and_index :
    let grants : List Grant := [⟨"docs", "search"⟩, ⟨"docs", "*"⟩]
    let grants' : List Grant := [⟨"docs", "*"⟩, ⟨"docs", "search"⟩, ⟨"docs", "*"⟩]
    let t := Table.ofRows [⟨⟨"docs", "*"⟩, ⟨.single, [⟨.approval, "a", "e"⟩]⟩⟩,
      ⟨⟨"docs", "search"⟩, ⟨.any, [⟨.flow, "f", "e"⟩, ⟨.identity, "i", "e"⟩]⟩⟩]
    let c := (∅ : ServiceCatalog).insert "docs"
      [⟨"search", true⟩, ⟨"purge", false⟩, ⟨"index", true⟩, ⟨"search", false⟩]
    let d : InstanceDirectory := ∅
    (∀ g, g ∈ grants' ↔ g ∈ grants) ∧ report grants' t c d = report grants t c d ∧
      [⟨"docs", "search"⟩] ⊆ grants ∧
      (report [⟨"docs", "search"⟩] t c d).Sublist (report grants t c d) ∧
      (report grants t c d).map (fun row => (row.key.tool, row.protocols)) =
        [("index", [.approval]), ("search", [.approval, .flow, .identity])] := by
  intro grants grants' t c d
  have hsame : ∀ g, g ∈ grants' ↔ g ∈ grants := by
    intro g
    simp only [grants, grants', List.mem_cons, List.not_mem_nil, or_false]
    tauto
  have hsub : [⟨"docs", "search"⟩] ⊆ grants := by simp [grants]
  have hreport := report_exact grants t c d
  have hone := report_exact [⟨"docs", "search"⟩] t c d
  exact ⟨hsame, hreport.2.1 grants' hsame, hsub, hone.2.2 grants hsub, by decide +kernel⟩

end ToolGate.Route
