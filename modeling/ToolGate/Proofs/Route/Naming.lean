import ToolGate.Command.Reader
import ToolGate.Proofs.Route.Growth
import ToolGate.Proofs.Route.Listing
import ToolGate.Proofs.Text.Joined

/-!
# Names of routes and grants

A list shows a route by its written form, and a grant is read from such a text. A text ends the
service at its first slash, but neither services nor tools are kept from having slashes. So the
written forms of two routes are the same if a part of the service of the one, with the slash before
it, belongs to the tool of the other, and a text is read as the key with no slash in its service.

* `Key.Moved`, `Key.text_eq_text_iff`: the keys that one text is written for;
* `Key.ofText?_eq_some_iff`: the key that a text is read as;
* `Table.nodup_texts_iff`: when the texts of a list are distinct;
* `Command.GivesGrant`, `Invocation.ofWords?_access`: asking for the report on one grant;
* `ReportsGroup`, `reportsGroup_report`: what such a report has of the group of the granted key;
* `Table.texts_name_keys`: what the texts of a list are good for;
* `Table.one_text_for_two_keys`: what they are not.
-/

namespace ToolGate

namespace Route

/-! ## Keys and their texts -/

namespace Key

/-- Whether a part of the service of the one key, and the slash before it, belongs to the tool of
the other one. -/
def Moved (k k' : Key) : Prop := Text.Moved "/" k.service k.tool k'.service k'.tool

theorem slash_toList : ("/" : String).toList = ['/'] := by decide

theorem Moved.slash_mem {k k' : Key} (h : Moved k k') : '/' ∈ k.service.toList :=
  Text.Moved.mark_mem h slash_toList

theorem Moved.service_ne {k k' : Key} (h : Moved k k') : k.service ≠ k'.service :=
  Text.Moved.left_ne h slash_toList

/-- Keys have one text if they are the same or a part between two slashes is moved. -/
theorem text_eq_text_iff {k k' : Key} : k.text = k'.text ↔ k = k' ∨ Moved k k' ∨ Moved k' k := by
  obtain ⟨service, tool⟩ := k
  obtain ⟨service', tool'⟩ := k'
  rw [Key.mk.injEq]
  exact Text.join_eq_join_iff slash_toList

/-- A text is read as the one key that it is written for with no slash in its service, unless a part
of this key is empty. -/
theorem ofText?_eq_some_iff {s : String} {k : Key} :
    ofText? s = some k ↔
      k.text = s ∧ k.service ≠ "" ∧ k.tool ≠ "" ∧ '/' ∉ k.service.toList := by
  have hempty : ∀ s : String, s.toList.isEmpty = true ↔ s = "" := by simp
  constructor
  · intro h
    refine ⟨text_of_ofText? h, ?_⟩
    unfold ofText? at h
    split at h
    · rename_i service tool hcut
      have hslash := (Text.eq_append_of_cut? hcut).2
      split at h
      · contradiction
      · rename_i hparts
        cases h
        rw [Bool.or_eq_true, not_or, List.isEmpty_iff, List.isEmpty_iff] at hparts
        simpa using ⟨hparts.1, hparts.2, hslash⟩
    · contradiction
  · rintro ⟨rfl, hservice, htool, hslash⟩
    -- the slash between the parts is the first one, since the service has none
    have hcut : Text.cut? '/' k.text.toList = some (k.service.toList, k.tool.toList) := by
      have hlist : k.text.toList = k.service.toList ++ '/' :: k.tool.toList := by simp [text]
      rw [hlist]
      exact Text.cut?_append hslash _
    have hparts : ¬(k.service.toList.isEmpty || k.tool.toList.isEmpty) = true := by
      rw [Bool.or_eq_true, hempty, hempty]
      tauto
    unfold ofText?
    rw [hcut]
    simp only [if_neg hparts, String.ofList_toList]

end Key

/-! ## Texts of a list -/

namespace Table

variable {t : Table} {service : Option String}

/-- The texts of a list are distinct if no part of a service in it belongs to a tool elsewhere. -/
theorem nodup_texts_iff :
    ((t.list service).map (·.1.text)).Nodup ↔
      ∀ e ∈ t.list service, ∀ e' ∈ t.list service, ¬Key.Moved e.1 e'.1 := by
  have hkeys := (listing_list t service).nodup
  have htexts : (t.list service).map (·.1.text) =
      ((t.list service).map Prod.fst).map Key.text := by
    rw [List.map_map]
    rfl
  rw [htexts, List.nodup_map_iff_inj_on hkeys]
  simp only [List.forall_mem_map]
  constructor
  · intro hinjective e he e' he' hmoved
    -- two keys with one text would be one, but their services are different
    have heq := hinjective e he e' he' (Key.text_eq_text_iff.2 (.inr (.inl hmoved)))
    exact hmoved.service_ne (congrArg Key.service heq)
  · intro hnone e he e' he' htext
    rcases Key.text_eq_text_iff.1 htext with heq | hmoved | hmoved
    · exact heq
    · exact absurd hmoved (hnone e he e' he')
    · exact absurd hmoved (hnone e' he' e he)

/-- They are distinct if no service has a slash. -/
theorem nodup_texts_of_no_slash (h : ∀ e ∈ t.list service, '/' ∉ e.1.service.toList) :
    ((t.list service).map (·.1.text)).Nodup :=
  nodup_texts_iff.2 fun e he _ _ hmoved => h e he hmoved.slash_mem

/-- The texts of one service are distinct, whatever its name. -/
theorem nodup_texts_of_service (t : Table) (s : String) :
    ((t.list (some s)).map (·.1.text)).Nodup := by
  have hservice : ∀ e ∈ t.list (some s), e.1.service = s := by
    intro e he
    exact (mem_list_iff.1 he).2 s rfl
  refine nodup_texts_iff.2 fun e he e' he' hmoved => hmoved.service_ne ?_
  rw [hservice e he, hservice e' he']

end Table

/-! ## The report on one key -/

/-- What a report on a grant of a key has of the group of this key: there is a row for the key, or
for every tool that it stands for, and each row has all checks of the group. -/
structure ReportsGroup (t : Table) (c : ServiceCatalog) (d : InstanceDirectory) (k : Key)
    (rows : List EffectiveAccess) : Prop where
  row_iff : ∀ j, (∃ row ∈ rows, row.key = j) ↔ Grant.Covers c k j
  checks : ∀ row ∈ rows,
    ChecksOf t d k.source k (row.checks.filter (·.applied.source = k.source))

/-- The checks of a group come from the source that they are taken for. -/
theorem source_of_mem_appliedOf {source : Source} {g : Option Group} {a : Applied}
    (h : a ∈ Table.appliedOf source g) : a.source = source := by
  cases g with
  | none => simp [Table.appliedOf] at h
  | some g =>
    rcases List.mem_map.1 h with ⟨b, -, rfl⟩
    rfl

/-- Those from another source are none of them. -/
theorem filter_appliedOf (source source' : Source) (g : Option Group) :
    (Table.appliedOf source g).filter (·.source = source') =
      if source = source' then Table.appliedOf source g else [] := by
  split
  · rename_i heq
    refine List.filter_eq_self.2 fun a ha => ?_
    simpa [source_of_mem_appliedOf ha] using heq
  · rename_i hne
    refine List.filter_eq_nil_iff.2 fun a ha => ?_
    simpa [source_of_mem_appliedOf ha] using hne

/-- Of the checks on a call that a key stands for, those of the key's source are those of its group.
-/
theorem filter_applicable {t : Table} {c : ServiceCatalog} {k j : Key} (h : Grant.Covers c k j) :
    (t.applicable j.service j.tool).filter (·.source = k.source) =
      Table.appliedOf k.source (t.get? k) := by
  rw [Table.applicable_eq, List.filter_append, filter_appliedOf]
  rcases h with ⟨htool, rfl⟩ | ⟨rfl, -⟩
  · -- the checks of one tool's own group come behind those of all tools
    have hsource : k.source = .tool := if_neg htool
    rw [if_neg htool, filter_appliedOf, hsource, if_pos rfl, if_neg Source.noConfusion]
    rfl
  · have hsource : Key.source ⟨j.service, "*"⟩ = .wildcard := rfl
    rw [hsource, if_pos rfl]
    split
    · simp
    · rw [filter_appliedOf, if_neg Source.noConfusion, List.append_nil]

/-- The report on one key has the group of this key. -/
theorem reportsGroup_report (t : Table) (c : ServiceCatalog) (d : InstanceDirectory) (k : Key) :
    ReportsGroup t c d k (report [k] t c d) := by
  have hexact := exact_report [k] t c d
  have hrows : ∀ j, (∃ row ∈ report [k] t c d, row.key = j) ↔ Grant.Covers c k j := by
    intro j
    rw [hexact.row_iff]
    simp
  refine ⟨hrows, fun row hrow => ?_⟩
  have hcovers : Grant.Covers c k row.key := (hrows row.key).1 ⟨row, hrow, rfl⟩
  have hrow : row = t.access d row.key := rowChecks_iff.1 (hexact.checks row hrow)
  rw [checksOf_iff, ← filter_applicable hcovers, hrow]
  exact List.filter_map

end Route

/-! ## Asking for the report on one grant -/

namespace Command

/-- The option and its value in one word. -/
theorem Shape.ofWord_grant (s : String) :
    Shape.ofWord ("--grant=" ++ s) = .long "grant" (some s) := by
  let name : List Char := ['g', 'r', 'a', 'n', 't']
  have hword : ("--grant=" ++ s).toList = '-' :: '-' :: (name ++ '=' :: s.toList) := by
    simp [name]
  have hcut : Text.cut? '=' (name ++ '=' :: s.toList) = some (name, s.toList) :=
    Text.cut?_append (by decide) s.toList
  unfold ofWord
  rw [hword]
  -- the word is longer than the two dashes that would end the options
  simp only [name, List.cons_append, List.nil_append] at hcut ⊢
  simp only [hcut, String.ofList_toList]

/-- A word that does not begin with a dash is no option. -/
theorem Shape.ofWord_of_no_dash {s : String} (h : s.toList.head? ≠ some '-') :
    Shape.ofWord s = .operand := by
  unfold ofWord
  cases hs : s.toList with
  | nil => rfl
  | cons c cs =>
    have hc : c ≠ '-' := by simpa [hs] using h
    simp [hc]

/-- Words that give a grant: one word, or the option and the grant behind it, which may then not
look like an option itself. -/
def GivesGrant (words : List String) (s : String) : Prop :=
  words = ["--grant=" ++ s] ∨ words = ["--grant", s] ∧ s.toList.head? ≠ some '-'

/-- Either way the arguments have the one value of the option. -/
theorem GivesGrant.inner {words : List String} {s : String} (h : GivesGrant words s) :
    inner (Invocation.shared ++ [⟨"grant", none, .texts⟩, ⟨"json", none, .switch⟩]) 0 words =
      some ⟨[("grant", s)], [], none, false, false⟩ := by
  unfold Command.inner Level.read
  rcases h with rfl | ⟨rfl, hdash⟩
  · simp only [Arguments.read, Shape.ofWord_grant]
    rfl
  · have hoption : Shape.ofWord "--grant" = .long "grant" none := by decide
    have hs : Shape.ofWord s = .operand := Shape.ofWord_of_no_dash hdash
    simp only [Arguments.read, hoption, hs, Option.bind_eq_bind]
    rfl

/-- The value is read as a key, or the arguments are refused. -/
theorem GivesGrant.readAccess {words : List String} {s : String} (h : GivesGrant words s) :
    readAccess Invocation.shared words =
      (Route.Key.ofText? s).map fun k => .access [k] false := by
  have hvalues : Arguments.values ⟨[("grant", s)], [], none, false, false⟩ "grant" = [s] := rfl
  unfold Command.readAccess
  rw [h.inner]
  simp only [Option.bind_eq_bind, Option.bind_some, hvalues, List.mapM_cons, List.mapM_nil]
  cases Route.Key.ofText? s with
  | none => rfl
  | some k => rfl

end Command

/-- The command that is read, in the directory it is given in. -/
theorem Invocation.ofWords?_access {words : List String} {s : String}
    (h : Command.GivesGrant words s) :
    Invocation.ofWords? ("access" :: words) =
      (Route.Key.ofText? s).map fun k => .run "." (.access [k] false) := by
  have hlevel : Command.Level.read ⟨shared ++ leading, true⟩ ("access" :: words) =
      some (.empty, "access" :: words) := rfl
  have hnamed : Command.readNamed shared "access" words =
      (Route.Key.ofText? s).map fun k => .access [k] false := h.readAccess
  unfold ofWords?
  simp only [hlevel, Option.bind_eq_bind, Option.bind_some, hnamed]
  cases Route.Key.ofText? s with
  | none => rfl
  | some k => rfl

namespace Route

/-! ## What texts name -/

/-- Two keys have one text exactly if a part between two slashes belongs to the service of the one
and to the tool of the other, so the texts of a list are distinct unless there are two such keys in
it; there are none among the keys of one service, and none if no service has a slash. A text is read
as the key that it is written for with no slash in the service. For a route with such a key, the
text in the list can be given as a grant, and the report has all checks of this very route. -/
theorem Table.texts_name_keys (t : Table) (service : Option String) :
    (∀ k k' : Key, k.text = k'.text ↔ k = k' ∨ k.Moved k' ∨ k'.Moved k) ∧
      (((t.list service).map (·.1.text)).Nodup ↔
        ∀ e ∈ t.list service, ∀ e' ∈ t.list service, ¬Key.Moved e.1 e'.1) ∧
      ((∀ e ∈ t.list service, '/' ∉ e.1.service.toList) → ((t.list service).map (·.1.text)).Nodup) ∧
      (∀ s, ((t.list (some s)).map (·.1.text)).Nodup) ∧
      (∀ s k, Key.ofText? s = some k ↔
        k.text = s ∧ k.service ≠ "" ∧ k.tool ≠ "" ∧ '/' ∉ k.service.toList) ∧
      ∀ k g, (k, g) ∈ t.list service → k.service ≠ "" → k.tool ≠ "" → '/' ∉ k.service.toList →
        (∀ words, Command.GivesGrant words k.text →
          Invocation.ofWords? ("access" :: words) = some (.run "." (.access [k] false))) ∧
        ∀ c d, ReportsGroup t c d k (report [k] t c d) := by
  refine ⟨fun k k' => Key.text_eq_text_iff, nodup_texts_iff, nodup_texts_of_no_slash,
    nodup_texts_of_service t, fun s k => Key.ofText?_eq_some_iff, ?_⟩
  intro k g _ hservice htool hslash
  refine ⟨fun words hwords => ?_, fun c d => reportsGroup_report t c d k⟩
  have hread : Key.ofText? k.text = some k :=
    Key.ofText?_eq_some_iff.2 ⟨rfl, hservice, htool, hslash⟩
  rw [Invocation.ofWords?_access hwords, hread]
  rfl

/-- A table with a slash in the name of a tool. The text of its route is given as a grant. -/
theorem Table.texts_name_keys_of_slash_in_tool :
    let k : Key := ⟨"docs", "v2/search"⟩
    let t := Table.ofRows [⟨⟨"docs", "*"⟩, ⟨.single, [⟨.approval, "a", "e"⟩]⟩⟩,
      ⟨k, ⟨.any, [⟨.flow, "f", "e"⟩, ⟨.identity, "i", "e"⟩]⟩⟩]
    ((t.list none).map (·.1.text)).Nodup ∧
      Invocation.ofWords? ["access", "--grant", "docs/v2/search"] =
        some (.run "." (.access [k] false)) ∧
      ReportsGroup t ∅ ∅ k (report [k] t ∅ ∅) ∧
      (report [k] t ∅ ∅).map (fun row => (row.key, row.protocols)) =
        [(k, [.approval, .flow, .identity])] := by
  intro k t
  have hslash : ∀ e ∈ t.list none, '/' ∉ e.1.service.toList := by decide +kernel
  have hlisted : (k, ⟨.any, [⟨.flow, "f", "e"⟩, ⟨.identity, "i", "e"⟩]⟩) ∈ t.list none := by
    decide +kernel
  have hwords : Command.GivesGrant ["--grant", "docs/v2/search"] k.text :=
    .inr ⟨rfl, by decide⟩
  rcases texts_name_keys t none with ⟨-, -, hnodup, -, -, hgrant⟩
  rcases hgrant k _ hlisted (by decide) (by decide) (by decide) with ⟨hcommand, hreport⟩
  exact ⟨hnodup hslash, hcommand _ hwords, hreport ∅ ∅, by decide +kernel⟩

/-- A check for the tool `c` of the service `a/b` and one for the tool `b/c` of the service `a` are
registered. The list shows one text for both. It is read as the latter key only, so while only the
former route is there, it is reported to be subject to no check. -/
theorem Table.one_text_for_two_keys :
    (¬ ∀ t : Table, t.Reachable → ((t.list none).map (·.1.text)).Nodup) ∧
      (¬ ∀ k : Key, k.service ≠ "" → k.tool ≠ "" → Key.ofText? k.text = some k) ∧
      ∃ t : Table, t.Reachable ∧ ∃ k g, (k, g) ∈ t.list none ∧ k.service ≠ "" ∧ k.tool ≠ "" ∧
        ∃ k', Key.ofText? k.text = some k' ∧
          (report [k'] t ∅ ∅).map (fun row => (row.key, row.protocols)) = [(k', [])] := by
  let inner : Key := ⟨"a/b", "c"⟩
  let outer : Key := ⟨"a", "b/c"⟩
  let approval : Binding := ⟨.approval, "a", "e"⟩
  let identity : Binding := ⟨.identity, "i", "e"⟩
  let one : Table := Change.next ∅ (.register inner approval)
  let both : Table := Change.next one (.register outer identity)
  have hone : one.Reachable := .changed _ (.stored [])
  have hboth : both.Reachable := .changed _ hone
  have hread : Key.ofText? inner.text = some outer := by decide
  refine ⟨fun h => ?_, fun h => ?_, one, hone, inner, .single approval, by decide +kernel,
    by decide, by decide, outer, hread, by decide +kernel⟩
  · exact absurd (h both hboth) (by decide +kernel)
  · have hself := h inner (by decide) (by decide)
    rw [hread] at hself
    exact absurd hself (by decide)

end Route

end ToolGate
