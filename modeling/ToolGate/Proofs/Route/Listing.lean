import ToolGate.Proofs.Route.Access
import ToolGate.Proofs.Route.Invariant

/-!
# The order in which groups are listed

Groups are listed by service, and those of one service by the names of their tools. The group of all
tools has the star for a name and gets no other place than this name has. Most names come behind it.
The empty one comes before it, and so do all names that begin with a character below the star, such
as `!`, `#` or `$`.

* `Key.ComesBeforeWildcard`, `Key.lt_wildcard_iff`: the names before the star;
* `Table.Listing`, `Table.listing_list`: what is listed, and in which order;
* `Table.wildcardFirst_iff`: when the group of all tools is the first one of its service;
* `Table.lists_tool_before_wildcard`: that it is not so in every table.
-/

namespace ToolGate.Route

namespace Key

/-- The names of tools that come before the wildcard: those that begin with a character below the
star, and the one that begins with no character. -/
def ComesBeforeWildcard (tool : String) : Prop := ∀ c, tool.toList.head? = some c → c < '*'

/-- The name of all tools is a star, so its first character decides. -/
theorem lt_wildcard_iff {tool : String} : tool < wildcard ↔ ComesBeforeWildcard tool := by
  have hstar : wildcard.toList = ['*'] := by decide
  unfold ComesBeforeWildcard
  rw [String.lt_iff, hstar]
  cases tool.toList with
  | nil => simp
  | cons c cs =>
    -- nothing is below the end of the star's own name
    have hend : ¬cs < [] := List.not_lt_nil cs
    simp [List.cons_lt_cons_iff, hend]

/-- Of the keys of one service, the names decide which come before all tools. -/
theorem before_all_iff {k : Key} {service : String} (hk : k.service = service) :
    k.Before (all service) ↔ ComesBeforeWildcard k.tool := by
  have hservice : ¬k.service < service := by
    rw [hk]
    exact String.lt_irrefl service
  unfold Before all
  rw [← lt_wildcard_iff]
  constructor
  · rintro (hlt | ⟨_, hlt⟩)
    · exact absurd hlt hservice
    · exact hlt
  · intro hlt
    exact .inr ⟨hk, hlt⟩

end Key

namespace Table

variable {t : Table} {service : Option String}

/-- What is promised of the groups that are listed for a service, or for all of them if none is
given. -/
structure Listing (t : Table) (service : Option String) (rows : List (Key × Group)) : Prop where
  /-- Every group of the service is listed, and no other one. -/
  mem_iff : ∀ k g, (k, g) ∈ rows ↔ t.get? k = some g ∧ ∀ s, service = some s → k.service = s
  /-- None is listed twice. -/
  nodup : (rows.map Prod.fst).Nodup
  services : rows.Pairwise fun e e' => e.1.service ≤ e'.1.service
  tools : rows.Pairwise fun e e' => e.1.service = e'.1.service → e.1.tool < e'.1.tool
  /-- Of the groups of one service, those whose names are below the star come before the group of
  all tools, and all others behind it. -/
  wildcard : ∀ before s g behind, rows = before ++ (.all s, g) :: behind →
    ∀ e ∈ rows, e.1.service = s → (e ∈ before ↔ Key.ComesBeforeWildcard e.1.tool)

/-- Whether no group of a service is listed before the one of all its tools. -/
def WildcardFirst (rows : List (Key × Group)) : Prop :=
  ∀ before s g behind, rows = before ++ (.all s, g) :: behind → ∀ e ∈ before, e.1.service ≠ s

/-- The groups that are listed. -/
theorem mem_list_iff {k : Key} {g : Group} :
    (k, g) ∈ t.list service ↔ t.get? k = some g ∧ ∀ s, service = some s → k.service = s := by
  rw [← SortedMap.mem_entries]
  cases service with
  | none => simp [list]
  | some s => simp [list]

/-- Groups are listed in the order of their keys. -/
theorem pairwise_list (t : Table) (service : Option String) :
    (t.list service).Pairwise fun e e' => e.1.Before e'.1 := by
  have hentries : t.entries.Pairwise fun e e' => e.1.Before e'.1 :=
    t.increasing.imp Key.before_iff.2
  cases service with
  | none => exact hentries
  | some s => exact hentries.filter _

/-- In rows by key, a row of the service is before the one of all tools exactly if its name is. -/
theorem mem_before_wildcard_iff {rows before behind : List (Key × Group)} {s : String} {g : Group}
    (hordered : rows.Pairwise fun e e' => e.1.Before e'.1)
    (hrows : rows = before ++ (.all s, g) :: behind) {e : Key × Group} (he : e ∈ rows)
    (hservice : e.1.service = s) : e ∈ before ↔ Key.ComesBeforeWildcard e.1.tool := by
  subst hrows
  rw [List.pairwise_append, List.pairwise_cons] at hordered
  rcases hordered with ⟨_, ⟨hbehind, _⟩, hbefore⟩
  rw [← Key.before_all_iff hservice]
  constructor
  · intro hmem
    exact hbefore e hmem (.all s, g) List.mem_cons_self
  · intro hlt
    rcases List.mem_append.1 he with hmem | hmem
    · exact hmem
    · -- it is neither the group of all tools nor behind it
      rcases List.mem_cons.1 hmem with rfl | hmem
      · exact absurd hlt (irrefl _)
      · have hself := antisymm hlt (hbehind e hmem)
        exact absurd (hself ▸ hlt) (irrefl _)

/-- What is listed keeps the promises. -/
theorem listing_list (t : Table) (service : Option String) :
    Listing t service (t.list service) := by
  have hordered := pairwise_list t service
  refine ⟨fun k g => mem_list_iff, ?_, ?_, ?_, ?_⟩
  · rw [List.Nodup, List.pairwise_map]
    exact hordered.imp ne_of_irrefl
  · refine hordered.imp fun {e e'} hlt => ?_
    rcases hlt with hlt | ⟨heq, _⟩
    · exact String.not_lt.1 (String.lt_asymm hlt)
    · exact heq ▸ String.le_refl _
  · refine hordered.imp fun {e e'} hlt heq => ?_
    rcases hlt with hlt | ⟨_, hlt⟩
    · exact absurd hlt (heq ▸ String.lt_irrefl _)
    · exact hlt
  · intro before s g behind hrows e he hservice
    exact mem_before_wildcard_iff hordered hrows he hservice

/-- The group of all tools is the first one of its service everywhere in a list exactly if no group
that is listed with it has a name below the star. -/
theorem wildcardFirst_iff :
    WildcardFirst (t.list service) ↔
      ∀ k g, (k, g) ∈ t.list service → (∃ g', (.all k.service, g') ∈ t.list service) →
        ¬Key.ComesBeforeWildcard k.tool := by
  have hlisting := listing_list t service
  constructor
  · rintro hfirst k g hk ⟨g', hall⟩ hname
    rcases List.append_of_mem hall with ⟨before, behind, hrows⟩
    have hbefore := (hlisting.wildcard before _ g' behind hrows (k, g) hk rfl).2 hname
    exact hfirst before _ g' behind hrows (k, g) hbefore rfl
  · rintro hnames before s g behind hrows ⟨k, g'⟩ hbefore rfl
    have hk : (k, g') ∈ t.list service := by
      rw [hrows]
      exact List.mem_append_left _ hbefore
    have hall : (Key.all k.service, g) ∈ t.list service := by
      rw [hrows]
      exact List.mem_append_right _ List.mem_cons_self
    -- a name that stands before the star is one below it
    have hname := (hlisting.wildcard before _ g behind hrows (k, g') hk rfl).1 hbefore
    exact hnames k g' hk ⟨g, hall⟩ hname

/-- Whatever a table holds and whichever service is asked for: every group of the service is listed
once, services and the tools of each of them come in increasing order, and before the group of all
tools come those of its service whose names are below the star. It is the first one exactly where
there are none of them. -/
theorem list_in_order (t : Table) (service : Option String) :
    Listing t service (t.list service) ∧
      (WildcardFirst (t.list service) ↔
        ∀ k g, (k, g) ∈ t.list service → (∃ g', (.all k.service, g') ∈ t.list service) →
          ¬Key.ComesBeforeWildcard k.tool) :=
  ⟨listing_list t service, wildcardFirst_iff⟩

/-- A check for all tools of a service and one for a tool that begins with `!` are registered; the
latter is listed first. -/
theorem lists_tool_before_wildcard :
    ¬ ∀ t : Table, t.Reachable → ∀ service, WildcardFirst (t.list service) := by
  intro h
  let purge : Key := ⟨"docs", "!purge"⟩
  let approval : Binding := ⟨.approval, "a", "e"⟩
  let identity : Binding := ⟨.identity, "i", "e"⟩
  let t : Table := Change.next (Change.next ∅ (.register (.all "docs") approval))
    (.register purge identity)
  have hreachable : t.Reachable := .changed _ (.changed _ (.stored []))
  have hlist : t.list (some "docs") =
      [(purge, .single identity)] ++ (.all "docs", .single approval) :: [] := by
    decide +kernel
  exact h t hreachable (some "docs") _ _ _ _ hlist _ (List.mem_singleton_self _) rfl

end Table

end ToolGate.Route
