import ToolGate.Route.Protocol

/-!
# Groups of checks

A group holds the checks of one key, at most one for each protocol, and the mode that combines them.
A group of one check has the mode `single`; when it grows it asks for all checks, until it is told
otherwise.

* `Group.WellFormed`: what holds of every group of a table;
* `Group.wellFormed_normalize`: bringing any stored group into this form.
-/

namespace ToolGate.Route

/-- One check: its protocol, the instance that keeps its state, and where it is asked. -/
structure Binding where
  protocol : Protocol
  instanceRef : String
  endpointRef : String
deriving DecidableEq, Repr

/-- Checks and the mode that combines them. -/
structure Group where
  mode : Mode
  bindings : List Binding
deriving DecidableEq, Repr

namespace Group

def single (b : Binding) : Group := ⟨.single, [b]⟩

def size (g : Group) : Nat := g.bindings.length

def isEmpty (g : Group) : Bool := g.bindings.isEmpty

/-- The check of a protocol. -/
def binding? (g : Group) (p : Protocol) : Option Binding := g.bindings.find? (·.protocol == p)

def binds (g : Group) (p : Protocol) : Bool := g.bindings.any (·.protocol == p)

/-- The protocols of the checks, in their order. -/
def protocols (g : Group) : List Protocol := g.bindings.map (·.protocol)

/-- The mode for a number of checks, if `m` is asked for: one check is `single`, and more of them
are asked for all when `m` is `single`. -/
def fitMode (m : Mode) (size : Nat) : Mode :=
  if size < 2 then .single else if m = .single then .all else m

/-- Adds a check at the end, unless one of its protocol is there. A group that is `single` and gets
more than one check asks for all of them. -/
def push (g : Group) (b : Binding) : Group :=
  if g.binds b.protocol then g
  else
    let bs := g.bindings ++ [b]
    ⟨if 2 ≤ bs.length ∧ g.mode = .single then .all else g.mode, bs⟩

/-- Takes the check of a protocol away. -/
def remove (g : Group) (p : Protocol) : Group :=
  let rest := g.bindings.eraseP (·.protocol == p)
  ⟨if rest.length < 2 then .single else g.mode, rest⟩

/-- The first check of each protocol, apart from those in `seen`. -/
def firstPerProtocol (seen : List Protocol) : List Binding → List Binding
  | [] => []
  | b :: bs =>
    if seen.contains b.protocol then firstPerProtocol seen bs
    else b :: firstPerProtocol (b.protocol :: seen) bs

/-- A stored group brought into the form of the groups of a table. -/
def normalize (g : Group) : Group :=
  let bs := firstPerProtocol [] g.bindings
  ⟨fitMode g.mode bs.length, bs⟩

/-- A group of a table: at least one check, one at most for each protocol, and the mode `single`
exactly for one check. -/
structure WellFormed (g : Group) : Prop where
  nonempty : g.bindings ≠ []
  nodup : g.protocols.Nodup
  single_iff : g.mode = .single ↔ g.bindings.length = 1

instance (g : Group) : Decidable g.WellFormed :=
  decidable_of_iff
    (g.bindings ≠ [] ∧ g.protocols.Nodup ∧ (g.mode = .single ↔ g.bindings.length = 1))
    ⟨fun h => ⟨h.1, h.2.1, h.2.2⟩, fun h => ⟨h.nonempty, h.nodup, h.single_iff⟩⟩

theorem fitMode_eq_single_iff {m : Mode} {n : Nat} : fitMode m n = .single ↔ n < 2 := by
  unfold fitMode
  split
  · simp_all
  · split <;> simp_all

theorem nodup_firstPerProtocol (seen : List Protocol) (bs : List Binding) :
    ((firstPerProtocol seen bs).map (·.protocol)).Nodup ∧
      ∀ b ∈ firstPerProtocol seen bs, b.protocol ∉ seen := by
  induction bs generalizing seen with
  | nil => simp [firstPerProtocol]
  | cons b bs ih =>
    unfold firstPerProtocol
    split
    · exact ih seen
    · rename_i hb
      have hb : b.protocol ∉ seen := by simpa using hb
      -- the check is kept, and its protocol counts as seen behind it
      obtain ⟨hn, hs⟩ := ih (b.protocol :: seen)
      refine ⟨?_, ?_⟩
      · simp only [List.map_cons, List.nodup_cons]
        refine ⟨?_, hn⟩
        intro hm
        obtain ⟨c, hc, he⟩ := List.mem_map.1 hm
        exact hs c hc (by simp [he])
      · intro c hc
        rcases List.mem_cons.1 hc with rfl | hc
        · exact hb
        · exact fun h => hs c hc (List.mem_cons_of_mem _ h)

/-- Every stored group with a check is brought into the form of the groups of a table. -/
theorem wellFormed_normalize {g : Group} (h : g.bindings ≠ []) : g.normalize.WellFormed := by
  have hne : firstPerProtocol [] g.bindings ≠ [] := by
    cases hg : g.bindings with
    | nil => exact absurd hg h
    | cons b bs => simp [firstPerProtocol]
  refine ⟨hne, (nodup_firstPerProtocol [] g.bindings).1, ?_⟩
  have hpos : 0 < (firstPerProtocol [] g.bindings).length := List.length_pos_iff.2 hne
  unfold normalize
  simp only [fitMode_eq_single_iff]
  omega

end Group

end ToolGate.Route
