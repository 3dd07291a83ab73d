import ToolGate.Policy.Canonical
import ToolGate.Proofs.Json.RoundTrip
import ToolGate.Proofs.ToolMap

/-!
# Typed values read back

A typed value is written as a plain JSON value that its reader takes back. Lists, maps and values
per tool are so if their items are, and a record is so field by field: what a field holds is looked
up among the members, whatever stands around it.

* `ReadsBack`: a way to write typed values with its reader;
* `ReadsBack.list`, `ReadsBack.map`, `ReadsBack.toolMap`: lists, maps and values per tool;
* `asMembers_of_nodup`: a record without repeated names gives its members;
* `ReadsBack.required`, `ReadsBack.ifGiven`, `ReadsBack.unlessDefault`: the fields of a record.
-/

namespace ToolGate.Json

/-! ## Parts of plain values -/

theorem arePlain_iff (vs : List Json) : ArePlain vs ↔ ∀ v ∈ vs, v.Plain := by
  induction vs with
  | nil => simp [ArePlain]
  | cons v vs ih => simp [ArePlain, ih]

/-- Members are plain if their values are, one by one. -/
theorem membersArePlain_iff (ms : List (String × Json)) :
    MembersArePlain ms ↔ ∀ m ∈ ms, m.2.Plain := by
  induction ms with
  | nil => simp [MembersArePlain]
  | cons m ms ih =>
    rcases m with ⟨k, v⟩
    simp [MembersArePlain, ih]

theorem membersArePlain_append {ms ns : List (String × Json)} (hms : MembersArePlain ms)
    (hns : MembersArePlain ns) : MembersArePlain (ms ++ ns) := by
  rw [membersArePlain_iff] at hms hns ⊢
  intro m hm
  exact (List.mem_append.1 hm).elim (hms m) (hns m)

theorem membersArePlain_optionalField {α : Type} (k : String) {f : α → Json}
    (hf : ∀ a, (f a).Plain) (o : Option α) : MembersArePlain (optionalField k f o) := by
  cases o with
  | none => trivial
  | some a => exact ⟨hf a, trivial⟩

theorem membersArePlain_unless (p : Prop) [Decidable p] (k : String) {v : Json} (hv : v.Plain) :
    MembersArePlain (if p then [] else [(k, v)]) := by
  split
  · trivial
  · exact ⟨hv, trivial⟩

/-! ## Values -/

/-- A way to write typed values as plain ones that a reader takes back. -/
structure ReadsBack {α : Type} (write : α → Json) (read : Reader α) : Prop where
  read_write : ∀ a, read (write a) = .ok a
  plain : ∀ a, (write a).Plain

theorem readsBack_text : ReadsBack .text asText := ⟨fun _ => rfl, fun _ => trivial⟩

theorem readsBack_bool : ReadsBack .bool asBool := ⟨fun _ => rfl, fun _ => trivial⟩

theorem wordOfName_name {α : Type} [Word α] (a : α) : wordOfName (Word.name a) = .ok a := by
  unfold wordOfName
  rw [Word.ofName?_name]

theorem readsBack_word {α : Type} [Word α] :
    ReadsBack (fun a : α => .text (Word.name a)) asWord :=
  ⟨wordOfName_name, fun _ => trivial⟩

theorem readsBack_label : ReadsBack (fun l => .text l.text) Label.ofJson := by
  refine ⟨fun l => ?_, fun _ => trivial⟩
  unfold Label.ofJson
  simp only [Label.ofText?_text]

namespace ReadsBack

variable {α : Type} {write : α → Json} {read : Reader α}

/-- Lists, item by item. -/
theorem list (h : ReadsBack write read) :
    ReadsBack (fun l => .array (l.map write)) (asList read) where
  read_write l := by
    change (l.map write).mapM read = .ok l
    induction l with
    | nil => rfl
    | cons a l ih =>
      rw [List.map_cons, List.mapM_cons, h.read_write, ih]
      rfl
  plain l := by
    refine (arePlain_iff _).2 fun v hv => ?_
    rcases List.mem_map.1 hv with ⟨a, _, rfl⟩
    exact h.plain a

/-- The entries of a map are read one after another. -/
theorem readMembers {κ : Type} [Ord κ] [Std.TransOrd κ] (h : ReadsBack write read)
    {key : String → Except Error κ} {name : κ → String} (hkey : ∀ k, key (name k) = .ok k)
    (l : List (κ × α)) (m : SortedMap κ α) :
    Json.readMembers key read m (l.map fun e => (name e.1, write e.2)) =
      .ok (l.foldl (fun m e => m.insert e.1 e.2) m) := by
  induction l generalizing m with
  | nil => rfl
  | cons e l ih =>
    rw [List.map_cons, List.foldl_cons, ← ih]
    change (key (name e.1)).bind _ = _
    rw [hkey]
    change (read (write e.2)).bind _ = _
    rw [h.read_write]
    rfl

/-- An object with the entries of a map is read as the map. -/
theorem asMap {κ : Type} [Ord κ] [Std.TransOrd κ] [Std.LawfulEqOrd κ] [DecidableEq κ]
    (h : ReadsBack write read) {key : String → Except Error κ} (name : κ → String)
    (hkey : ∀ k, key (name k) = .ok k) (m : SortedMap κ α) :
    Json.asMap key read (.object (m.entries.map fun e => (name e.1, write e.2))) = .ok m := by
  unfold Json.asMap
  simp only
  rw [h.readMembers hkey, SortedMap.foldl_insert_entries]

/-- Maps with text keys. -/
theorem map (h : ReadsBack write read) : ReadsBack (ofMap write) (Json.asMap .ok read) where
  read_write m := h.asMap id (fun _ => rfl) m
  plain m := by
    refine (membersArePlain_iff _).2 fun e he => ?_
    rcases List.mem_map.1 he with ⟨a, _, rfl⟩
    exact h.plain a.2

/-- Values per tool. -/
theorem toolMap (h : ReadsBack write read) : ReadsBack (ofToolMap write) (asToolMap read) :=
  h.map.map

end ReadsBack

/-! ## Members of records -/

/-- No name that is known of is repeated. -/
theorem asMembers_of_count {known : List String} {ms : List (String × Json)}
    (h : ∀ k ∈ known, ms.countP (fun m => m.1 == k) ≤ 1) :
    asMembers known (.object ms) = .ok ms := by
  have hnone : known.find? (fun k => 1 < ms.countP (fun m => m.1 == k)) = none := by
    rw [List.find?_eq_none]
    intro k hk hmany
    have hcount := h k hk
    simp only [decide_eq_true_eq] at hmany
    omega
  unfold asMembers
  simp only [hnone]

/-- Where no name is repeated, the members are taken as they are. -/
theorem asMembers_of_nodup (known : List String) {ms : List (String × Json)}
    (h : (ms.map (·.1)).Nodup) : asMembers known (.object ms) = .ok ms := by
  refine asMembers_of_count fun k _ => ?_
  have hcount := List.nodup_iff_count.1 h k
  rwa [List.count, List.countP_map] at hcount

theorem asRecord_of_nodup (fields : List String) {ms : List (String × Json)}
    (h : (ms.map (·.1)).Nodup) : asRecord fields (.object ms) = .ok ms :=
  asMembers_of_nodup fields h

/-- The name of a field that may be left out. -/
theorem names_optionalField {α : Type} (k : String) (f : α → Json) (o : Option α) :
    List.Sublist ((optionalField k f o).map (·.1)) [k] := by
  cases o with
  | none => exact List.nil_sublist [k]
  | some a => exact List.Sublist.refl [k]

theorem names_unless (p : Prop) [Decidable p] (k : String) (v : Json) :
    List.Sublist ((if p then [] else [(k, v)]).map (·.1)) [k] := by
  split
  · exact List.nil_sublist [k]
  · exact List.Sublist.refl [k]

@[simp] theorem field?_nil (name : String) : field? [] name = none := rfl

/-- The first of some members, or one of the others. -/
@[simp] theorem field?_cons (k : String) (v : Json) (ms : List (String × Json)) (name : String) :
    field? ((k, v) :: ms) name = if k = name then some v else field? ms name := by
  unfold field?
  by_cases h : k = name
  · simp [h]
  · simp [List.find?_cons_of_neg, h]

@[simp] theorem field?_append (ms ns : List (String × Json)) (name : String) :
    field? (ms ++ ns) name = (field? ms name).or (field? ns name) := by
  unfold field?
  rw [List.find?_append]
  cases ms.find? (fun m => m.1 == name) <;> rfl

@[simp] theorem field?_optionalField {α : Type} (k : String) (f : α → Json) (o : Option α)
    (name : String) : field? (optionalField k f o) name = if k = name then o.map f else none := by
  cases o <;> simp [optionalField]

@[simp] theorem field?_unless (p : Prop) [Decidable p] (k : String) (v : Json) (name : String) :
    field? (if p then [] else [(k, v)]) name =
      if k = name then (if p then none else some v) else none := by
  by_cases hp : p <;> simp [hp]

namespace ReadsBack

variable {α : Type} {write : α → Json} {read : Reader α} {ms : List (String × Json)} {k : String}

theorem required (h : ReadsBack write read) {a : α} (hfield : field? ms k = some (write a)) :
    Json.required ms k read = .ok a := by
  unfold Json.required
  simp only [hfield, h.read_write]

/-- A field that is left out when there is no value; no value is written as null. -/
theorem ifGiven (h : ReadsBack write read) (hnull : ∀ a, write a ≠ .null) {o : Option α}
    (hfield : field? ms k = o.map write) : optional ms k none (asOption read) = .ok o := by
  unfold optional
  rw [hfield]
  cases o with
  | none => rfl
  | some a =>
    -- what is written is not null, so it is not taken for nothing
    have hread : asOption read (write a) = (read (write a)).map some := by
      unfold asOption
      split
      · rename_i hv
        exact absurd hv (hnull a)
      · rfl
    change asOption read (write a) = _
    rw [hread, h.read_write]
    rfl

/-- A field that is left out when it has its default value. -/
theorem unlessDefault (h : ReadsBack write read) {p : Prop} [Decidable p] {a default : α}
    (hdefault : p → a = default) (hfield : field? ms k = if p then none else some (write a)) :
    optional ms k default read = .ok a := by
  unfold optional
  rw [hfield]
  by_cases hp : p
  · rw [if_pos hp, hdefault hp]
  · rw [if_neg hp]
    exact h.read_write a

/-- A field that may be left out but is there. -/
theorem given (h : ReadsBack write read) {a default : α} (hfield : field? ms k = some (write a)) :
    optional ms k default read = .ok a := by
  unfold optional
  rw [hfield]
  exact h.read_write a

end ReadsBack

end ToolGate.Json
