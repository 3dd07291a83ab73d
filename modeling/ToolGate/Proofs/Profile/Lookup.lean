import Mathlib.Computability.Language
import ToolGate.Proofs.Profile.History
import ToolGate.Proofs.Profile.Listing

/-!
# From the text of an id to a file

The ids of profiles form a language: the name of an organisation, `/security-` and the name of a
service. No name of an organisation has a slash, so a text is such an id in one way only. What a
resolver looks up for a text or a document are services of ids, and the name of a service with the
ending of its file is one proper name. So a directory is asked for nothing but files right in it,
and for the same file only if the service is the same.

* `ProfileId.orgNames`, `ProfileId.serviceNames`: the names as languages;
* `ProfileId.Splits`, `ProfileId.parse?_eq_some_iff`: the parts of an id and the reading of it;
* `Resolver.Call.run_congr`: the lookups that a call depends on;
* `Catalog.ChildFile`, `Catalog.childFile_entryPath`: where the file of a service is;
* `Catalog.ids_lead_to_children`: all of it together.
-/

namespace ToolGate

/-! ## Written ids -/

namespace ProfileId

open scoped Computability

/-- The texts of one character of a class. -/
def oneOf (s : Set Char) : Language Char := {w | ∃ c ∈ s, w = [c]}

/-- The characters from one to another one. -/
def range (first last : Char) : Set Char := {c | first ≤ c ∧ c ≤ last}

def lowerOrDigit : Set Char := range 'a' 'z' ∪ range '0' '9'

def letterOrDigit : Set Char := range 'A' 'Z' ∪ lowerOrDigit

def orgNames : Language Char := oneOf letterOrDigit * (oneOf (letterOrDigit ∪ {'_', '.', '-'}))∗

def serviceNames : Language Char := oneOf lowerOrDigit * (oneOf (lowerOrDigit ∪ {'_', '-'}))∗

section Languages

variable {s s' : Set Char} {cs : List Char}

/-- The words over a class of characters. -/
theorem mem_kstar_oneOf_iff : cs ∈ (oneOf s)∗ ↔ ∀ c ∈ cs, c ∈ s := by
  rw [Language.mem_kstar]
  constructor
  · rintro ⟨words, rfl, hwords⟩ c hc
    rcases List.mem_flatten.1 hc with ⟨word, hword, hc⟩
    rcases hwords word hword with ⟨d, hd, rfl⟩
    rw [List.mem_singleton.1 hc]
    exact hd
  · intro h
    -- every character is a word
    refine ⟨cs.map fun c => [c], (List.flatMap_singleton' cs).symm, fun word hword => ?_⟩
    rcases List.mem_map.1 hword with ⟨c, hc, rfl⟩
    exact ⟨c, h c hc, rfl⟩

theorem nil_notMem : [] ∉ oneOf s * (oneOf s')∗ := by
  rw [Language.mem_mul]
  rintro ⟨_, ⟨c, -, rfl⟩, ds, -, hnil⟩
  cases hnil

/-- Its first character is one of a class, and all others are of another one. -/
theorem cons_mem_iff {c : Char} :
    c :: cs ∈ oneOf s * (oneOf s')∗ ↔ c ∈ s ∧ ∀ d ∈ cs, d ∈ s' := by
  rw [Language.mem_mul]
  constructor
  · rintro ⟨_, ⟨d, hd, rfl⟩, ds, hds, heq⟩
    cases heq
    exact ⟨hd, mem_kstar_oneOf_iff.1 hds⟩
  · rintro ⟨hc, hcs⟩
    exact ⟨[c], ⟨c, hc, rfl⟩, cs, mem_kstar_oneOf_iff.2 hcs, rfl⟩

end Languages

theorem isLowerOrDigit_iff {c : Char} : isLowerOrDigit c = true ↔ c ∈ lowerOrDigit := by
  simp [isLowerOrDigit, lowerOrDigit, range]

theorem isLetterOrDigit_iff {c : Char} : isLetterOrDigit c = true ↔ c ∈ letterOrDigit := by
  rw [isLetterOrDigit, Bool.or_eq_true, isLowerOrDigit_iff, or_comm]
  simp [letterOrDigit, range]

/-- The check for organisations is the language of their names. -/
theorem isOrg_iff {cs : List Char} : isOrg cs = true ↔ cs ∈ orgNames := by
  have hnext : ∀ c, (isLetterOrDigit c || c == '_' || c == '.' || c == '-') = true ↔
      c ∈ letterOrDigit ∪ {'_', '.', '-'} := by
    intro c
    simp only [Bool.or_eq_true, isLetterOrDigit_iff, beq_iff_eq, or_assoc, Set.mem_union,
      Set.mem_insert_iff, Set.mem_singleton_iff]
  unfold orgNames
  cases cs with
  | nil => simp only [isOrg, nil_notMem, Bool.false_eq_true]
  | cons c cs =>
    simp only [isOrg, cons_mem_iff, Bool.and_eq_true, List.all_eq_true, isLetterOrDigit_iff, hnext]

/-- The check for services is the language of theirs. -/
theorem isService_iff {cs : List Char} : isService cs = true ↔ cs ∈ serviceNames := by
  have hnext : ∀ c, (isLowerOrDigit c || c == '_' || c == '-') = true ↔
      c ∈ lowerOrDigit ∪ {'_', '-'} := by
    intro c
    simp only [Bool.or_eq_true, isLowerOrDigit_iff, beq_iff_eq, or_assoc, Set.mem_union,
      Set.mem_insert_iff, Set.mem_singleton_iff]
  unfold serviceNames
  cases cs with
  | nil => simp only [isService, nil_notMem, Bool.false_eq_true]
  | cons c cs =>
    simp only [isService, cons_mem_iff, Bool.and_eq_true, List.all_eq_true, isLowerOrDigit_iff,
      hnext]

/-- Whether a text is the name of an organisation and that of a service with `/security-` between
them. -/
structure Splits (raw org service : String) : Prop where
  text : raw = org ++ "/security-" ++ service
  org : org.toList ∈ orgNames
  service : service.toList ∈ serviceNames

/-- A text is read as the id that it splits into. -/
theorem parse?_eq_some_iff {raw : String} {id : ProfileId} :
    parse? raw = some id ↔ Splits raw id.org id.service := by
  constructor
  · intro h
    exact ⟨(parse?_eq_some h).symm, isOrg_iff.1 id.org_ok, isService_iff.1 id.service_ok⟩
  · intro h
    have htext : raw = id.text := h.text
    rw [htext]
    exact parse?_text id

/-- What a text splits into is what it is read as. -/
theorem Splits.exists_parse? {raw org service : String} (h : Splits raw org service) :
    ∃ id, parse? raw = some id ∧ id.org = org ∧ id.service = service :=
  ⟨⟨org, service, isOrg_iff.2 h.org, isService_iff.2 h.service⟩, parse?_eq_some_iff.2 h, rfl, rfl⟩

/-- A text splits in one way at most. -/
theorem Splits.unique {raw org service org' service' : String} (h : Splits raw org service)
    (h' : Splits raw org' service') : org = org' ∧ service = service' := by
  rcases h.exists_parse? with ⟨id, hid, rfl, rfl⟩
  rcases h'.exists_parse? with ⟨id', hid', rfl, rfl⟩
  -- both ways of splitting are how the text is read, and it is read in one way
  rw [hid] at hid'
  cases hid'
  exact ⟨rfl, rfl⟩

/-- A text is read as an id if it splits at all. -/
theorem isSome_parse?_iff_splits {raw : String} :
    (parse? raw).isSome ↔ ∃ org service, Splits raw org service := by
  rw [Option.isSome_iff_exists]
  constructor
  · rintro ⟨id, hid⟩
    exact ⟨id.org, id.service, parse?_eq_some_iff.1 hid⟩
  · rintro ⟨org, service, h⟩
    rcases h.exists_parse? with ⟨id, hid, -, -⟩
    exact ⟨id, hid⟩

end ProfileId

/-! ## Lookups -/

namespace Resolver

variable {lookup lookup' : Lookup} {id : ProfileId} {ids : List ProfileId}

theorem resolveId_congr (h : lookup id.service = lookup' id.service) :
    resolveId lookup id = resolveId lookup' id := by
  unfold resolveId
  rw [h]

/-- Ids depend on the lookups of theirs. -/
theorem resolveAll_congr (h : ∀ id ∈ ids, lookup id.service = lookup' id.service) :
    resolveAll lookup ids = resolveAll lookup' ids := by
  induction ids with
  | nil => rfl
  | cons id ids ih =>
    rw [List.forall_mem_cons] at h
    unfold resolveAll
    rw [resolveId_congr h.1, ih h.2]

namespace Call

/-- A call depends on what is looked up for the services of its ids, and on no other lookup. -/
theorem run_congr {c : Call} (h : ∀ id ∈ c.profileIds, lookup id.service = lookup' id.service)
    (r : Resolver) : c.run lookup r = c.run lookup' r := by
  cases c with
  | resolve raw =>
    have hsame : Resolver.resolve lookup raw = Resolver.resolve lookup' raw := by
      cases hraw : ProfileId.parse? raw with
      | none =>
        unfold Resolver.resolve readId
        rw [hraw]
      | some id =>
        rw [run_resolve_of_parse hraw, run_resolve_of_parse hraw]
        exact resolveId_congr (h id (by simp [profileIds, hraw]))
    simp only [run, hsame]
  | resolveAll ids =>
    have hsame : Resolver.resolveAll lookup ids = Resolver.resolveAll lookup' ids :=
      resolveAll_congr h
    simp only [run, hsame]
  | compile text =>
    have hsame :
        (Policy.compileText lookup text).run r = (Policy.compileText lookup' text).run r := by
      cases hparse : Draft.parse text with
      | error e =>
        rw [Policy.compileText_of_unreadable hparse, Policy.compileText_of_unreadable hparse]
      | ok d =>
        -- a document with findings is refused before anything is looked up
        by_cases hfindings : d.findings = []
        · have hids : ∀ id ∈ d.document.profiles, lookup id.service = lookup' id.service := by
            simpa [profileIds, hparse, hfindings] using h
          rw [Policy.run_compileText_of_valid hparse hfindings,
            Policy.run_compileText_of_valid hparse hfindings, resolveAll_congr hids]
        · rw [Policy.compileText_of_findings hparse hfindings,
            Policy.compileText_of_findings hparse hfindings]
    simp only [run, run.told, hsame]
  | invalidate => rfl

/-- The ids of a document that is compiled are what the texts of its list of profiles are read as.
-/
theorem mem_profileIds_compile_iff {text : String} :
    id ∈ (compile text).profileIds ↔
      ∃ d, Draft.parse text = .ok d ∧ d.findings = [] ∧
        ∃ raw ∈ d.profiles, ProfileId.parse? raw = some id := by
  cases hparse : Draft.parse text with
  | error e => simp [profileIds, hparse]
  | ok d =>
    by_cases hfindings : d.findings = [] <;>
      simp [profileIds, hparse, hfindings, Draft.document]

end Call

end Resolver

/-! ## Files -/

namespace Files

/-- The parts of a path are those before a name below it, but for an empty one at the end. -/
theorem Path.segments_cases (directory : String) :
    segments directory = (above directory).map String.ofList ∨
      segments directory = (above directory).map String.ofList ++ [""] := by
  unfold segments above front
  split
  · rename_i hempty
    rw [hempty]
    exact .inr rfl
  · split
    · rename_i hslash
      -- the path ends in a slash, and behind it is the empty part
      rcases List.getLast?_eq_some_iff.1 (eq_of_beq hslash) with ⟨cs, hcs⟩
      refine .inr ?_
      rw [hcs, split_append_slash, split, List.dropLast_concat, List.map_append]
      rfl
    · refine .inl ?_
      have hslash : (directory ++ "/").toList = directory.toList ++ '/' :: [] := by simp
      rw [hslash, split_append_slash, split, List.dropLast_concat]

namespace Tree

def Spot.place : Spot → Place
  | .taken place _ => place
  | .free place => place

variable {t : Tree} {path name : String} {place : Place} {spot : Spot}

/-- Names below a path are in the directory that the path leads to. -/
theorem locate_of_inner? (hinner : t.inner? path = some place) (hrefusal : refusal? path = none) :
    t.locate path = .ok (.taken place .directory) := by
  have hwalk := inner?_eq_some_iff.1 hinner
  have hidle : t.walk (.taken place .directory) [""] = .ok (.taken place .directory) := rfl
  refine locate_eq_ok_iff.2 ⟨hrefusal, ?_⟩
  rcases Path.segments_cases path with hsegments | hsegments
  · rw [hsegments]
    exact hwalk
  · rw [hsegments, walk_append, hwalk]
    exact hidle

/-- A name below the empty path is in the current directory. -/
theorem locate_orCurrent (hslash : '/' ∉ name.toList)
    (hrefusal : refusal? (Path.join path name) = none) (hinner : t.inner? path = some place) :
    t.locate (Path.orCurrent path) = .ok (.taken place .directory) := by
  unfold Path.orCurrent
  split
  · rename_i hempty
    have hplace : t.current = place := by
      rw [hempty] at hinner
      exact Option.some.inj hinner
    rw [← hplace]
    exact locate_eq_ok_iff.2 ⟨by decide, rfl⟩
  · rename_i hne
    rcases Path.join_eq_append path hslash with ⟨rest, hjoin⟩
    rw [hjoin] at hrefusal
    exact locate_of_inner? hinner (refusal?_of_append hne hrefusal)

/-- A proper name leads to the place with this name below. -/
theorem place_of_step (hname : name ≠ "" ∧ name ≠ "." ∧ name ≠ "..")
    (hstep : t.step (.taken place .directory) name = .ok spot) :
    spot.place = place ++ [name] := by
  rcases hname with ⟨hempty, hdot, hdots⟩
  -- a name that means no directory leads down, or nowhere if it is too long
  simp only [step, hempty, hdot, hdots, or_self, if_false] at hstep
  split at hstep
  · cases hstep
  · split at hstep
    · cases hstep
      rfl
    · cases hstep
      rfl

end Tree

end Files

namespace Catalog

open Files (Place Tree)
open Files.Tree (Spot)

/-! ### The file of a service -/

/-- What is promised of the path at which a directory has the file of a service. -/
structure ChildFile (directory service path : String) : Prop where
  /-- The path goes on from that of the directory with the name of the file and nothing else. -/
  path_eq : path = Files.Path.front directory ++ (service ++ ".yaml")
  noSlash : '/' ∉ (service ++ ".yaml").toList
  notAbsolute : Files.Path.isAbsolute (service ++ ".yaml") = false
  /-- The name is none that means a directory, and has no two dots together anywhere. -/
  name_ne : service ++ ".yaml" ≠ "" ∧ service ++ ".yaml" ≠ "." ∧ service ++ ".yaml" ≠ ".."
  noDots : ¬['.', '.'] <:+: (service ++ ".yaml").toList
  /-- A walk to the file goes to the directory, and from there to the name. -/
  child : ∀ (t : Tree) (spot : Spot), t.locate path = .ok spot →
    ∃ place, t.locate (Files.Path.orCurrent directory) = .ok (.taken place .directory) ∧
      spot.place = place ++ [service ++ ".yaml"]

variable {service service' : String}

/-- A character that services do not have is not in their names. -/
theorem not_mem_of_isService {c : Char} (h : ProfileId.isService service.toList = true)
    (hc : c ∉ ProfileId.lowerOrDigit ∪ {'_', '-'}) : c ∉ service.toList := by
  intro hmem
  rw [ProfileId.isService_iff] at h
  cases hservice : service.toList with
  | nil =>
    rw [hservice] at hmem
    cases hmem
  | cons d ds =>
    rw [hservice, ProfileId.serviceNames, ProfileId.cons_mem_iff] at h
    rw [hservice] at hmem
    rcases List.mem_cons.1 hmem with rfl | hmem
    · exact hc (.inl h.1)
    · exact hc (h.2 c hmem)

/-- The file of a service of an id is a child of the directory. -/
theorem childFile_entryPath (directory : String) (h : ProfileId.isService service.toList = true) :
    ChildFile directory service (entryPath directory service) := by
  have hslash : '/' ∉ (service ++ ".yaml").toList := by
    rw [String.toList_append, List.mem_append, not_or]
    exact ⟨(ne_of_isService h).2.2.1, by decide⟩
  have hname : service ++ ".yaml" ≠ "" ∧ service ++ ".yaml" ≠ "." ∧ service ++ ".yaml" ≠ ".." := by
    have hletter : 'y' ∈ (service ++ ".yaml").toList := by simp
    refine ⟨?_, ?_, ?_⟩ <;> intro heq <;> rw [heq] at hletter <;> revert hletter <;> decide
  have hdots : ¬['.', '.'] <:+: (service ++ ".yaml").toList := by
    intro hinfix
    have hdot : '.' ∉ service.toList :=
      not_mem_of_isService h (by simp [ProfileId.lowerOrDigit, ProfileId.range])
    -- the only dot is that of the ending
    have htwo : 2 ≤ (service ++ ".yaml").toList.count '.' := hinfix.sublist.count_le '.'
    have hone : (service ++ ".yaml").toList.count '.' = 1 := by
      rw [String.toList_append, List.count_append, List.count_eq_zero_of_not_mem hdot]
      decide
    omega
  refine ⟨Files.Path.join_eq directory hslash, hslash, Files.Path.not_isAbsolute hslash, hname,
    hdots, fun t spot hlocate => ?_⟩
  rcases (Tree.locate_join t directory hslash spot).1 hlocate with
    ⟨hrefusal, place, hinner, hstep⟩
  exact ⟨place, Tree.locate_orCurrent hslash hrefusal hinner, Tree.place_of_step hname hstep⟩

/-- The paths of two files of a directory are the same if the services are. -/
theorem ChildFile.path_eq_iff {directory path path' : String}
    (h : ChildFile directory service path) (h' : ChildFile directory service' path') :
    path = path' ↔ service = service' := by
  rw [h.path_eq, h'.path_eq, String.append_right_inj, String.append_left_inj]

/-- Two files of a directory are at one place only if they are those of one service. -/
theorem ChildFile.service_eq {directory path path' : String} {t : Tree} {spot spot' : Spot}
    (h : ChildFile directory service path) (h' : ChildFile directory service' path')
    (hspot : t.locate path = .ok spot) (hspot' : t.locate path' = .ok spot')
    (hplace : spot.place = spot'.place) : service = service' := by
  rcases h.child t spot hspot with ⟨place, -, hchild⟩
  rcases h'.child t spot' hspot' with ⟨place', -, hchild'⟩
  have hnames : place ++ [service ++ ".yaml"] = place' ++ [service' ++ ".yaml"] := by
    rw [← hchild, ← hchild', hplace]
  -- the last name of the place is that of the file
  have hname := List.singleton_inj.1 (List.append_inj' hnames rfl).2
  exact (String.append_left_inj _).1 hname

/-- What a directory has for a service depends on the file of the service only. -/
theorem lookup_directory_congr {directory : String} {t t' : Tree}
    (hholds : t.holds (entryPath directory service) = t'.holds (entryPath directory service))
    (hread : t.read (entryPath directory service) = t'.read (entryPath directory service)) :
    (Catalog.directory directory).lookup t service =
      (Catalog.directory directory).lookup t' service := by
  unfold lookup readEntry
  simp only [hholds, hread]

/-! ## All together -/

/-- A text is read as an id exactly if it splits into the name of an organisation and that of a
service, which it does in one way only; the id has these parts, and the text is its written form.
Any other text is refused. The ids that a document has resolved are those that its texts are read
as, and the reply to a call depends on nothing in a directory but the files of the services of its
ids. Each of them is a child of the directory with a proper name, and two ids have one file exactly
if they have one service. -/
theorem ids_lead_to_children :
    (∀ raw, (ProfileId.parse? raw).isSome ↔ ∃ org service, ProfileId.Splits raw org service) ∧
    (∀ raw org service org' service', ProfileId.Splits raw org service →
      ProfileId.Splits raw org' service' → org = org' ∧ service = service') ∧
    (∀ raw id, ProfileId.parse? raw = some id ↔ ProfileId.Splits raw id.org id.service) ∧
    (∀ raw id, ProfileId.parse? raw = some id ↔ id.text = raw) ∧
    (∀ raw, ProfileId.parse? raw = none → Resolver.readId raw = .error (.badProfileId raw)) ∧
    (∀ text id, id ∈ (Resolver.Call.compile text).profileIds ↔
      ∃ d, Draft.parse text = .ok d ∧ d.findings = [] ∧
        ∃ raw ∈ d.profiles, ProfileId.parse? raw = some id) ∧
    (∀ (c : Resolver.Call) (directory : String) (t t' : Tree),
      (∀ id ∈ c.profileIds,
        t.holds (entryPath directory id.service) = t'.holds (entryPath directory id.service) ∧
        t.read (entryPath directory id.service) = t'.read (entryPath directory id.service)) →
      ∀ r, c.run ((Catalog.directory directory).lookup t) r =
        c.run ((Catalog.directory directory).lookup t') r) ∧
    (∀ (directory : String) (id : ProfileId),
      ChildFile directory id.service (entryPath directory id.service)) ∧
    (∀ (directory : String) (id id' : ProfileId),
      entryPath directory id.service = entryPath directory id'.service ↔
        id.service = id'.service) ∧
    ∀ (directory : String) (id id' : ProfileId) (t : Tree) (spot spot' : Spot),
      t.locate (entryPath directory id.service) = .ok spot →
      t.locate (entryPath directory id'.service) = .ok spot' →
        (spot.place = spot'.place ↔ id.service = id'.service) := by
  have hfile : ∀ (directory : String) (id : ProfileId),
      ChildFile directory id.service (entryPath directory id.service) := by
    intro directory id
    exact childFile_entryPath directory id.service_ok
  refine ⟨fun _ => ProfileId.isSome_parse?_iff_splits, fun _ _ _ _ _ h h' => h.unique h',
    fun _ _ => ProfileId.parse?_eq_some_iff, ?_, ?_, fun _ _ =>
      Resolver.Call.mem_profileIds_compile_iff, ?_, hfile, ?_, ?_⟩
  · intro raw id
    constructor
    · exact ProfileId.parse?_eq_some
    · rintro rfl
      exact ProfileId.parse?_text id
  · intro raw hnone
    unfold Resolver.readId
    rw [hnone]
  · intro c directory t t' hsame r
    refine Resolver.Call.run_congr (fun id hid => ?_) r
    exact lookup_directory_congr (hsame id hid).1 (hsame id hid).2
  · intro directory id id'
    exact (hfile directory id).path_eq_iff (hfile directory id')
  · intro directory id id' t spot spot' hspot hspot'
    constructor
    · exact (hfile directory id).service_eq (hfile directory id') hspot hspot'
    · intro hservice
      rw [hservice, hspot'] at hspot
      cases hspot
      rfl

/-- An organisation with a dot, dashes and the word between the names in its name, an id of another
organisation for the same service, and the text with a line break behind it, which is no id. A file
elsewhere in the tree does not matter. -/
theorem ids_lead_to_children_of_two_orgs :
    let raw := "acme.org-security-x/security-docs_2"
    let id : ProfileId := ⟨"acme.org-security-x", "docs_2", by decide, by decide⟩
    let other : ProfileId := ⟨"beta", "docs_2", by decide, by decide⟩
    let t := ((Tree.save "catalog/docs_2.yaml" "service: docs_2").run .empty).2
    let t' := ((Tree.save "docs_2.yaml" "service: gmail").run t).2
    (ProfileId.parse? raw = some id ∧ id.text = raw) ∧
      (∀ org service, ProfileId.Splits raw org service → org = id.org ∧ service = id.service) ∧
      Resolver.readId (raw ++ "\n") = .error (.badProfileId (raw ++ "\n")) ∧
      (∀ r, (Resolver.Call.resolve raw).run ((Catalog.directory "catalog").lookup t) r =
        (Resolver.Call.resolve raw).run ((Catalog.directory "catalog").lookup t') r) ∧
      ∃ spot spot', t.locate (entryPath "catalog" id.service) = .ok spot ∧
        t.locate (entryPath "catalog" other.service) = .ok spot' ∧ spot.place = spot'.place := by
  intro raw id other t t'
  rcases ids_lead_to_children with ⟨-, hunique, hsplits, htext, hrefused, -, hlookup, -, -, hplace⟩
  have hparse : ProfileId.parse? raw = some id := by decide +kernel
  have hnone : ProfileId.parse? (raw ++ "\n") = none := by decide +kernel
  have hids : (Resolver.Call.resolve raw).profileIds = [id] := by
    simp only [Resolver.Call.profileIds, hparse, Option.toList_some]
  have hfound : t.holds (entryPath "catalog" id.service) = true := by decide +kernel
  rcases Tree.holds_iff.1 hfound with ⟨q, e, hspot⟩
  refine ⟨⟨hparse, (htext raw id).1 hparse⟩, ?_, hrefused _ hnone, ?_, _, _, hspot, hspot,
    (hplace "catalog" id other t _ _ hspot hspot).2 rfl⟩
  · intro org service hsplit
    exact hunique raw org service id.org id.service hsplit ((hsplits raw id).1 hparse)
  · refine hlookup (.resolve raw) "catalog" t t' fun i hi => ?_
    rw [hids, List.mem_singleton] at hi
    rw [hi]
    exact ⟨by decide +kernel, by decide +kernel⟩

end Catalog

end ToolGate
