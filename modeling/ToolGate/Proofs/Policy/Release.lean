import ToolGate.Proofs.Digest
import ToolGate.Proofs.Files.Save
import ToolGate.Proofs.Policy.Compile
import ToolGate.Proofs.Policy.RoundTrip

/-!
# Releasing policies

An attempt compiles a text and publishes what it is compiled to. If the text is no document, the
document has findings or a profile is missing, the attempt tells so and the store stays as it is;
otherwise the store is given the whole policy. So whatever attempts and fetches went before, a fetch
gives the policy of the latest attempt that succeeded, from a store in memory and from one in a file
alike, and the file has the text whose size and digest the attempt has told.

* `Attempt.publish_of_unreadable`, `Attempt.publish_of_findings`, `Attempt.publish_of_valid`: one
  attempt;
* `Store.Keeps`: stores that hold what they are given;
* `Event.run_of_keeps`, `replay_of_keeps`: one attempt or fetch, and any number of them;
* `publishing_allOrNothing`: what such histories show, in memory and in a file.
-/

namespace ToolGate.Policy

/-! ## Attempts -/

/-- Publishing fails as the store does. -/
theorem publish_eq_error {σ : Type} {store : Store σ} {out : Compiled} {s s' : σ} {e : Error}
    (h : (publish store out).run s = (.error e, s')) : ∃ cause, e = .transport cause := by
  unfold publish at h
  rw [run_adapt_state] at h
  have hfailed : (store.set out.policy s).1.mapError Error.transport = .error e :=
    congrArg Prod.fst h
  rcases hset : (store.set out.policy s).1 with cause | _
  · rw [hset, mapError_error] at hfailed
    exact ⟨cause, (Except.error.inj hfailed).symm⟩
  · rw [hset, mapError_ok] at hfailed
    cases hfailed

/-- A text to compile with what a catalog answers and what was found in it before. -/
structure Attempt where
  text : String
  lookup : Lookup
  resolver : Resolver

namespace Attempt

variable {σ : Type}

/-- Compiles the text and publishes what it is compiled to, which is told with what has been found of
profiles. -/
def publish (store : Store σ) (a : Attempt) (s : σ) : (Except Error Compiled × Resolver) × σ :=
  match (compileText a.lookup a.text).run a.resolver with
  | (.error e, r) => ((.error e, r), s)
  | (.ok out, r) =>
    match (Policy.publish store out).run s with
    | (.error e, s) => ((.error e, r), s)
    | (.ok (), s) => ((.ok out, r), s)

variable {store : Store σ} {a : Attempt} {d : Draft}

theorem publish_of_unreadable (s : σ) {e : Yaml.Error} (h : Draft.parse a.text = .error e) :
    a.publish store s = ((.error (.parse e), a.resolver), s) := by
  unfold publish
  rw [compileText_of_unreadable h]

theorem publish_of_findings (s : σ) (h : Draft.parse a.text = .ok d) (hfindings : d.findings ≠ []) :
    a.publish store s = ((.error (.invalid d.findings), a.resolver), s) := by
  unfold publish
  rw [compileText_of_findings h hfindings]

/-- The answers to the profile ids of a document. -/
def answers (a : Attempt) (d : Draft) : Except Error (List Profile) :=
  d.document.profiles.mapM (Resolver.answer a.lookup a.resolver)

/-- A document without findings is published if its profile ids have answers. -/
theorem publish_of_valid (store : Store σ) (s : σ) (h : Draft.parse a.text = .ok d)
    (hfindings : d.findings = []) :
    ∃ r, a.publish store s =
      match a.answers d with
      | .error e => ((.error e, r), s)
      | .ok profiles =>
        let out : Compiled := .of (merge d.document profiles d.document.tenantVars)
        match (Policy.publish store out).run s with
        | (.error e, s) => ((.error e, r), s)
        | (.ok (), s) => ((.ok out, r), s) := by
  -- what has been found of profiles is told along, so only the results are compared
  have hresult := compileText_of_valid h hfindings a.lookup a.resolver
  unfold publish answers
  rcases hrun : (compileText a.lookup a.text).run a.resolver with ⟨result, r⟩
  rw [hrun] at hresult
  refine ⟨r, ?_⟩
  rcases hanswers : d.document.profiles.mapM (Resolver.answer a.lookup a.resolver) with e | profiles
  all_goals
    rw [hanswers] at hresult
    cases hresult
    rfl

/-- The reason why the profile ids have no answers is one why an id has none. -/
theorem answers_ne_invalid (fs : List Finding) : a.answers d ≠ .error (.invalid fs) := by
  intro h
  rcases exists_mem_of_mapM_eq_error h with ⟨id, _, hid⟩
  rcases (Resolver.answer_eq_error hid).2 with ⟨_, he⟩ | ⟨cause, _, he⟩
  · cases he
  · cases he

/-- Findings that an attempt tells are those of its document, told before any profile was looked
up. -/
theorem findings_of_publish {s : σ} {fs : List Finding}
    (h : (a.publish store s).1.1 = .error (.invalid fs)) :
    ∃ d, Draft.parse a.text = .ok d ∧ d.findings = fs ∧ fs ≠ [] := by
  rcases hparse : Draft.parse a.text with e | d
  · rw [publish_of_unreadable s hparse] at h
    cases h
  by_cases hfindings : d.findings = []
  · rcases publish_of_valid store s hparse hfindings with ⟨r, hpublish⟩
    rw [hpublish] at h
    rcases hanswers : a.answers d with e | profiles
    · rw [hanswers] at h
      cases h
      exact absurd hanswers (answers_ne_invalid fs)
    · -- whatever the store does then, it tells no findings
      rw [hanswers] at h
      rcases hset : (Policy.publish store (.of
        (merge d.document profiles d.document.tenantVars))).run s with ⟨e | _, _⟩
      · simp only [hset] at h
        rcases publish_eq_error hset with ⟨cause, he⟩
        rw [he] at h
        cases h
      · simp only [hset] at h
        cases h
  · rw [publish_of_findings s hparse hfindings] at h
    cases h
    exact ⟨d, rfl, rfl, hfindings⟩

end Attempt

/-! ## Histories -/

/-- What is asked of a store. -/
inductive Event where
  | attempt (a : Attempt)
  | fetch

/-- What it is answered with. -/
inductive Reply where
  | attempted (result : Except Error Compiled)
  | fetched (result : Except TransportError (Option Policy))

/-- What a reply tells was published. -/
def Reply.released? : Reply → Option Compiled
  | .attempted (.ok out) => some out
  | _ => none

/-- What the latest attempt that succeeded has published. -/
def latest (replies : List Reply) : Option Compiled :=
  replies.foldl (fun before reply => reply.released?.or before) none

theorem latest_append (replies : List Reply) (reply : Reply) :
    latest (replies ++ [reply]) = reply.released?.or (latest replies) := by
  simp [latest]

variable {σ : Type}

/-- The reply to an event and the state after it. -/
def Event.run (store : Store σ) : Event → σ → Reply × σ
  | .attempt a, s => (.attempted (a.publish store s).1.1, (a.publish store s).2)
  | .fetch, s => (.fetched (store.get s), s)

/-- The replies to events one after another and the state after them. -/
def replay (store : Store σ) (s : σ) (events : List Event) : List Reply × σ :=
  events.foldl
    (fun before event =>
      (before.1 ++ [(event.run store before.2).1], (event.run store before.2).2))
    ([], s)

/-- A store that holds a policy or none in its states: it gives the one that it holds, and can be
given another one. -/
structure Store.Keeps (store : Store σ) (holds : σ → Option Policy → Prop) : Prop where
  get : ∀ {s o}, holds s o → store.get s = .ok o
  set : ∀ {s o}, holds s o → ∀ p, ∃ s', store.set p s = (.ok (), s') ∧ holds s' (some p)

section Keeps

variable {store : Store σ} {holds : σ → Option Policy → Prop} {s : σ} {o : Option Compiled}

/-- A store that keeps policies is given what is published. -/
theorem Store.Keeps.publish (hstore : store.Keeps holds) {o : Option Policy} (hs : holds s o)
    (out : Compiled) :
    ∃ s', (Policy.publish store out).run s = (.ok (), s') ∧ holds s' (some out.policy) := by
  rcases hstore.set hs out.policy with ⟨s', hset, hs'⟩
  exact ⟨s', run_adapt_eq_ok_iff.2 hset, hs'⟩

/-- What has been published so far: a policy with its text and summary, which the store holds. -/
structure Published (holds : σ → Option Policy → Prop) (s : σ) (o : Option Compiled) : Prop where
  held : holds s (o.map (·.policy))
  whole : ∀ out, o = some out → out = .of out.policy

/-- An attempt that succeeds changes what is published, and nothing else does. -/
theorem Event.run_of_keeps (hstore : store.Keeps holds) (hs : Published holds s o)
    (event : Event) :
    Published holds (event.run store s).2 ((event.run store s).1.released?.or o) := by
  cases event with
  | fetch => exact hs
  | attempt a =>
    unfold Event.run
    simp only
    rcases hparse : Draft.parse a.text with e | d
    · rw [Attempt.publish_of_unreadable s hparse]
      exact hs
    by_cases hfindings : d.findings = []
    · rcases Attempt.publish_of_valid store s hparse hfindings with ⟨r, hpublish⟩
      rw [hpublish]
      rcases a.answers d with e | profiles
      · exact hs
      · -- only here the store is given anything, and it is given all of it
        rcases hstore.publish hs.held (.of (merge d.document profiles d.document.tenantVars)) with
          ⟨s', hset, hs'⟩
        simp only [hset]
        refine ⟨hs', ?_⟩
        intro out hout
        have hof : .of (merge d.document profiles d.document.tenantVars) = out :=
          Option.some.inj hout
        rw [← hof]
        rfl
    · rw [Attempt.publish_of_findings s hparse hfindings]
      exact hs

/-- After any events, what is published is what the latest attempt that succeeded has published. -/
theorem replay_of_keeps (hstore : store.Keeps holds) (hs : holds s none) (events : List Event) :
    Published holds (replay store s events).2 (latest (replay store s events).1) := by
  unfold replay
  have hbegin : Published holds (([], s) : List Reply × σ).2 (latest ([], s).1) :=
    ⟨hs, fun out hnone => by cases hnone⟩
  generalize (([], s) : List Reply × σ) = before at hbegin ⊢
  -- by induction on the events to come, from the replies and the state so far
  induction events generalizing before with
  | nil => exact hbegin
  | cons event events ih =>
    refine ih _ ?_
    rw [latest_append]
    exact Event.run_of_keeps hstore hbegin event

end Keeps

/-! ## Stores in memory and in files -/

namespace Store

theorem memory_keeps : memory.Keeps fun s o => s = o where
  get h := congrArg Except.ok h
  set _ p := ⟨some p, rfl, rfl⟩

/-- A file that can be saved holds the policy whose canonical text it has, or it is not there. -/
def FileHolds (path : String) (t : Files.Tree) (o : Option Policy) : Prop :=
  t.CanSave path ∧
    match o with
    | none => t.holds path = false
    | some p => t.read path = .ok p.render

/-- A file with the canonical text of a policy is read as the policy. -/
theorem readFile_of_read {path : String} {t : Files.Tree} {p : Policy}
    (h : t.read path = .ok p.render) : readFile path t = .ok (some p) := by
  unfold readFile
  rw [if_pos (Files.Tree.holds_of_read h), h]
  simp only [parse_render]

/-- A store in a file that can be saved holds what it is given, by the canonical text. -/
theorem file_keeps (path : String) : (file path).Keeps (FileHolds path) where
  get {t o} h := by
    change readFile path t = .ok o
    cases o with
    | none =>
      have hnone : t.holds path = false := h.2
      unfold readFile
      rw [hnone]
      rfl
    | some p => exact readFile_of_read h.2
  set {t _} h p := by
    rcases Files.Tree.save_of_canSave h.1 p.render with ⟨t', hsave, hread, hagain⟩
    exact ⟨t', run_adapt_eq_ok_iff.2 hsave, hagain, hread⟩

end Store

/-! ## All or nothing -/

/-- What is promised about attempts and fetches on a store that begins in a state `s₀`. That a state
`s` shows what was published is for `shows` to say. -/
structure AllOrNothing (store : Store σ) (shows : σ → Compiled → Prop) (s₀ : σ) : Prop where
  /-- A fetch gives the policy of the latest attempt that succeeded, or none. -/
  fetched (events : List Event) :
    store.get (replay store s₀ events).2 =
      .ok ((latest (replay store s₀ events).1).map (·.policy))
  /-- The store shows what the latest attempt that succeeded has told. -/
  shown (events : List Event) (out : Compiled) :
    latest (replay store s₀ events).1 = some out → shows (replay store s₀ events).2 out
  /-- A text that is no document is told so and changes nothing. -/
  unreadable (events : List Event) (a : Attempt) (e : Yaml.Error) :
    Draft.parse a.text = .error e →
      a.publish store (replay store s₀ events).2 =
        ((.error (.parse e), a.resolver), (replay store s₀ events).2)
  /-- Findings are told and nothing is changed, not even what has been found of profiles. -/
  invalid (events : List Event) (a : Attempt) (d : Draft) :
    Draft.parse a.text = .ok d → d.findings ≠ [] →
      a.publish store (replay store s₀ events).2 =
        ((.error (.invalid d.findings), a.resolver), (replay store s₀ events).2)
  /-- No other findings are ever told than those of the document. -/
  findings (events : List Event) (a : Attempt) (fs : List Finding) :
    (a.publish store (replay store s₀ events).2).1.1 = .error (.invalid fs) →
      ∃ d, Draft.parse a.text = .ok d ∧ d.findings = fs ∧ fs ≠ []
  /-- The first profile id without an answer is told and the store is not changed. -/
  unresolved (events : List Event) (a : Attempt) (d : Draft) (e : Error) :
    Draft.parse a.text = .ok d → d.findings = [] → a.answers d = .error e →
      ∃ r, a.publish store (replay store s₀ events).2 =
        ((.error e, r), (replay store s₀ events).2)
  /-- Otherwise the merged policy is published, and the store shows it with what is told of it. -/
  released (events : List Event) (a : Attempt) (d : Draft) (profiles : List Profile) :
    Draft.parse a.text = .ok d → d.findings = [] → a.answers d = .ok profiles →
      ∃ out r s, a.publish store (replay store s₀ events).2 = ((.ok out, r), s) ∧
        out.policy = merge d.document profiles d.document.tenantVars ∧ shows s out

/-- Stores that hold what they are given keep all of it. -/
theorem allOrNothing_of_keeps {store : Store σ} {holds : σ → Option Policy → Prop}
    {shows : σ → Compiled → Prop} {s₀ : σ} (hstore : store.Keeps holds) (hbegin : holds s₀ none)
    (hshows : ∀ s p, holds s (some p) → shows s (.of p)) : AllOrNothing store shows s₀ where
  fetched events := hstore.get (replay_of_keeps hstore hbegin events).held
  shown events out hlatest := by
    have hpublished := replay_of_keeps hstore hbegin events
    rw [hlatest] at hpublished
    rw [hpublished.whole out rfl]
    exact hshows _ _ hpublished.held
  unreadable _ _ _ hparse := Attempt.publish_of_unreadable _ hparse
  invalid _ _ _ hparse hfindings := Attempt.publish_of_findings _ hparse hfindings
  findings _ _ _ h := Attempt.findings_of_publish h
  unresolved events a d e hparse hfindings hanswers := by
    rcases Attempt.publish_of_valid store (replay store s₀ events).2 hparse hfindings
      with ⟨r, hpublish⟩
    rw [hanswers] at hpublish
    exact ⟨r, hpublish⟩
  released events a d profiles hparse hfindings hanswers := by
    rcases Attempt.publish_of_valid store (replay store s₀ events).2 hparse hfindings
      with ⟨r, hpublish⟩
    rcases hstore.publish (replay_of_keeps hstore hbegin events).held
      (.of (merge d.document profiles d.document.tenantVars)) with ⟨s, hset, hs⟩
    simp only [hanswers, hset] at hpublish
    exact ⟨_, r, s, hpublish, rfl, hshows _ _ hs⟩

/-- A file shows what was compiled: it has the text, which is read back as the policy, and the
summary gives the size of this text in bytes and its digest, in 64 digits with small letters. -/
structure FileShows (path : String) (t : Files.Tree) (out : Compiled) : Prop where
  text : t.read path = .ok out.text
  policy : Policy.parse out.text = .ok out.policy
  size : out.stats.size = out.text.toUTF8.size
  digest : out.stats.digest = Sha256.hex (Sha256.blockHash out.text.toUTF8.toList)
  digits : out.stats.digest.length = 64 ∧
    ∀ c ∈ out.stats.digest.toList, c ∈ "0123456789abcdef".toList

/-- The file that a policy was stored in shows it with its summary. -/
theorem fileShows_of_fileHolds {path : String} {t : Files.Tree} {p : Policy}
    (h : Store.FileHolds path t (some p)) : FileShows path t (.of p) where
  text := h.2
  policy := parse_render p
  size := rfl
  digest := Sha256.hexDigest_eq p.render
  digits := ⟨Sha256.length_hexDigest p.render, fun _ hc => Sha256.mem_hexDigest hc⟩

/-- Publishing is all or nothing and the last one counts, in memory and in a file that is not there
yet but can be saved. -/
theorem publishing_allOrNothing :
    AllOrNothing Store.memory (fun s out => s = some out.policy) none ∧
      ∀ {path : String} {t : Files.Tree}, t.CanSave path → t.holds path = false →
        AllOrNothing (Store.file path) (FileShows path) t := by
  constructor
  · exact allOrNothing_of_keeps Store.memory_keeps rfl fun _ _ h => h
  · intro path t hsave hnone
    exact allOrNothing_of_keeps (Store.file_keeps path) ⟨hsave, hnone⟩
      fun _ _ hs => fileShows_of_fileHolds hs

/-- A file in a directory that is not there yet: a document about one tool is published, and then
one without a version is refused. -/
theorem publishing_allOrNothing_from_no_file :
    let path := "state/policy.json"
    let lookup : Lookup := fun _ => .ok none
    let valid : Attempt :=
      ⟨"version: '1.0'\ntoolOverrides:\n  docs:\n    search:\n      verb: get\n", lookup, .empty⟩
    let invalid : Attempt := ⟨"\x7b\x7d", lookup, .empty⟩
    let text := "\x7b\n  \"version\": \"1.0\",\n  \"toolAnnotations\": \x7b\n    \"docs\": \x7b\n" ++
      "      \"search\": \x7b\n        \"annotations\": \x7b\x7d,\n        \"verb\": \"get\",\n" ++
      "        \"labels\": []\n      \x7d\n    \x7d\n  \x7d,\n  \"classifiers\": \x7b\x7d,\n" ++
      "  \"policyRules\": []\n\x7d"
    let digest := "53167c388e9f1a1e2399bb342d5ff2dfb8143d6336c81270588f5a4a5653a7be"
    let fs : List Finding := [⟨"version", "unsupported version '': expected '1.0'"⟩]
    Files.Tree.empty.CanSave path ∧ Files.Tree.empty.holds path = false ∧
      AllOrNothing (Store.file path) (FileShows path) .empty ∧
      ∃ out r t, valid.publish (Store.file path) .empty = ((.ok out, r), t) ∧
        out.text = text ∧ out.stats = ⟨1, 0, 0, 209, digest⟩ ∧
        t.read path = .ok text ∧ (Store.file path).get t = .ok (some out.policy) ∧
        invalid.publish (Store.file path) t = ((.error (.invalid fs), .empty), t) := by
  intro path lookup valid invalid text digest fs
  have hsave : Files.Tree.empty.CanSave path := ⟨"", by decide +kernel⟩
  have hnone : Files.Tree.empty.holds path = false := by decide +kernel
  have hall := publishing_allOrNothing.2 hsave hnone
  -- what the two texts are compiled to is computed, and the rest is promised
  have hcompiled : (valid.publish (Store.file path) .empty).1.1.toOption.map
      (fun out => (out.text, out.stats)) = some (text, ⟨1, 0, 0, 209, digest⟩) := by decide +kernel
  have hread : (Draft.parse invalid.text).toOption.map Draft.findings = some fs := by decide +kernel
  rcases hpublish : valid.publish (Store.file path) .empty with ⟨⟨e | out, r⟩, t⟩
  · rw [hpublish] at hcompiled
    contradiction
  rw [hpublish] at hcompiled
  have hboth : (out.text, out.stats) = (text, ⟨1, 0, 0, 209, digest⟩) := Option.some.inj hcompiled
  have htext : out.text = text := congrArg Prod.fst hboth
  have hstats : out.stats = ⟨1, 0, 0, 209, digest⟩ := congrArg Prod.snd hboth
  have hreplay : replay (Store.file path) .empty [.attempt valid] = ([.attempted (.ok out)], t) := by
    unfold replay
    rw [List.foldl_cons, List.foldl_nil, Event.run, hpublish]
    rfl
  have hshown := hall.shown [.attempt valid] out
  have hfetched := hall.fetched [.attempt valid]
  rw [hreplay] at hshown hfetched
  have hfile : FileShows path t out := hshown rfl
  refine ⟨hsave, hnone, hall, out, r, t, rfl, htext, hstats, ?_, hfetched, ?_⟩
  · rw [hfile.text, htext]
  rcases hparse : Draft.parse invalid.text with e | d <;> rw [hparse] at hread
  · contradiction
  · have hfindings : d.findings = fs := Option.some.inj hread
    have hrefused := hall.invalid [.attempt valid] invalid d hparse
      (by rw [hfindings]; exact List.cons_ne_nil _ _)
    rw [hreplay, hfindings] at hrefused
    exact hrefused

end ToolGate.Policy
