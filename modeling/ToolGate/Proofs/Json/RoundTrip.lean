import ToolGate.Json.Parser
import ToolGate.Json.Printer
import ToolGate.Proofs.Json.Number

/-!
# Values read back

The indented text of a value is read as that very value, if the value has no unreadable part and no
number but integers of 64 bits. The text is followed through both readings: its characters spell the
tokens of the value, and the tokens spell the value.

* `Plain`: the values that read back;
* `Scan.Spells`: characters that are read as given tokens, after whatever was read before;
* `Json.spells_pretty`: the indented layout spells the tokens of a value;
* `Json.foldlM_tokens`: the tokens of a value are read as the value;
* `Json.parse_pretty`: the text of a plain value is read as the value.
-/

namespace ToolGate.Json

mutual

/-- Whether a value is readable in all its parts and has no number but integers of 64 bits. -/
def Plain : Json → Prop
  | .null | .bool _ | .text _ => True
  | .number n => ∃ z, n = .integer z ∧ Number.fits64 z = true
  | .array items => ArePlain items
  | .object members => MembersArePlain members
  | .unreadable => False

def ArePlain : List Json → Prop
  | [] => True
  | v :: vs => v.Plain ∧ ArePlain vs

def MembersArePlain : List (String × Json) → Prop
  | [] => True
  | (_, v) :: ms => v.Plain ∧ MembersArePlain ms

end

mutual

def tokens : Json → List Token
  | .array [] => [.arrayStart, .arrayEnd]
  | .array (v :: vs) => .arrayStart :: (v.tokens ++ itemTokens vs)
  | .object [] => [.objectStart, .objectEnd]
  | .object ((k, v) :: ms) =>
    .objectStart :: .scalar (.text k) :: .colon :: (v.tokens ++ memberTokens ms)
  | v => [.scalar v]

/-- The tokens of further items of an array, up to its end. -/
def itemTokens : List Json → List Token
  | [] => [.arrayEnd]
  | v :: vs => .comma :: (v.tokens ++ itemTokens vs)

/-- The tokens of further members of an object, up to its end. -/
def memberTokens : List (String × Json) → List Token
  | [] => [.objectEnd]
  | (k, v) :: ms => .comma :: .scalar (.text k) :: .colon :: (v.tokens ++ memberTokens ms)

end

/-! ## From characters to tokens -/

namespace Scan

/-- A state in which given tokens are complete: nothing is pending, or a number or a word that may
end here. -/
inductive Complete : State → List Token → Prop where
  | idle (ts : List Token) : Complete ⟨ts, .idle⟩ ts
  | bare (ts : List Token) (read : List Char) (v : Json) (h : bareScalar? read.reverse = some v) :
    Complete ⟨ts, .bare read⟩ (.scalar v :: ts)

/-- At the end of the text the tokens are those that are complete. -/
theorem Complete.finish {s : State} {ts : List Token} (h : Complete s ts) :
    Scan.finish s = some ts.reverse := by
  cases h with
  | idle => rfl
  | bare ts read v h => simp [Scan.finish, h]

/-- The next character ends what is complete. -/
theorem Complete.step {s : State} {ts : List Token} (h : Complete s ts) {c : Char}
    (hc : isBare c = false) : Scan.step s c = Scan.step ⟨ts, .idle⟩ c := by
  cases h with
  | idle => rfl
  | bare ts read v h => simp [Scan.step, h, hc]

/-- Characters that are read as given tokens, whatever was read before. -/
def Spells (cs : List Char) (ts : List Token) : Prop :=
  ∀ before, ∃ s, cs.foldlM step ⟨before, .idle⟩ = some s ∧ Complete s (ts.reverse ++ before)

theorem Spells.tokens? {cs : List Char} {ts : List Token} (h : Spells cs ts) :
    Json.tokens? cs = some ts := by
  rcases h [] with ⟨s, hs, hdone⟩
  unfold Json.tokens?
  rw [hs, Option.bind_some, hdone.finish, List.append_nil, List.reverse_reverse]

theorem spells_nil : Spells [] [] := fun before => ⟨⟨before, .idle⟩, rfl, .idle before⟩

/-- One text after another, if the second cannot continue the first. -/
theorem Spells.append {cs ds : List Char} {ts us : List Token} (h : Spells cs ts)
    (hnext : Spells ds us) (hd : ∃ d rest, ds = d :: rest ∧ isBare d = false) :
    Spells (cs ++ ds) (ts ++ us) := by
  intro before
  rcases hd with ⟨d, rest, rfl, hd⟩
  rcases h before with ⟨s, hs, hdone⟩
  rcases hnext (ts.reverse ++ before) with ⟨s', hs', hdone'⟩
  refine ⟨s', ?_, by rwa [List.reverse_append, List.append_assoc]⟩
  -- the first character of the second text ends what the first has left pending
  rw [List.foldlM_cons, ← hdone.step hd] at hs'
  rw [List.foldlM_append, hs]
  exact hs'

/-- A character that is a token of its own. -/
theorem Spells.mark {c : Char} {t : Token}
    (hc : ∀ before, idleStep before c = some ⟨t :: before, .idle⟩) {cs : List Char}
    {ts : List Token} (h : Spells cs ts) : Spells (c :: cs) (t :: ts) := by
  intro before
  rcases h (t :: before) with ⟨s, hs, hdone⟩
  refine ⟨s, ?_, by rwa [List.reverse_cons, List.append_assoc]⟩
  rw [List.foldlM_cons]
  change (idleStep before c).bind _ = _
  rw [hc before]
  exact hs

/-- A blank before a text makes no difference. -/
theorem Spells.blank {c : Char} (hc : ∀ before, idleStep before c = some ⟨before, .idle⟩)
    {cs : List Char} {ts : List Token} (h : Spells cs ts) : Spells (c :: cs) ts := by
  intro before
  rcases h before with ⟨s, hs, hdone⟩
  refine ⟨s, ?_, hdone⟩
  rw [List.foldlM_cons]
  change (idleStep before c).bind _ = _
  rw [hc before]
  exact hs

/-- Nor does a line break with an indentation. -/
theorem Spells.newline (depth : Nat) {cs : List Char} {ts : List Token} (h : Spells cs ts) :
    Spells (newline depth ++ cs) ts := by
  have hblanks : ∀ n, Spells (List.replicate n ' ' ++ cs) ts := by
    intro n
    induction n with
    | zero => exact h
    | succ n ih => exact ih.blank fun _ => rfl
  exact (hblanks (2 * depth)).blank fun _ => rfl

/-! ### Numbers and words -/

/-- A character of a number or a word begins one. -/
theorem idleStep_of_isBare {c : Char} (hc : isBare c = true) (before : List Token) :
    idleStep before c = some ⟨before, .bare [c]⟩ := by
  have hne : ∀ d, isBare d = false → c ≠ d := by
    rintro d hd rfl
    rw [hc] at hd
    contradiction
  unfold idleStep
  rw [if_neg, if_neg (hne '[' rfl), if_neg (hne ']' rfl), if_neg (hne '{' rfl),
    if_neg (hne '}' rfl), if_neg (hne ':' rfl), if_neg (hne ',' rfl), if_neg (hne '"' rfl),
    if_pos hc]
  rintro (h | h | h | h)
  all_goals exact hne _ rfl h

/-- The further ones are collected. -/
theorem foldlM_bare (cs : List Char) (hcs : ∀ c ∈ cs, isBare c = true) (before : List Token)
    (read : List Char) :
    cs.foldlM step ⟨before, .bare read⟩ = some ⟨before, .bare (cs.reverse ++ read)⟩ := by
  induction cs generalizing read with
  | nil => rfl
  | cons c cs ih =>
    have hc := hcs c List.mem_cons_self
    have hstep : step ⟨before, .bare read⟩ c = some ⟨before, .bare (c :: read)⟩ := by
      simp [step, hc]
    rw [List.foldlM_cons, hstep]
    change cs.foldlM step ⟨before, .bare (c :: read)⟩ = _
    rw [ih (fun d hd => hcs d (List.mem_cons_of_mem c hd)), List.reverse_cons, List.append_assoc]
    rfl

/-- A number or a word is one token. -/
theorem spells_bare {c : Char} {cs : List Char} {v : Json} (hall : (c :: cs).all isBare = true)
    (hv : bareScalar? (c :: cs) = some v) : Spells (c :: cs) [.scalar v] := by
  intro before
  have hcs := List.all_eq_true.1 hall
  refine ⟨⟨before, .bare (c :: cs).reverse⟩, ?_, ?_⟩
  · rw [List.foldlM_cons]
    change (idleStep before c).bind _ = _
    rw [idleStep_of_isBare (hcs c List.mem_cons_self)]
    change cs.foldlM step ⟨before, .bare [c]⟩ = _
    rw [foldlM_bare cs (fun d hd => hcs d (List.mem_cons_of_mem c hd)), List.reverse_cons]
  · exact .bare before _ v (by rwa [List.reverse_reverse])

/-! ### Quoted texts -/

/-- A control character is read back from its four digits. -/
theorem foldlM_unit {n : Nat} (hn : n < 0x20) (before : List Token) (read : List Char) :
    (Text.hexDigits 4 n).foldlM step ⟨before, .unit (some read) 4 0 none⟩ =
      some ⟨before, .quote (some (Char.ofNat n :: read))⟩ := by
  have hdigit : ∀ k, Text.hexValue? (Text.hexDigit (k % 16)) = some (k % 16) :=
    fun k => Text.hexValue?_hexDigit (Nat.mod_lt k (by decide))
  have hvalue : 16 * (16 * (16 * (16 * 0 + n / 16 / 16 / 16 % 16) + n / 16 / 16 % 16) +
      n / 16 % 16) + n % 16 = n := by
    omega
  -- a control character is no half of a surrogate pair
  have hend : unitEnd (some read) n none = .quote (some (Char.ofNat n :: read)) := by
    unfold unitEnd
    simp only
    rw [if_neg (by omega), if_neg (by omega)]
    rfl
  simp only [Text.hexDigits, List.nil_append, List.cons_append, List.foldlM_cons, List.foldlM_nil,
    step, hdigit, Option.map_some, Option.bind_eq_bind, Option.bind_some, Nat.reduceLeDiff,
    Nat.reduceSub, if_true, if_false, Option.pure_def]
  rw [hvalue, hend]

/-- Inside quotation marks a character is read back from its written form. -/
theorem foldlM_escape (c : Char) (before : List Token) (read : List Char) :
    (escape c).foldlM step ⟨before, .quote (some read)⟩ =
      some ⟨before, .quote (some (c :: read))⟩ := by
  -- each escape letter in turn; what is left is a control character or stands for itself
  by_cases hquote : c = '"'
  · subst hquote
    rfl
  by_cases hslash : c = '\\'
  · subst hslash
    rfl
  by_cases hb : c = '\x08'
  · subst hb
    rfl
  by_cases hf : c = '\x0c'
  · subst hf
    rfl
  by_cases hn : c = '\n'
  · subst hn
    rfl
  by_cases hr : c = '\r'
  · subst hr
    rfl
  by_cases ht : c = '\t'
  · subst ht
    rfl
  unfold escape
  rw [if_neg hquote, if_neg hslash, if_neg hb, if_neg hf, if_neg hn, if_neg hr, if_neg ht]
  by_cases hcontrol : c.toNat < 0x20
  · have hunit := foldlM_unit hcontrol before read
    rw [Char.ofNat_toNat] at hunit
    rw [if_pos hcontrol]
    exact hunit
  · rw [if_neg hcontrol, List.foldlM_cons]
    change (quoteStep before (some read) c).bind _ = _
    unfold quoteStep
    rw [if_neg hquote, if_neg hslash, if_neg hcontrol]
    rfl

/-- A whole text is read back from its written form. -/
theorem foldlM_escapes (cs : List Char) (before : List Token) (read : List Char) :
    (cs.flatMap escape).foldlM step ⟨before, .quote (some read)⟩ =
      some ⟨before, .quote (some (cs.reverse ++ read))⟩ := by
  induction cs generalizing read with
  | nil => rfl
  | cons c cs ih =>
    rw [List.flatMap_cons, List.foldlM_append, foldlM_escape]
    change (cs.flatMap escape).foldlM step ⟨before, .quote (some (c :: read))⟩ = _
    rw [ih, List.reverse_cons, List.append_assoc]
    rfl

/-- A text in quotation marks is one token. -/
theorem Spells.quoted (k : String) {cs : List Char} {ts : List Token} (h : Spells cs ts) :
    Spells (quoted k ++ cs) (.scalar (.text k) :: ts) := by
  intro before
  rcases h (.scalar (.text k) :: before) with ⟨s, hs, hdone⟩
  refine ⟨s, ?_, by rwa [List.reverse_cons, List.append_assoc]⟩
  have hquote : (Json.quoted k).foldlM step ⟨before, .idle⟩ =
      some ⟨.scalar (.text k) :: before, .idle⟩ := by
    unfold Json.quoted
    rw [List.foldlM_cons]
    change (k.toList.flatMap escape ++ ['"']).foldlM step ⟨before, .quote (some [])⟩ = _
    rw [List.foldlM_append, foldlM_escapes]
    change some (State.mk (.scalar (Text.scalar (some (k.toList.reverse ++ []))) :: before)
      .idle) = _
    rw [Text.scalar, List.append_nil, List.reverse_reverse, String.ofList_toList]
  rw [List.foldlM_append, hquote]
  exact hs

end Scan

/-! ### Whole values -/

open Scan

theorem isBare_of_isDigit {c : Char} (hc : c.isDigit = true) : isBare c = true := by
  simp [isBare, Char.isAlphanum, hc]

/-- A written integer is read as the integer. -/
theorem spells_signed {z : Int} (hz : Number.fits64 z = true) :
    Spells (Number.signed z) [.scalar (.number (.integer z))] := by
  have hchars : ∀ c ∈ Number.signed z, c = '-' ∨ c.isDigit = true := by
    intro c hc
    unfold Number.signed at hc
    split at hc
    · exact (List.mem_cons.1 hc).imp_right Number.isDigit_of_mem_natural
    · exact .inr (Number.isDigit_of_mem_natural hc)
  have hbare : ∀ c ∈ Number.signed z, isBare c = true := by
    intro c hc
    rcases hchars c hc with rfl | hdigit
    · decide
    · exact isBare_of_isDigit hdigit
  rcases Literal.exists_of_fits64 hz with ⟨l, hl, hrange, hnumber⟩
  cases hcs : Number.signed z with
  | nil =>
    rw [hcs] at hl
    contradiction
  | cons c cs =>
    rw [hcs] at hl hbare
    have hc := hchars c (hcs ▸ List.mem_cons_self)
    -- an integer begins with a sign or a digit and so is none of the three words
    have hword : ∀ d ds, ¬(d = '-' ∨ d.isDigit = true) → c :: cs ≠ d :: ds := by
      rintro d ds hd heq
      exact hd ((List.cons.inj heq).1 ▸ hc)
    refine spells_bare (List.all_eq_true.2 hbare) ?_
    unfold bareScalar?
    rw [if_neg (hword 'n' _ (by decide)), if_neg (hword 't' _ (by decide)),
      if_neg (hword 'f' _ (by decide)), hl, Option.map_some, if_pos hrange, hnumber]

/-- What follows a value inside an array begins with a comma or a line break. -/
theorem prettyItems_eq_cons (depth : Nat) (vs : List Json) :
    ∃ c cs, prettyItems depth vs = c :: cs ∧ isBare c = false := by
  cases vs with
  | nil => exact ⟨'\n', _, by rw [prettyItems]; rfl, by decide⟩
  | cons v vs => exact ⟨',', _, by rw [prettyItems], by decide⟩

theorem prettyMembers_eq_cons (depth : Nat) (ms : List (String × Json)) :
    ∃ c cs, prettyMembers depth ms = c :: cs ∧ isBare c = false := by
  cases ms with
  | nil => exact ⟨'\n', _, by rw [prettyMembers]; rfl, by decide⟩
  | cons m ms => exact ⟨',', _, by rw [prettyMembers], by decide⟩

/-- An item on a line of its own, with what follows it. -/
theorem spells_item {depth : Nat} {cs : List Char} {ts : List Token} {vs : List Json}
    (hvalue : Spells cs ts) (hitems : Spells (prettyItems depth vs) (itemTokens vs)) :
    Spells (newline (depth + 1) ++ (cs ++ prettyItems depth vs)) (ts ++ itemTokens vs) :=
  (hvalue.append hitems (prettyItems_eq_cons depth vs)).newline (depth + 1)

/-- A member on a line of its own, with what follows it. -/
theorem spells_member {depth : Nat} (k : String) {cs : List Char} {ts : List Token}
    {ms : List (String × Json)} (hvalue : Spells cs ts)
    (hmembers : Spells (prettyMembers depth ms) (memberTokens ms)) :
    Spells (newline (depth + 1) ++ (quoted k ++ ':' :: ' ' :: (cs ++ prettyMembers depth ms)))
      (.scalar (.text k) :: .colon :: (ts ++ memberTokens ms)) := by
  have hbehind := hvalue.append hmembers (prettyMembers_eq_cons depth ms)
  have hcolon := (hbehind.blank (c := ' ') fun _ => rfl).mark (c := ':') fun _ => rfl
  exact (hcolon.quoted k).newline (depth + 1)

mutual

/-- The indented layout of a plain value spells its tokens. -/
theorem spells_pretty (depth : Nat) : ∀ v : Json, v.Plain → Spells (prettyChars depth v) v.tokens
  | .null, _ => spells_bare rfl rfl
  | .bool true, _ => spells_bare rfl rfl
  | .bool false, _ => spells_bare rfl rfl
  | .number n, h => by
    rcases h with ⟨z, rfl, hz⟩
    exact spells_signed hz
  | .text s, _ => by
    have htext := spells_nil.quoted s
    rwa [List.append_nil] at htext
  | .array [], _ => (spells_nil.mark fun _ => rfl).mark fun _ => rfl
  | .array (v :: vs), h =>
    (spells_item (spells_pretty (depth + 1) v h.1) (spells_prettyItems depth vs h.2)).mark
      fun _ => rfl
  | .object [], _ => (spells_nil.mark fun _ => rfl).mark fun _ => rfl
  | .object ((k, v) :: ms), h =>
    (spells_member k (spells_pretty (depth + 1) v h.1) (spells_prettyMembers depth ms h.2)).mark
      fun _ => rfl
  | .unreadable, h => h.elim

/-- The further items of an array, broken into lines, spell their tokens. -/
theorem spells_prettyItems (depth : Nat) : ∀ vs : List Json, ArePlain vs →
    Spells (prettyItems depth vs) (itemTokens vs)
  | [], _ => (spells_nil.mark fun _ => rfl).newline depth
  | v :: vs, h =>
    (spells_item (spells_pretty (depth + 1) v h.1) (spells_prettyItems depth vs h.2)).mark
      fun _ => rfl

/-- So do the further members of an object. -/
theorem spells_prettyMembers (depth : Nat) : ∀ ms : List (String × Json), MembersArePlain ms →
    Spells (prettyMembers depth ms) (memberTokens ms)
  | [], _ => (spells_nil.mark fun _ => rfl).newline depth
  | (k, v) :: ms, h =>
    (spells_member k (spells_pretty (depth + 1) v h.1) (spells_prettyMembers depth ms h.2)).mark
      fun _ => rfl

end

/-! ## From tokens to values -/

section Parse

open Parse

/-- The phases in which a value may begin. -/
def Parse.Begins (p : Phase) : Prop := p = .value ∨ p = .firstItem

/-- Where a value may begin, any token but the end of an array begins one. -/
theorem Parse.step_of_begins {p : Phase} (hp : Begins p) (frames : List Frame) {t : Token}
    (ht : t ≠ .arrayEnd) : Parse.step ⟨frames, p⟩ t = beginValue frames t := by
  rcases hp with rfl | rfl
  · rfl
  · -- where an item may begin, the end of the array is the one token that is not taken for one
    cases t with
    | arrayEnd => exact absurd rfl ht
    | _ => rfl

mutual

/-- Where a value may begin, the tokens of a value are read as the value. -/
theorem foldlM_tokens (frames : List Frame) (p : Phase) (hp : Begins p) (rest : List Token) :
    ∀ v : Json, (v.tokens ++ rest).foldlM Parse.step ⟨frames, p⟩ =
      rest.foldlM Parse.step ⟨frames, .after v⟩
  | .null | .bool _ | .number _ | .text _ | .unreadable => by
    change (Token.scalar _ :: rest).foldlM Parse.step ⟨frames, p⟩ = _
    rw [List.foldlM_cons, step_of_begins hp frames (by simp)]
    rfl
  | .array [] => by
    rw [tokens, List.cons_append, List.foldlM_cons, step_of_begins hp frames (by simp)]
    rfl
  | .array (v :: vs) => by
    rw [tokens, List.cons_append, List.foldlM_cons, step_of_begins hp frames (by simp),
      List.append_assoc]
    -- a comma stands before each item but the first
    change (v.tokens ++ (itemTokens vs ++ rest)).foldlM Parse.step
      ⟨.array [] :: frames, .firstItem⟩ = _
    rw [foldlM_tokens _ _ (.inr rfl), foldlM_itemTokens]
    rfl
  | .object [] => by
    rw [tokens, List.cons_append, List.foldlM_cons, step_of_begins hp frames (by simp)]
    rfl
  | .object ((k, v) :: ms) => by
    rw [tokens, List.cons_append, List.foldlM_cons, step_of_begins hp frames (by simp)]
    change (v.tokens ++ memberTokens ms ++ rest).foldlM Parse.step
      ⟨.member (some []) k :: frames, .value⟩ = _
    rw [List.append_assoc, foldlM_tokens _ _ (.inl rfl), foldlM_memberTokens]
    rfl

/-- After an item, further items are read into the array that holds it. -/
theorem foldlM_itemTokens (frames : List Frame) (done : List Json) (v : Json) (rest : List Token) :
    ∀ vs : List Json, (itemTokens vs ++ rest).foldlM Parse.step ⟨.array done :: frames, .after v⟩ =
      rest.foldlM Parse.step ⟨frames, .after (.array ((v :: done).reverse ++ vs))⟩
  | [] => by
    rw [itemTokens, List.append_nil]
    rfl
  | w :: vs => by
    rw [itemTokens, List.cons_append, List.append_assoc]
    change (w.tokens ++ (itemTokens vs ++ rest)).foldlM Parse.step
      ⟨.array (v :: done) :: frames, .value⟩ = _
    rw [foldlM_tokens _ _ (.inl rfl), foldlM_itemTokens, List.reverse_cons, List.append_assoc]
    rfl

/-- After a member's value, further members are read into the object that holds it. -/
theorem foldlM_memberTokens (frames : List Frame) (done : List (String × Json)) (k : String)
    (v : Json) (rest : List Token) : ∀ ms : List (String × Json),
    (memberTokens ms ++ rest).foldlM Parse.step ⟨.member (some done) k :: frames, .after v⟩ =
      rest.foldlM Parse.step ⟨frames, .after (.object (((k, v) :: done).reverse ++ ms))⟩
  | [] => by
    rw [memberTokens, List.append_nil]
    rfl
  | (l, w) :: ms => by
    rw [memberTokens]
    change (w.tokens ++ memberTokens ms ++ rest).foldlM Parse.step
      ⟨.member (some ((k, v) :: done)) l :: frames, .value⟩ = _
    rw [List.append_assoc, foldlM_tokens _ _ (.inl rfl), foldlM_memberTokens, List.reverse_cons,
      List.append_assoc]
    rfl

end

/-- The tokens of a value are read as it. -/
theorem ofTokens?_tokens (v : Json) : ofTokens? v.tokens = some v := by
  have hread := foldlM_tokens [] .value (.inl rfl) [] v
  rw [List.append_nil] at hread
  unfold ofTokens?
  rw [hread]
  rfl

end Parse

/-- The text of a plain value is read as that value. -/
theorem parse_pretty {v : Json} (h : v.Plain) : parse v.pretty = .ok v := by
  unfold parse pretty
  rw [String.toList_ofList, (spells_pretty 0 v h).tokens?, Option.bind_some, ofTokens?_tokens]

end ToolGate.Json
