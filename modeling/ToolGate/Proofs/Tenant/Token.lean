import ToolGate.Tenant.Template

/-!
# Tokens by their positions

A text is filled in by one scan, but what comes out can be said without it. A token stands wherever
a name without braces is enclosed by braces, so two tokens never share a character. All tokens that
have a variable give way to its value at once, and every other character stays where it is. What is
put in is no part of the text, so whatever braces it holds, no token begins or ends in it.

* `TokenAt`: where a token stands in a text;
* `tokenAt_iff`: the scan cuts out every token, and nothing else;
* `PieceAt.unique`, `exists_pieceAt`: every position lies in exactly one piece;
* `Gives`: what one position gives to the result;
* `Gives.getElem?_parts`, `gives_of_getElem?_parts`: it is what its piece gives;
* `TenantVars.fill_replaces_tokens`: what a text is filled in to.
-/

namespace ToolGate

namespace Template

/-- Whether a token with the given name stands at a position of a text. -/
structure TokenAt (cs : List Char) (i : Nat) (name : List Char) : Prop where
  nonempty : name ≠ []
  braceless : ∀ c ∈ name, c ≠ '{' ∧ c ≠ '}'
  stands : ∃ before behind, cs = before ++ '{' :: (name ++ '}' :: behind) ∧ before.length = i

/-- What a position of a text gives to the text that is filled in. The first position of a token
with a variable gives the value, its further positions give nothing, and a position that lies in no
such token gives its character. -/
inductive Gives (vars : TenantVars) (cs : List Char) (i : Nat) : List Char → Prop where
  | value {name : List Char} {value : String} (htoken : TokenAt cs i name)
    (hvalue : vars.get? (String.ofList name) = some value) : Gives vars cs i value.toList
  | nothing {j : Nat} {name : List Char} {value : String} (htoken : TokenAt cs j name)
    (hvalue : vars.get? (String.ofList name) = some value) (hafter : j < i)
    (hwithin : i < j + (name.length + 2)) : Gives vars cs i []
  | character {c : Char} (hc : cs[i]? = some c)
    (houtside : ∀ j name value, TokenAt cs j name →
      vars.get? (String.ofList name) = some value → i < j ∨ j + (name.length + 2) ≤ i) :
    Gives vars cs i [c]

/-- Whether a text is another one with all tokens that have a variable replaced at once: every
position of the other one gives its part, in order, and nothing is added. -/
def ReplacedAtOnce (vars : TenantVars) (cs out : List Char) : Prop :=
  ∃ parts : List (List Char), parts.length = cs.length ∧
    (∀ i part, parts[i]? = some part → Gives vars cs i part) ∧ out = parts.flatten

/-! ## The scan finds every token -/

/-- Whatever is pending, an opening brace gives it up, and the scan begins anew behind the brace. -/
theorem exists_scan_append (pending : Pending) (before rest : List Char) :
    ∃ ps, scan pending (before ++ '{' :: rest) = ps ++ scan (some []) rest := by
  induction before generalizing pending with
  | nil =>
    refine ⟨pending.give, ?_⟩
    rw [List.nil_append, scan.eq_def]
    simp only [if_true]
  | cons c before ih =>
    -- in every branch the scan goes on over the shorter text, after some pieces
    have hgo : ∀ (given : List Piece) (pending' : Pending),
        ∃ ps, given ++ scan pending' (before ++ '{' :: rest) = ps ++ scan (some []) rest := by
      intro given pending'
      rcases ih pending' with ⟨ps, hps⟩
      exact ⟨given ++ ps, by rw [hps, List.append_assoc]⟩
    rw [List.cons_append, scan.eq_def]
    dsimp only
    split
    · exact hgo pending.give (some [])
    · split
      · exact hgo [.literal c] none
      · rename_i name
        split
        · split
          · have hrest := hgo (Pending.give (some name) ++ [.literal c]) none
            rwa [List.append_assoc] at hrest
          · exact hgo [.token name.reverse] none
        · exact hgo [] (some (c :: name))

/-- Behind an opening brace, a name up to a closing brace is a token. -/
theorem scan_name (read : List Char) {name : List Char} (hname : ∀ c ∈ name, c ≠ '{' ∧ c ≠ '}')
    (hne : read.reverse ++ name ≠ []) (behind : List Char) :
    scan (some read) (name ++ '}' :: behind) =
      .token (read.reverse ++ name) :: scan none behind := by
  induction name generalizing read with
  | nil =>
    have hread : read ≠ [] := by
      intro hnil
      exact hne (by rw [hnil]; rfl)
    rw [List.nil_append, List.append_nil, scan, if_neg (by decide), if_pos rfl, if_neg hread]
  | cons c name ih =>
    have hc := hname c List.mem_cons_self
    have hrest : ∀ d ∈ name, d ≠ '{' ∧ d ≠ '}' := by
      intro d hd
      exact hname d (List.mem_cons_of_mem c hd)
    have hread : (c :: read).reverse ++ name = read.reverse ++ c :: name := by simp
    have hgo := ih (c :: read) hrest (by simp)
    rw [List.cons_append, scan, if_neg hc.1]
    simp only [if_neg hc.2]
    rw [hgo, hread]

/-- The names of tokens are not empty and hold no brace. -/
theorem name_of_token_mem_scan {pending : Pending} {cs name : List Char}
    (hpending : ∀ read, pending = some read → ∀ c ∈ read, c ≠ '{' ∧ c ≠ '}')
    (h : Piece.token name ∈ scan pending cs) :
    name ≠ [] ∧ ∀ c ∈ name, c ≠ '{' ∧ c ≠ '}' := by
  have hgive : ∀ pending : Pending, Piece.token name ∉ pending.give := by
    intro pending hmem
    cases pending with
    | none => simp [Pending.give] at hmem
    | some read => simp [Pending.give] at hmem
  -- a token is cut out at a closing brace only (`case5`), from a name that holds no brace
  fun_induction scan pending cs with
  | case1 pending => exact absurd h (hgive pending)
  | case2 pending cs ih =>
    rcases List.mem_append.1 h with hmem | hmem
    · exact absurd hmem (hgive pending)
    · exact ih (by simp) hmem
  | case3 c cs _ ih =>
    have hmem : Piece.token name ∈ scan none cs := by simpa using h
    exact ih (by simp) hmem
  | case4 cs _ ih =>
    rcases List.mem_append.1 h with hmem | hmem
    · exact absurd hmem (hgive (some []))
    · have hmem : Piece.token name ∈ scan none cs := by simpa using hmem
      exact ih (by simp) hmem
  | case5 cs read hread _ ih =>
    rcases List.mem_cons.1 h with heq | hmem
    · have hname : name = read.reverse := Piece.token.inj heq
      have hbraceless := hpending read rfl
      rw [hname]
      refine ⟨List.reverse_ne_nil_iff.2 hread, ?_⟩
      intro c hc
      exact hbraceless c (List.mem_reverse.1 hc)
    · exact ih (by simp) hmem
  | case6 c cs hopen read hclose ih =>
    refine ih ?_ h
    intro read' hread' d hd
    cases hread'
    rcases List.mem_cons.1 hd with rfl | hd
    · exact ⟨hopen, hclose⟩
    · exact hpending read rfl d hd

/-! ## Pieces by their positions -/

/-- Whether a piece stands at a position of the text of pieces. -/
def PieceAt (ps : List Piece) (i : Nat) (p : Piece) : Prop :=
  ∃ before behind, ps = before ++ p :: behind ∧ (text before).length = i

theorem length_text_token (name : List Char) : (Piece.token name).text.length = name.length + 2 := by
  simp [Piece.text]

/-- The scan cuts out every token of a text, and what it cuts out as a token is one. -/
theorem tokenAt_iff {cs : List Char} {i : Nat} {name : List Char} :
    TokenAt cs i name ↔ PieceAt (ofText cs) i (.token name) := by
  constructor
  · rintro ⟨hne, hname, before, behind, rfl, rfl⟩
    rcases exists_scan_append none before (name ++ '}' :: behind) with ⟨ps, hps⟩
    have hscan : scan (some []) (name ++ '}' :: behind) = .token name :: scan none behind :=
      scan_name [] hname (by simpa using hne) behind
    refine ⟨ps, scan none behind, by rw [ofText, hps, hscan], ?_⟩
    -- what is cut out before the token is the text before it
    have htext := text_scan none (before ++ '{' :: (name ++ '}' :: behind))
    rw [hps, text_append, text_scan] at htext
    have hsame : text ps = before := by
      have hcut : text ps ++ '{' :: (name ++ '}' :: behind) =
          before ++ '{' :: (name ++ '}' :: behind) := by simpa [Pending.text] using htext
      exact List.append_cancel_right hcut
    rw [hsame]
  · rintro ⟨before, behind, hps, rfl⟩
    have hmem : Piece.token name ∈ scan none cs := by
      change Piece.token name ∈ ofText cs
      rw [hps]
      simp
    have hname := name_of_token_mem_scan (by simp) hmem
    refine ⟨hname.1, hname.2, text before, text behind, ?_, rfl⟩
    have htext := text_ofText cs
    rw [hps, text_append] at htext
    rw [← htext]
    simp [text, Piece.text]

/-- Every position of a text lies in a piece. -/
theorem exists_pieceAt {ps : List Piece} {i : Nat} (h : i < (text ps).length) :
    ∃ j p k, PieceAt ps j p ∧ k < p.text.length ∧ i = j + k := by
  induction ps generalizing i with
  | nil => simp [text] at h
  | cons p ps ih =>
    have hlength : (text (p :: ps)).length = p.text.length + (text ps).length := by simp [text]
    by_cases hfirst : i < p.text.length
    · exact ⟨0, p, i, ⟨[], ps, rfl, rfl⟩, hfirst, by omega⟩
    · rcases ih (i := i - p.text.length) (by omega) with
        ⟨j, q, k, ⟨before, behind, rfl, hj⟩, hk, hi⟩
      refine ⟨p.text.length + j, q, k, ⟨p :: before, behind, rfl, ?_⟩, hk, by omega⟩
      rw [← hj]
      simp [text]

theorem length_text_append_cons (before : List Piece) (p : Piece) (behind : List Piece) :
    (text (before ++ p :: behind)).length =
      (text before).length + (p.text.length + (text behind).length) := by
  simp [text]

/-- Two pieces are one and the same, or one ends before the other begins. -/
theorem PieceAt.unique {ps : List Piece} {i j : Nat} {p q : Piece} (hp : PieceAt ps i p)
    (hq : PieceAt ps j q) :
    i = j ∧ p = q ∨ i + p.text.length ≤ j ∨ j + q.text.length ≤ i := by
  rcases hp with ⟨before, behind, hps, rfl⟩
  rcases hq with ⟨before', behind', hps', rfl⟩
  rw [hps] at hps'
  -- what stands before one piece is a part of what stands before the other
  rcases List.append_eq_append_iff.1 hps' with ⟨between, rfl, hrest⟩ | ⟨between, rfl, hrest⟩
  · cases between with
    | nil =>
      have hpq : p = q := (List.cons.inj hrest).1
      exact .inl ⟨by simp, hpq⟩
    | cons r between =>
      have hpr : p = r := (List.cons.inj hrest).1
      rw [length_text_append_cons, hpr]
      omega
  · cases between with
    | nil =>
      have hqp : q = p := (List.cons.inj hrest).1
      exact .inl ⟨by simp, hqp.symm⟩
    | cons r between =>
      have hqr : q = r := (List.cons.inj hrest).1
      rw [length_text_append_cons, hqr]
      omega

/-! ## What positions give -/

namespace Piece

/-- The value that a piece gives way to, if it is a token with a variable. -/
def value? (vars : TenantVars) : Piece → Option String
  | literal _ => none
  | token name => vars.get? (String.ofList name)

/-- What the positions of a piece give, one after another. -/
def parts (vars : TenantVars) (p : Piece) : List (List Char) :=
  match p.value? vars with
  | some value => value.toList :: List.replicate (p.text.length - 1) []
  | none => p.text.map ([·])

theorem text_ne_nil (p : Piece) : p.text ≠ [] := by
  cases p <;> simp [text]

/-- Each position of a piece gives one part. -/
theorem length_parts (vars : TenantVars) (p : Piece) : (p.parts vars).length = p.text.length := by
  have hpos : 0 < p.text.length := List.length_pos_iff.2 p.text_ne_nil
  unfold parts
  split
  · rw [List.length_cons, List.length_replicate]
    omega
  · rw [List.length_map]

/-- The parts of a piece make up what it is filled in to. -/
theorem flatten_parts (vars : TenantVars) (p : Piece) : (p.parts vars).flatten = p.fill vars := by
  cases p with
  | literal c => rfl
  | token name =>
    unfold parts fill value?
    dsimp only
    cases vars.get? (String.ofList name) with
    | some value => simp
    | none => simp [← List.flatMap_def]

/-- A piece that gives way to a value is a token. -/
theorem eq_token_of_value? {vars : TenantVars} {p : Piece} {value : String}
    (h : p.value? vars = some value) :
    ∃ name, p = token name ∧ vars.get? (String.ofList name) = some value := by
  cases p with
  | literal c => cases h
  | token name => exact ⟨name, rfl, h⟩

end Piece

/-- What the positions of the text of pieces give, one after another. -/
def parts (vars : TenantVars) (ps : List Piece) : List (List Char) := ps.flatMap (Piece.parts vars)

theorem length_parts (vars : TenantVars) (ps : List Piece) :
    (parts vars ps).length = (text ps).length := by
  simp [parts, text, List.length_flatMap, Piece.length_parts]

/-- The parts of a text make up what it is filled in to. -/
theorem flatten_parts (vars : TenantVars) (ps : List Piece) :
    (parts vars ps).flatten = fill vars ps := by
  induction ps with
  | nil => rfl
  | cons p ps ih =>
    have hcons : parts vars (p :: ps) = p.parts vars ++ parts vars ps := rfl
    have hfill : fill vars (p :: ps) = p.fill vars ++ fill vars ps := rfl
    rw [hcons, hfill, List.flatten_append, Piece.flatten_parts, ih]

section PieceAt

variable {vars : TenantVars} {ps : List Piece} {j k : Nat} {p : Piece}

/-- The characters of a piece stand where the piece does. -/
theorem PieceAt.getElem?_text (h : PieceAt ps j p) (hk : k < p.text.length) :
    (text ps)[j + k]? = p.text[k]? := by
  rcases h with ⟨before, behind, rfl, rfl⟩
  have htext : text (before ++ p :: behind) = text before ++ (p.text ++ text behind) := by
    simp [text]
  rw [htext, List.getElem?_append_right (by omega), Nat.add_sub_cancel_left,
    List.getElem?_append_left hk]

/-- So do its parts. -/
theorem PieceAt.getElem?_parts (h : PieceAt ps j p) (hk : k < p.text.length) :
    (parts vars ps)[j + k]? = (p.parts vars)[k]? := by
  rcases h with ⟨before, behind, rfl, rfl⟩
  have hparts : parts vars (before ++ p :: behind) =
      parts vars before ++ (p.parts vars ++ parts vars behind) := by simp [parts]
  have hlength := length_parts vars before
  rw [hparts, List.getElem?_append_right (by omega), hlength, Nat.add_sub_cancel_left,
    List.getElem?_append_left (by rwa [Piece.length_parts])]

/-- A piece that gives way to a value gives it at its first position, and nothing behind. -/
theorem PieceAt.getElem?_parts_of_value {value : String} (h : PieceAt ps j p)
    (hvalue : p.value? vars = some value) (hk : k < p.text.length) :
    (parts vars ps)[j + k]? = some (if k = 0 then value.toList else []) := by
  rw [h.getElem?_parts hk]
  simp only [Piece.parts, hvalue]
  cases k with
  | zero => rfl
  | succ k =>
    rw [List.getElem?_cons_succ, if_neg (by omega)]
    exact List.getElem?_replicate_of_lt (by omega)

/-- A piece that stays gives its characters. -/
theorem PieceAt.getElem?_parts_of_kept (h : PieceAt ps j p) (hvalue : p.value? vars = none)
    (hk : k < p.text.length) : (parts vars ps)[j + k]? = (text ps)[j + k]?.map ([·]) := by
  rw [h.getElem?_parts hk, h.getElem?_text hk]
  simp only [Piece.parts, hvalue, List.getElem?_map]

end PieceAt

section Gives

variable {vars : TenantVars} {cs : List Char} {i : Nat} {part : List Char}

/-- What a position gives is what the piece gives in which it lies. -/
theorem Gives.getElem?_parts (h : Gives vars cs i part) :
    (parts vars (ofText cs))[i]? = some part := by
  cases h with
  | @value name value htoken hvalue =>
    have hpiece := tokenAt_iff.1 htoken
    have hpos : 0 < (Piece.token name).text.length := by
      rw [length_text_token]
      omega
    exact hpiece.getElem?_parts_of_value hvalue hpos
  | @nothing j name value htoken hvalue hafter hwithin =>
    have hpiece := tokenAt_iff.1 htoken
    have hk : i - j < (Piece.token name).text.length := by
      rw [length_text_token]
      omega
    have hi : j + (i - j) = i := by omega
    have hget := hpiece.getElem?_parts_of_value hvalue hk
    rw [hi, if_neg (by omega)] at hget
    exact hget
  | @character c hc houtside =>
    have hlength : i < (text (ofText cs)).length := by
      rw [text_ofText]
      exact (List.getElem?_eq_some_iff.1 hc).1
    rcases exists_pieceAt hlength with ⟨j, p, k, hpiece, hk, rfl⟩
    cases hvalue : p.value? vars with
    | none =>
      rw [hpiece.getElem?_parts_of_kept hvalue hk, text_ofText, hc]
      rfl
    | some value =>
      -- the position would lie in a token with a variable
      rcases Piece.eq_token_of_value? hvalue with ⟨name, rfl, hname⟩
      have hout := houtside j name value (tokenAt_iff.2 hpiece) hname
      rw [length_text_token] at hk
      omega

/-- What the piece gives in which a position lies is what the position gives. -/
theorem gives_of_getElem?_parts (h : (parts vars (ofText cs))[i]? = some part) :
    Gives vars cs i part := by
  have hlength : i < (text (ofText cs)).length := by
    rw [← length_parts vars]
    exact (List.getElem?_eq_some_iff.1 h).1
  rcases exists_pieceAt hlength with ⟨j, p, k, hpiece, hk, rfl⟩
  cases hvalue : p.value? vars with
  | some value =>
    rcases Piece.eq_token_of_value? hvalue with ⟨name, rfl, hname⟩
    have htoken := tokenAt_iff.2 hpiece
    have hpart := Option.some.inj ((hpiece.getElem?_parts_of_value hvalue hk).symm.trans h)
    rw [length_text_token] at hk
    by_cases hfirst : k = 0
    · rw [if_pos hfirst] at hpart
      rw [hfirst, ← hpart]
      exact .value htoken hname
    · rw [if_neg hfirst] at hpart
      rw [← hpart]
      exact .nothing htoken hname (by omega) (by omega)
  | none =>
    rw [hpiece.getElem?_parts_of_kept hvalue hk, text_ofText] at h
    rcases Option.map_eq_some_iff.1 h with ⟨c, hc, rfl⟩
    refine .character hc ?_
    intro j' name value htoken hname
    -- the piece of the position is no token with a variable, so it is another one
    rcases hpiece.unique (tokenAt_iff.1 htoken) with ⟨_, rfl⟩ | hbefore | hbehind
    · rw [Piece.value?, hname] at hvalue
      cases hvalue
    · omega
    · rw [length_text_token] at hbehind
      omega

end Gives

/-- A text is replaced at once by what its pieces give, and by nothing else. -/
theorem replacedAtOnce_iff (vars : TenantVars) (cs out : List Char) :
    ReplacedAtOnce vars cs out ↔ out = fill vars (ofText cs) := by
  have hlength : (parts vars (ofText cs)).length = cs.length := by
    rw [length_parts, text_ofText]
  constructor
  · rintro ⟨given, hgiven, hgives, rfl⟩
    have hsame : given = parts vars (ofText cs) := by
      apply List.ext_getElem?
      intro i
      cases hpart : given[i]? with
      | some part => exact (hgives i part hpart).getElem?_parts.symm
      | none =>
        have hi := List.getElem?_eq_none_iff.1 hpart
        exact (List.getElem?_eq_none_iff.2 (by omega)).symm
    rw [hsame, flatten_parts]
  · intro hout
    refine ⟨parts vars (ofText cs), hlength, ?_, by rw [hout, flatten_parts]⟩
    intro i part hpart
    exact gives_of_getElem?_parts hpart

end Template

open Template (TokenAt ReplacedAtOnce)

/-- No two tokens of a text share a character. A text is filled in by replacing all tokens that have
a variable at once: each by its value, as it is, while every other character stays, in its place
among the others. -/
theorem TenantVars.fill_replaces_tokens (vars : TenantVars) (s : String) :
    (∀ i j n m, TokenAt s.toList i n → TokenAt s.toList j m →
      i = j ∧ n = m ∨ i + (n.length + 2) ≤ j ∨ j + (m.length + 2) ≤ i) ∧
    ∀ out : String, ReplacedAtOnce vars s.toList out.toList ↔ out = vars.fill s := by
  constructor
  · intro i j n m hn hm
    have hapart := (Template.tokenAt_iff.1 hn).unique (Template.tokenAt_iff.1 hm)
    rw [Template.length_text_token, Template.length_text_token] at hapart
    rcases hapart with ⟨hij, hname⟩ | hapart
    · exact .inl ⟨hij, Template.Piece.token.inj hname⟩
    · exact .inr hapart
  · intro out
    rw [Template.replacedAtOnce_iff]
    unfold TenantVars.fill
    constructor
    · intro hout
      rw [← hout, String.ofList_toList]
    · intro hout
      rw [hout, String.toList_ofList]

/-- Two tokens without anything between them, inside further braces. The value of the first one
looks like the second one, and is not filled in again. -/
theorem TenantVars.fill_replaces_adjacent_tokens :
    let cs := ['{', '{', 'a', '}', '{', 'b', '}', '}', '{', '}']
    let vars : TenantVars := ((∅ : TenantVars).insert "a" (String.ofList ['{', 'b', '}'])).insert
      "b" "x"
    TokenAt cs 1 ['a'] ∧ TokenAt cs 4 ['b'] ∧ 1 + (['a'].length + 2) ≤ 4 ∧
      ReplacedAtOnce vars cs ['{', '{', 'b', '}', 'x', '}', '{', '}'] := by
  intro cs vars
  have ha : TokenAt cs 1 ['a'] :=
    ⟨by simp, by simp, ['{'], ['{', 'b', '}', '}', '{', '}'], rfl, rfl⟩
  have hb : TokenAt cs 4 ['b'] :=
    ⟨by simp, by simp, ['{', '{', 'a', '}'], ['}', '{', '}'], rfl, rfl⟩
  have hfill := TenantVars.fill_replaces_tokens vars (String.ofList cs)
  rw [String.toList_ofList] at hfill
  have hout := (hfill.2 (String.ofList ['{', '{', 'b', '}', 'x', '}', '{', '}'])).2
    (by decide +kernel)
  rw [String.toList_ofList] at hout
  refine ⟨ha, hb, ?_, hout⟩
  rcases hfill.1 1 4 _ _ ha hb with ⟨heq, _⟩ | hapart | hapart
  · cases heq
  · exact hapart
  · exact absurd hapart (by decide)

end ToolGate
