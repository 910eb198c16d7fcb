import UpdateExpr.Proofs.Related
import UpdateExpr.Proofs.Syntax.Extent
import UpdateExpr.Proofs.Syntax.Skeleton

/-!
# Reading looks at tokens only

Two texts may be read side by side. If their tokens say the same, one by one, the parser does the
same on both sides: it gives trees that differ in their places at most, meets the same names, and
reports the same issues at tokens that correspond. Where a token stands goes into spans and nowhere
else.

The problems are put in the order of their starts at the end. Every problem is at a token, and the
tokens of a text start one behind the other, so this order is that of the tokens on either side.

## Main definitions

* `Token.content`: what a token says
* `Token.Corresponds`: two tokens say the same and are one of some pairs
* `ParseState.Alike`, `ParseM.Alike`: two runs of the parser side by side

## Main results

* `ParseM.Alike.bind`: rules that go side by side, one after another
* `ParseM.alike_expression`: the rule for expressions on both sides
* `parse_invariant`: what is read of two texts whose tokens say the same
-/

namespace UpdateExpr

/-- What a token says, wherever it stands and however it is written. -/
def Token.content (t : Token) : TokenKind × String × TokenFlags :=
  (t.kind, t.value, t.flags)

/-- Two tokens are one of some pairs, and say the same. -/
structure Token.Corresponds (pairs : List (Token × Token)) (t t' : Token) : Prop where
  mem : (t, t') ∈ pairs
  kind : t.kind = t'.kind
  value : t.value = t'.value
  flags : t.flags = t'.flags

/-- Two problems are the same issue, at tokens that correspond. -/
structure Problem.Alike (pairs : List (Token × Token)) (p p' : Problem) : Prop where
  issue : p.issue = p'.issue
  at_token : ∃ t t', (t, t') ∈ pairs ∧ p.span = t.span ∧ p'.span = t'.span

/-- Two parsers are at tokens that correspond, and have met and reported the same. -/
structure ParseState.Alike (pairs : List (Token × Token)) (s s' : ParseState) : Prop where
  current : s.current.Corresponds pairs s'.current
  later : List.Forall₂ (Token.Corresponds pairs) s.later s'.later
  cut : s.cut = s'.cut
  names : s.names = s'.names
  problems : List.Forall₂ (Problem.Alike pairs) s.problems s'.problems

variable {pairs : List (Token × Token)}

/-! ## Steps side by side -/

namespace ParseState.Alike

variable {s s' : ParseState}

theorem advance (h : s.Alike pairs s') : s.advance.Alike pairs s'.advance := by
  have hl := h.later
  unfold ParseState.advance
  generalize s.later = later at hl ⊢
  generalize s'.later = later' at hl ⊢
  cases hl with
  | nil => exact ⟨h.current, .nil, h.cut, h.names, h.problems⟩
  | cons ht hts => exact ⟨ht, hts, h.cut, h.names, h.problems⟩

theorem meet (h : s.Alike pairs s') {name name' : String} (hn : name = name') :
    (s.meet name).Alike pairs (s'.meet name') := by
  subst hn
  refine ⟨h.current, h.later, h.cut, ?_, h.problems⟩
  exact congrArg (·.insert name) h.names

theorem report (h : s.Alike pairs s') {t t' : Token} (ht : t.Corresponds pairs t') (issue : Issue)
    (args args' : List String) :
    (s.report issue t.span args).Alike pairs (s'.report issue t'.span args') := by
  unfold ParseState.report
  by_cases hc : s.cut = true
  · rw [if_pos hc, if_pos (h.cut ▸ hc)]
    exact h
  · rw [if_neg hc, if_neg (h.cut ▸ hc)]
    refine ⟨h.current, h.later, h.cut, h.names, List.rel_append h.problems ?_⟩
    exact .cons ⟨rfl, t, t', ht.mem, rfl, rfl⟩ .nil

/-- As many tokens are skipped on both sides. -/
theorem skipToEnd (h : s.Alike pairs s') : s.skipToEnd.Alike pairs s'.skipToEnd := by
  have hl := h.later
  unfold ParseState.skipToEnd
  generalize s.later = later at hl ⊢
  generalize s'.later = later' at hl ⊢
  induction hl generalizing s s' with
  | nil => exact h
  | cons _ _ ih => exact ih h.advance

theorem nextIs (h : s.Alike pairs s') (kind : TokenKind) : s.nextIs kind = s'.nextIs kind := by
  have hl := h.later
  unfold ParseState.nextIs
  generalize s.later = later at hl ⊢
  generalize s'.later = later' at hl ⊢
  cases hl with
  | nil => rfl
  | cons ht _ => simp [ht.kind]

end ParseState.Alike

/-- Two rules do the same on parsers side by side, and give what is related. -/
def ParseM.Alike (pairs : List (Token × Token)) {α β : Type} (r : α → β → Prop) (m : ParseM α)
    (m' : ParseM β) : Prop :=
  ∀ s s' : ParseState, s.Alike pairs s' → r (m s).1 (m' s').1 ∧ (m s).2.Alike pairs (m' s').2

namespace ParseM.Alike

variable {α β γ δ : Type} {r : α → β → Prop} {q : γ → δ → Prop} {m : ParseM α} {m' : ParseM β}
  {f : α → ParseM γ} {f' : β → ParseM δ} {k : ParseM γ} {k' : ParseM δ}

theorem pure {a : α} {a' : β} (h : r a a') : Alike pairs r (pure a) (pure a') :=
  fun _ _ hs => ⟨h, hs⟩

/-- **One rule after another**, side by side. -/
theorem bind (h : Alike pairs r m m') (hf : ∀ a a', r a a' → Alike pairs q (f a) (f' a')) :
    Alike pairs q (m >>= f) (m' >>= f') := by
  intro s s' hs
  obtain ⟨ha, hs₁⟩ := h s s' hs
  exact hf _ _ ha _ _ hs₁

/-- Both sides look at the token that is read next. -/
theorem current {f : Token → ParseM γ} {f' : Token → ParseM δ}
    (hf : ∀ t t', t.Corresponds pairs t' → Alike pairs q (f t) (f' t')) :
    Alike pairs q (currentToken >>= f) (currentToken >>= f') :=
  fun s s' hs => hf _ _ hs.current s s' hs

theorem get {f f' : ParseState → ParseM γ} {q : γ → γ → Prop}
    (hf : ∀ s s' : ParseState, s.Alike pairs s' → Alike pairs q (f s) (f' s')) :
    Alike pairs q (MonadState.get >>= f) (MonadState.get >>= f') :=
  fun s s' hs => hf s s' hs s s' hs

theorem advance (hk : Alike pairs q k k') :
    Alike pairs q (UpdateExpr.advance >>= fun _ => k) (UpdateExpr.advance >>= fun _ => k') :=
  fun _ _ hs => hk _ _ hs.advance

theorem meet {name name' : String} (hn : name = name') (hk : Alike pairs q k k') :
    Alike pairs q (modify (·.meet name) >>= fun _ => k) (modify (·.meet name') >>= fun _ => k') :=
  fun _ _ hs => hk _ _ (hs.meet hn)

/-- **A problem is reported at tokens that correspond**, whatever its message says. -/
theorem report {t t' : Token} (ht : t.Corresponds pairs t') {issue : Issue}
    {args args' : List String} (hk : Alike pairs q k k') :
    Alike pairs q (reportAt issue t.span args >>= fun _ => k)
      (reportAt issue t'.span args' >>= fun _ => k') :=
  fun _ _ hs => hk _ _ (hs.report ht issue args args')

/-- **The spans on both sides are of no matter.** -/
theorem spanFrom {start start' : Nat} {f : Span → ParseM γ} {f' : Span → ParseM δ}
    (hf : ∀ span span', Alike pairs q (f span) (f' span')) :
    Alike pairs q (UpdateExpr.spanFrom start >>= f) (UpdateExpr.spanFrom start' >>= f') :=
  fun s s' hs => hf _ _ s s' hs

end ParseM.Alike

namespace ParseM

open SyntaxTree (InitializerAlike EntriesAlike)

variable {nested nested' : ParseM SyntaxTree} {target target' : SyntaxTree}
  {start start' n bound : Nat}

/-! ## Rules side by side -/

theorem alike_expect (kind : TokenKind) : Alike pairs Eq (expect kind) (expect kind) := by
  refine Alike.current fun t t' ht => ?_
  rw [← ht.kind]
  split
  · exact Alike.advance (Alike.pure rfl)
  · exact Alike.report ht (Alike.pure rfl)

theorem alike_name : Alike pairs Identifier.Alike parseName parseName := by
  refine Alike.current fun t t' ht => ?_
  rw [← ht.kind]
  split
  · exact Alike.meet ht.value (Alike.advance (Alike.pure ⟨ht.value, rfl⟩))
  · exact Alike.report ht (Alike.get fun s s' _ => Alike.pure (Identifier.Alike.hole _ _))

theorem alike_number {t t' : Token} (ht : t.Corresponds pairs t') :
    Alike pairs SyntaxTree.Alike (parseNumber t) (parseNumber t') := by
  unfold parseNumber
  rw [← ht.value, ← ht.flags]
  by_cases hv : LiteralValue.ofNumber t.value.toList t.flags = .invalid
  · simp only [hv, if_true]
    exact Alike.report ht (Alike.advance (Alike.pure .literal))
  · simp only [hv, if_false]
    exact Alike.advance (Alike.pure .literal)

theorem alike_primary (h : Alike pairs SyntaxTree.Alike nested nested') :
    Alike pairs SyntaxTree.Alike (parsePrimary nested) (parsePrimary nested') := by
  refine Alike.current fun t t' ht => ?_
  rw [← ht.kind]
  split
  · exact alike_number ht
  · refine Alike.advance (Alike.pure ?_)
    rw [← ht.value, ← ht.flags]
    exact .literal
  · exact Alike.advance (Alike.pure .keyword)
  · exact Alike.advance (Alike.pure .keyword)
  · exact Alike.advance (Alike.pure .keyword)
  · exact alike_name.bind fun _ _ hid => Alike.pure (.identifier hid)
  · refine Alike.advance (h.bind fun _ _ hinner => ?_)
    refine (alike_expect .closeParen).bind fun _ _ _ => ?_
    exact Alike.spanFrom fun _ _ => Alike.pure hinner.paren
  · exact Alike.advance (Alike.pure (.hole _ _))
  · exact Alike.report ht (Alike.pure (.hole _ _))

theorem alike_call (h : target.Alike target') :
    Alike pairs SyntaxTree.Alike (parseCall start target) (parseCall start' target') := by
  refine Alike.current fun t t' ht => ?_
  rw [← ht.kind]
  split
  · refine Alike.advance ((alike_expect .closeParen).bind fun _ _ _ => ?_)
    exact Alike.spanFrom fun _ _ => Alike.pure h.call
  · exact Alike.pure h

theorem alike_members (h : target.Alike target') :
    Alike pairs SyntaxTree.Alike (parseMembers start n target) (parseMembers start' n target') := by
  induction n generalizing target target' with
  | zero => exact Alike.pure h
  | succ n ih =>
    refine Alike.current fun t t' ht => ?_
    rw [← ht.kind]
    split
    · refine Alike.advance (alike_name.bind fun _ _ hid => ?_)
      refine Alike.spanFrom fun _ _ => ?_
      exact (alike_call (h.access hid)).bind fun _ _ hcall => ih hcall
    · exact Alike.pure h

theorem alike_bare_initializer (h : Alike pairs SyntaxTree.Alike nested nested') :
    Alike pairs InitializerAlike (parseBareInitializer nested start)
      (parseBareInitializer nested' start') :=
  h.bind fun _ _ hvalue => Alike.spanFrom fun _ _ => Alike.pure ⟨.none, hvalue⟩

theorem alike_named_initializer (h : Alike pairs SyntaxTree.Alike nested nested')
    {name name' : Identifier} (hname : name.Alike name') :
    Alike pairs InitializerAlike (parseNamedInitializer nested start name)
      (parseNamedInitializer nested' start' name') :=
  Alike.advance <| h.bind fun _ _ hvalue =>
    Alike.spanFrom fun _ _ => Alike.pure ⟨.some hname, hvalue⟩

theorem alike_initializer (h : Alike pairs SyntaxTree.Alike nested nested') :
    Alike pairs InitializerAlike (parseInitializer nested) (parseInitializer nested') := by
  refine Alike.current fun t t' ht => ?_
  rw [← ht.kind]
  split
  · refine Alike.meet ht.value (Alike.get fun s s' hs => ?_)
    rw [← hs.nextIs]
    split
    · exact Alike.advance (alike_named_initializer h ⟨ht.value, rfl⟩)
    · exact alike_bare_initializer h
  · exact Alike.report ht (alike_named_initializer h (.hole _ _))
  · exact alike_bare_initializer h

theorem alike_initializers (h : Alike pairs SyntaxTree.Alike nested nested') :
    Alike pairs (fun l l' => EntriesAlike l.1 l'.1 ∧ l.2 = l'.2) (parseInitializers nested n)
      (parseInitializers nested' n) := by
  induction n with
  | zero => exact Alike.pure ⟨.nil, rfl⟩
  | succ n ih =>
    refine Alike.current fun t t' ht => ?_
    rw [← ht.kind]
    split
    · exact Alike.pure ⟨.nil, rfl⟩
    · refine (alike_initializer h).bind fun entry entry' hentry => Alike.current fun c c' hc => ?_
      rw [← hc.kind]
      split
      · refine Alike.advance (Alike.current fun b b' hb => ih.bind ?_)
        rintro ⟨entries, trailing⟩ ⟨entries', _⟩ ⟨hentries, rfl⟩
        refine Alike.pure ⟨.cons hentry hentries, ?_⟩
        rw [hb.kind]
      · exact Alike.pure ⟨.cons hentry .nil, rfl⟩

theorem alike_update (h : Alike pairs SyntaxTree.Alike nested nested')
    (hreceiver : target.Alike target') :
    Alike pairs SyntaxTree.Alike (parseUpdate nested n target) (parseUpdate nested' n target') := by
  refine Alike.advance (Alike.current fun t t' _ => (alike_expect .openBrace).bind ?_)
  rintro there _ rfl
  split
  · refine Alike.get fun s s' _ => (alike_initializers h).bind ?_
    rintro ⟨entries, trailing⟩ ⟨entries', _⟩ ⟨hentries, rfl⟩
    refine Alike.current fun _ _ _ => (alike_expect .closeBrace).bind fun _ _ _ => ?_
    exact Alike.spanFrom fun _ _ => Alike.pure (hreceiver.update hentries rfl)
  · exact Alike.spanFrom fun _ _ => Alike.pure (hreceiver.update .nil rfl)

theorem alike_updates (h : Alike pairs SyntaxTree.Alike nested nested')
    (hreceiver : target.Alike target') :
    Alike pairs SyntaxTree.Alike (parseUpdates nested bound n target)
      (parseUpdates nested' bound n target') := by
  induction n generalizing target target' with
  | zero => exact Alike.pure hreceiver
  | succ n ih =>
    refine Alike.current fun t t' ht => ?_
    rw [← ht.kind]
    split
    · exact (alike_update h hreceiver).bind fun _ _ htree => ih htree
    · exact Alike.pure hreceiver

theorem alike_cut : Alike pairs SyntaxTree.Alike parseCut parseCut := by
  refine Alike.current fun t t' ht => Alike.report ht ?_
  intro s s' hs
  have hcut : ({ s with cut := true } : ParseState).Alike pairs { s' with cut := true } :=
    ⟨hs.current, hs.later, rfl, hs.names, hs.problems⟩
  exact ⟨.hole _ _, hcut.skipToEnd⟩

/-- **Expressions are read alike**, at every depth. -/
theorem alike_expression (bound depth : Nat) :
    Alike pairs SyntaxTree.Alike (parseExpression bound depth) (parseExpression bound depth) := by
  induction depth with
  | zero => exact alike_cut
  | succ depth ih =>
    refine Alike.current fun t t' _ => (alike_primary ih).bind fun _ _ hprimary => ?_
    exact (alike_members hprimary).bind fun _ _ htarget => alike_updates ih htarget

theorem alike_root (bound : Nat) :
    Alike pairs SyntaxTree.Alike (parseRoot bound) (parseRoot bound) := by
  refine (alike_expression bound maxParseDepth).bind fun tree tree' htree => ?_
  refine Alike.current fun t t' ht => ?_
  rw [← ht.kind]
  split
  · exact Alike.report ht (Alike.pure htree)
  · exact Alike.pure htree

end ParseM

/-! ## The order of problems -/

/-- Each token of a text starts behind those before it. -/
theorem Token.start_listFrom (n : Nat) (p : Position) :
    (∀ t ∈ listFrom n p, p.offset ≤ t.span.start) ∧
      (listFrom n p).Pairwise fun t u => t.span.start < u.span.start := by
  induction n generalizing p with
  | zero => exact ⟨nofun, .nil⟩
  | succ n ih =>
    have hspan : (next p).1.span = _ := p.token_span
    have hle : p.offset ≤ (next p).1.span.start := by
      rw [hspan]
      exact p.offset_le_tokenStart
    unfold listFrom
    by_cases he : (next p).1.kind = .endOfFile
    · simp only [he, if_true]
      exact ⟨List.forall_mem_singleton.2 hle, List.pairwise_singleton _ _⟩
    · simp only [he, if_false]
      obtain ⟨hbehind, hsorted⟩ := ih (next p).2
      have hlt : (next p).1.span.start < (next p).2.offset := by
        rw [hspan]
        exact Position.tokenStart_lt_after he
      refine ⟨List.forall_mem_cons.2 ⟨hle, fun t ht => ?_⟩, List.pairwise_cons.2 ⟨?_, hsorted⟩⟩
      · exact Nat.le_trans hle (Nat.le_of_lt (Nat.lt_of_lt_of_le hlt (hbehind t ht)))
      · exact fun t ht => Nat.lt_of_lt_of_le hlt (hbehind t ht)

/-- Two pairs of tokens stand in the same order on both sides, if the tokens on either side stand
one behind the other. -/
theorem Token.start_le_iff {ts ts' : List Token}
    (h : ts.Pairwise fun t u => t.span.start < u.span.start)
    (h' : ts'.Pairwise fun t u => t.span.start < u.span.start) {t t' u u' : Token}
    (ht : (t, t') ∈ ts.zip ts') (hu : (u, u') ∈ ts.zip ts') :
    t.span.start ≤ u.span.start ↔ t'.span.start ≤ u'.span.start := by
  have hzip : (ts.zip ts').Pairwise fun x y =>
      x.1.span.start < y.1.span.start ∧ x.2.span.start < y.2.span.start := by
    rw [List.pairwise_iff_getElem] at h h' ⊢
    intro i j hi hj hij
    rw [List.length_zip] at hi hj
    simp only [List.getElem_zip]
    exact ⟨h i j _ _ hij, h' i j _ _ hij⟩
  let SameOrder (x y : Token × Token) : Prop :=
    x.1.span.start ≤ y.1.span.start ↔ x.2.span.start ≤ y.2.span.start
  have hbefore : (ts.zip ts').Pairwise SameOrder :=
    hzip.imp fun hxy => by simp only [SameOrder]; omega
  have hbehind : (ts.zip ts').Pairwise (flip SameOrder) :=
    hzip.imp fun hxy => by simp only [flip, SameOrder]; omega
  exact hbefore.forall_of_forall_of_flip (fun _ _ => by simp [SameOrder]) hbehind ht hu

theorem Problem.Alike.startsBefore {ts ts' : List Token}
    (h : ts.Pairwise fun t u => t.span.start < u.span.start)
    (h' : ts'.Pairwise fun t u => t.span.start < u.span.start) {p p' q q' : Problem}
    (hp : p.Alike (ts.zip ts') p') (hq : q.Alike (ts.zip ts') q') :
    p.startsBefore q = p'.startsBefore q' := by
  obtain ⟨-, t, t', ht, hpt, hpt'⟩ := hp
  obtain ⟨-, u, u', hu, hqu, hqu'⟩ := hq
  rw [startsBefore.eq_def, startsBefore.eq_def, hpt, hpt', hqu, hqu']
  exact decide_eq_decide.2 (Token.start_le_iff h h' ht hu)

/-! ## Whole texts -/

/-- Tokens that correspond have problems that are alike. -/
theorem Token.Corresponds.problem? {t t' : Token} (h : t.Corresponds pairs t') :
    Option.Rel (Problem.Alike pairs) t.problem? t'.problem? := by
  unfold Token.problem? Token.issue?
  rw [← h.kind, ← h.flags]
  split
  · exact .some ⟨rfl, t, t', h.mem, rfl, rfl⟩
  · split
    · exact .some ⟨rfl, t, t', h.mem, rfl, rfl⟩
    · exact .none

/-- Tokens that say the same correspond, each to the one at its place. -/
theorem Token.forall₂_corresponds {ts ts' : List Token} (h : ts.map content = ts'.map content) :
    List.Forall₂ (Corresponds (ts.zip ts')) ts ts' := by
  have hlen : ts.length = ts'.length := by
    rw [← List.length_map content, h, List.length_map]
  refine List.forall₂_iff_zip.2 ⟨hlen, fun {t t'} hmem => ?_⟩
  have hcontent : List.Forall₂ (fun t t' => content t = content t') ts ts' := by
    refine List.forall₂_map_left_iff.1 (List.forall₂_map_right_iff.1 ?_)
    rw [h]
    exact forall₂_eq_self _
  have heq := (List.forall₂_iff_zip.1 hcontent).2 hmem
  exact ⟨hmem, congrArg (·.1) heq, congrArg (·.2.1) heq, congrArg (·.2.2) heq⟩

theorem ParseState.alike_ofTokens {ts ts' : List Token} (hne : ts ≠ [])
    (h : List.Forall₂ (Token.Corresponds pairs) ts ts') :
    (ofTokens ts).Alike pairs (ofTokens ts') := by
  cases h with
  | nil => exact absurd rfl hne
  | cons ht hts => exact ⟨ht, hts, rfl, rfl, .nil⟩

/-- **Reading tokens that say the same.** -/
theorem parseTokens_alike {ts ts' : List Token} (hne : ts ≠ [])
    (h : List.Forall₂ (Token.Corresponds (ts.zip ts')) ts ts')
    (hstart : ts.Pairwise fun t u => t.span.start < u.span.start)
    (hstart' : ts'.Pairwise fun t u => t.span.start < u.span.start) :
    (parseTokens ts).tree.Alike (parseTokens ts').tree ∧
      (parseTokens ts).names = (parseTokens ts').names ∧
      List.Forall₂ (Problem.Alike (ts.zip ts')) (parseTokens ts).problems
        (parseTokens ts').problems := by
  obtain ⟨htree, hs⟩ := ParseM.alike_root ts.length _ _ (ParseState.alike_ofTokens hne h)
  have hlater := hs.later.length_eq
  rw [parseTokens_eq Prod.mk.eta.symm, parseTokens_eq Prod.mk.eta.symm, ← h.length_eq, ← hlater]
  refine ⟨htree, hs.names, rel_mergeSort (List.rel_append hs.problems ?_) ?_⟩
  · exact List.rel_filterMap (fun _ _ ht => ht.problem?) (List.forall₂_take _ h)
  · exact fun _ _ _ _ hp hq => hp.startsBefore hstart hstart' hq

/-- **Parsing depends on the tokens only.** -/
theorem parse_invariant {text text' : String}
    (h : (Token.ofText text.toList).map Token.content =
      (Token.ofText text'.toList).map Token.content) :
    (parse text).arena.skeleton = (parse text').arena.skeleton ∧
      (parse text).root = (parse text').root ∧
      (parse text).names = (parse text').names ∧
      (parse text).problems.map (·.issue.code) = (parse text').problems.map (·.issue.code) := by
  obtain ⟨htree, hnames, hproblems⟩ := parseTokens_alike (Position.start text.toList).tokens_ne_nil
    (Token.forall₂_corresponds h) (Token.start_listFrom _ _).2 (Token.start_listFrom _ _).2
  obtain ⟨hroot, harena⟩ := htree.toArena
  refine ⟨harena, hroot, hnames, ?_⟩
  exact map_eq_of_rel hproblems fun p p' hp => congrArg Issue.code hp.issue

/-- A text with faults of both kinds, and the same with its tokens elsewhere and another character
that starts none. -/
theorem parse_invariant_blanks :
    (Token.ofText "a.(with\x7bx=,#,1\x7d".toList).map Token.content =
        (Token.ofText " a . ( with \x7b\nx = , ? , 1 \x7d ".toList).map Token.content ∧
      (parse "a.(with\x7bx=,#,1\x7d").problems.map (·.issue.code) =
        (parse " a . ( with \x7b\nx = , ? , 1 \x7d ").problems.map (·.issue.code) := by
  have h : (Token.ofText "a.(with\x7bx=,#,1\x7d".toList).map Token.content =
      (Token.ofText " a . ( with \x7b\nx = , ? , 1 \x7d ".toList).map Token.content := by
    decide +kernel
  exact ⟨h, (parse_invariant h).2.2.2⟩

end UpdateExpr
