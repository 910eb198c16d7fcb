import UpdateExpr.Proofs.Syntax.Acceptance
import UpdateExpr.Proofs.Syntax.Soundness

/-!
# Texts that are read without a problem

The tokens of a text end with its end, and a name among them has characters. So the rule for the
whole text reports nothing exactly where the tokens before the end are an expression of the grammar,
and then it gives a whole tree.

## Main results

* `Token.ended_ofText`: the tokens of a text end with its end
* `parseTokens_of_forms`: what tokens form is read without a problem
* `parseTokens_of_spells`: what spells an expression is read without a problem, with its tree
* `parse_problems_eq_nil_iff`: a text has no problems exactly where it is an expression
* `forms_parse`: the tokens of such a text form its tree
* `isWhole_parse`: such a text has a whole tree
-/

namespace UpdateExpr

/-! ## The tokens of a text -/

namespace Token

theorem ended_listFrom {n : Nat} {p : Position} (h : p.rest.length < n) : Ended (listFrom n p) := by
  induction n generalizing p with
  | zero => omega
  | succ n ih =>
    unfold listFrom
    by_cases he : (next p).1.kind = .endOfFile
    · simp only [he, if_true]
      exact .last he
    · simp only [he, if_false]
      have hlt := next_rest_length_lt he
      exact .cons he (ih (by omega))

/-- **The tokens of a text end with its end.** -/
theorem ended_ofText (text : List Char) : Ended (ofText text) :=
  ended_listFrom (Nat.lt_succ_self _)

/-- A lexeme that is a name has characters. -/
theorem value_first_ne_nil {c : Char} {cs : List Char}
    (h : (Lexeme.first c cs).kind = .identifier) : (Lexeme.first c cs).value ≠ [] := by
  revert h
  unfold Lexeme.first
  split
  case h_7 => split <;> simp [Lexeme.ofFraction, Lexeme.single]
  case h_8 => simp [Lexeme.ofString]
  case h_9 =>
    split
    · simp [Lexeme.ofNumber]
    · split
      · simp [Lexeme.ofIdentifier]
      · simp [Lexeme.single]
  all_goals simp [Lexeme.single]

theorem value_ne_empty_of_mem_listFrom {n : Nat} {p : Position} {t : Token}
    (h : t ∈ listFrom n p) (ht : t.kind = .identifier) : t.value ≠ "" := by
  have next_value : ∀ p, (next p).1.kind = .identifier → (next p).1.value ≠ "" := by
    intro p hk
    unfold next atPosition at *
    cases hr : p.skipBlanks.rest with
    | nil => simp [hr, endAt] at hk
    | cons c cs =>
      simp only [hr] at hk ⊢
      have hv := value_first_ne_nil hk
      simpa using hv
  induction n generalizing p with
  | zero => cases h
  | succ n ih =>
    unfold listFrom at h
    by_cases he : (next p).1.kind = .endOfFile
    · simp only [he, if_true, List.mem_singleton] at h
      subst h
      exact next_value p ht
    · simp only [he, if_false, List.mem_cons] at h
      rcases h with rfl | h
      · exact next_value p ht
      · exact ih h

/-- The end of the text is the last token, and the only one of its kind. -/
theorem Ended.eq_dropLast_append {ts : List Token} (h : Ended ts) :
    ∃ t, t.kind = .endOfFile ∧ ts = ts.dropLast ++ [t] := by
  induction h with
  | last h => exact ⟨_, h, rfl⟩
  | cons _ hs ih =>
    obtain ⟨t, ht, he⟩ := ih
    refine ⟨t, ht, ?_⟩
    cases hs with
    | last _ => rw [List.dropLast_cons_of_ne_nil (by simp), List.cons_append, ← he]
    | cons _ _ => rw [List.dropLast_cons_of_ne_nil (by simp), List.cons_append, ← he]

theorem Ended.eq_singleton {t : Token} {ts : List Token} (h : Ended (t :: ts))
    (ht : t.kind = .endOfFile) : ts = [] := by
  cases h with
  | last _ => rfl
  | cons hne _ => exact absurd ht hne

end Token

/-! ## The whole text -/

/-- The state behind the expression, with a report if it is not the end of the text. -/
def ParseState.close (s : ParseState) : ParseState :=
  if s.current.kind = .endOfFile then s
  else s.report .trailingToken s.current.span [s.current.lexeme]

theorem parseRoot_apply (bound : Nat) (s : ParseState) :
    parseRoot bound s = ((parseExpression bound maxParseDepth s).1,
      (parseExpression bound maxParseDepth s).2.close) := by
  rcases hr : parseExpression bound maxParseDepth s with ⟨e, s₁⟩
  simp only [parseRoot, bind, StateT.bind, hr, currentToken]
  show (if s₁.current.kind ≠ .endOfFile then
      StateT.bind (reportAt .trailingToken s₁.current.span [s₁.current.lexeme]) fun _ => pure e
    else pure e) s₁ = _
  rw [ParseState.close]
  by_cases hk : s₁.current.kind = .endOfFile
  · rw [if_neg (not_not_intro hk), if_pos hk]
    rfl
  · rw [if_pos hk, if_neg hk]
    rfl

theorem ParseState.length_problems_close (s : ParseState) :
    s.problems.length ≤ s.close.problems.length := by
  unfold close
  split
  · exact Nat.le_refl _
  · rw [length_problems_report]
    exact Nat.le_add_right _ _

/-- Nothing is reported behind the expression only at the end of the text. -/
theorem ParseState.kind_of_quiet_close {s : ParseState} (hc : s.cut = false)
    (h : s.close.problems.length = s.problems.length) : s.current.kind = .endOfFile := by
  by_cases hk : s.current.kind = .endOfFile
  · exact hk
  · rw [close, if_neg hk, length_problems_report, hc] at h
    simp at h

theorem parseTokens_problems_eq_nil {tokens : List Token} :
    (parseTokens tokens).problems = [] ↔
      (parseRoot tokens.length (.ofTokens tokens)).2.problems = [] ∧
        ∀ t ∈ tokens.take (tokens.length -
          (parseRoot tokens.length (.ofTokens tokens)).2.later.length), t.problem? = none := by
  show List.mergeSort _ _ = [] ↔ _
  rw [← List.length_eq_zero_iff, List.length_mergeSort, List.length_eq_zero_iff,
    List.append_eq_nil_iff, List.filterMap_eq_nil_iff]
  rfl

/-- Reading starts with all tokens ahead. -/
theorem ParseState.fit_ofTokens {tokens : List Token} (h : Token.Ended tokens) :
    (ofTokens tokens).Fit ∧ (ofTokens tokens).ahead = tokens ∧ (ofTokens tokens).problems = [] := by
  cases h with
  | last ht => exact ⟨⟨rfl, .last ht⟩, rfl, rfl⟩
  | cons ht hs => exact ⟨⟨rfl, .cons ht hs⟩, rfl, rfl⟩

/-- A text without problems is an expression of the grammar with all numbers in range, and has a
whole tree. -/
theorem of_parseTokens_eq_nil {tokens : List Token} (hend : Token.Ended tokens)
    (hname : ∀ t ∈ tokens, t.kind = .identifier → t.value ≠ "")
    (h : (parseTokens tokens).problems = []) :
    (∀ t ∈ tokens, t.problem? = none) ∧ tokens.dropLast ∈ Grammar.expr maxParseDepth ∧
      (∀ t ∈ tokens, t.InRange) ∧ (parseTokens tokens).tree.IsWhole := by
  obtain ⟨hp, hreached⟩ := parseTokens_problems_eq_nil.1 h
  obtain ⟨hfit, hahead, hnone⟩ := ParseState.fit_ofTokens hend
  have htree : (parseTokens tokens).tree = (parseRoot tokens.length (.ofTokens tokens)).1 := rfl
  have hreads : ParseM.Reads (fun _ => True) _ _ :=
    ParseM.reads_expression tokens.length maxParseDepth
  rcases hr : parseExpression tokens.length maxParseDepth (.ofTokens tokens) with ⟨e, s₁⟩
  rw [parseRoot_apply, hr] at hp hreached htree
  have hclose := s₁.length_problems_close
  rw [hp, List.length_nil, Nat.le_zero] at hclose
  obtain ⟨ts, ha, hfit₁, hrange, hgood⟩ :=
    hreads.quiet _ hfit trivial (by rw [hr, hnone, hclose]; rfl)
  rw [hr] at ha hfit₁ hgood
  -- The rule stopped at the end of the text, since nothing was reported behind it.
  have hk : s₁.current.kind = .endOfFile :=
    ParseState.kind_of_quiet_close hfit₁.cut (by rw [hp, hclose]; rfl)
  have hl : s₁.later = [] := hfit₁.ended.eq_singleton hk
  have htokens : tokens = ts ++ [s₁.current] := by
    rw [← hahead, ha, ParseState.ahead, hl]
  have hproblem : ∀ t ∈ tokens, t.problem? = none := by
    simpa [ParseState.close, hk, hl] using hreached
  have hsub : ∀ t ∈ ts, t ∈ tokens := by
    intro t ht
    rw [htokens]
    exact List.mem_append_left _ ht
  obtain ⟨hmem, hwhole⟩ := hgood fun t ht => ⟨hproblem t (hsub t ht), hname t (hsub t ht)⟩
  refine ⟨hproblem, ?_, ?_, by rw [htree]; exact hwhole⟩
  · rw [htokens, List.dropLast_concat]
    exact hmem
  · intro t ht
    rw [htokens, List.mem_append, List.mem_singleton] at ht
    rcases ht with ht | rfl
    · exact hrange t ht
    · exact Token.inRange_of_ne (by simp [hk])

/-- **What tokens form is read from them without a problem.** -/
theorem parseTokens_of_forms {tokens : List Token} {e : SyntaxTree} (hend : Token.Ended tokens)
    (hp : ∀ t ∈ tokens, t.problem? = none) (h : Forms maxParseDepth tokens.dropLast e) :
    (parseTokens tokens).problems = [] ∧ (parseTokens tokens).tree = e := by
  obtain ⟨last, hlast, htokens⟩ := hend.eq_dropLast_append
  obtain ⟨-, hahead, hnone⟩ := ParseState.fit_ofTokens hend
  have hfollow : ∃ k ∈ Grammar.followers, Grammar.head? [last] = some k :=
    ⟨.endOfFile, by simp [Grammar.followers], by rw [Grammar.head?_cons, hlast]⟩
  obtain ⟨hw, ha, -, hq⟩ := ParseM.accepts_expression tokens.length maxParseDepth _ e h
    (List.dropLast_sublist tokens).length_le _ _ hfollow (.ofTokens tokens)
    (hahead.trans htokens) rfl
  have hroot := parseRoot_apply tokens.length (.ofTokens tokens)
  have htree : (parseTokens tokens).tree = (parseRoot tokens.length (.ofTokens tokens)).1 := rfl
  rcases hr : parseExpression tokens.length maxParseDepth (.ofTokens tokens) with ⟨tree, s₁⟩
  rw [hr] at hw ha hq hroot
  obtain ⟨rfl, -⟩ := List.cons.inj ha
  have hclose : s₁.close = s₁ := if_pos hlast
  rw [parseTokens_problems_eq_nil, htree, hroot, hclose]
  exact ⟨⟨hq.trans hnone, fun t ht => hp t (List.mem_of_mem_take ht)⟩, hw⟩

/-- **What spells an expression is read without a problem**, and its tree is that of the
expression. -/
theorem parseTokens_of_spells {tokens : List Token} {p : Token → Prop} {e : Expr}
    (hend : Token.Ended tokens) (hp : ∀ t ∈ tokens, t.problem? = none)
    (hr : ∀ t ∈ tokens, t.InRange) (he : e.Within maxParseDepth)
    (hs : Spells e.words tokens.dropLast) (hgood : ∀ t ∈ tokens.dropLast, p t) :
    (parseTokens tokens).problems = [] ∧ (parseTokens tokens).tree.Writes p e := by
  have hrange : ∀ t ∈ tokens.dropLast, t.InRange := fun t ht =>
    hr t ((List.dropLast_sublist tokens).subset ht)
  obtain ⟨tree, hforms, hwrites⟩ := he.exists_forms hs hrange hgood
  obtain ⟨hproblems, rfl⟩ := parseTokens_of_forms hend hp hforms
  exact ⟨hproblems, hwrites⟩

/-- What the grammar allows has no problems. -/
theorem parseTokens_eq_nil {tokens : List Token} (hend : Token.Ended tokens)
    (hp : ∀ t ∈ tokens, t.problem? = none) (hg : tokens.dropLast ∈ Grammar.expr maxParseDepth)
    (hr : ∀ t ∈ tokens, t.InRange) : (parseTokens tokens).problems = [] := by
  obtain ⟨e, he, hs⟩ := Grammar.exists_spells maxParseDepth _ hg
  exact (parseTokens_of_spells (p := fun _ => True) hend hp hr he hs fun _ _ => trivial).1

/-- The largest number of 64 bits is the largest one in range. -/
theorem Token.inRange_iff {t : Token} : t.InRange ↔
    (t.kind = .number → t.flags.floating = false → digitsValue t.value.toList ≤ 2 ^ 63 - 1) := by
  have hlimit : LiteralValue.longLimit = 2 ^ 63 := rfl
  unfold InRange
  rw [ne_eq, LiteralValue.ofNumber_eq_invalid_iff, not_and, Nat.not_le, hlimit]
  constructor
  · intro h hk hf
    have := h hk hf
    omega
  · intro h hk hf
    have := h hk hf
    omega

/-- **A text has no problems exactly where it is an expression.** None of its tokens has a problem,
those before the end are derived from `expr` with no expression under `maxParseDepth` parentheses
and initializers, and every integer among them fits 64 bits. -/
theorem parse_problems_eq_nil_iff (text : String) :
    (parse text).problems = [] ↔
      (Token.ofText text.toList).filterMap Token.problem? = [] ∧
        (Token.ofText text.toList).dropLast ∈ Grammar.expr maxParseDepth ∧
        ∀ t ∈ Token.ofText text.toList, t.kind = .number → t.flags.floating = false →
          digitsValue t.value.toList ≤ 2 ^ 63 - 1 := by
  have hend := Token.ended_ofText text.toList
  simp only [List.filterMap_eq_nil_iff, ← Token.inRange_iff]
  constructor
  · intro h
    obtain ⟨hp, hg, hr, -⟩ := of_parseTokens_eq_nil hend
      (fun t ht => Token.value_ne_empty_of_mem_listFrom ht) h
    exact ⟨hp, hg, hr⟩
  · rintro ⟨hp, hg, hr⟩
    exact parseTokens_eq_nil hend hp hg hr

/-- **The tokens of a text without problems form its tree.** -/
theorem forms_parse {text : String} (h : (parse text).problems = []) :
    (∀ t ∈ Token.ofText text.toList, t.problem? = none) ∧
      Forms maxParseDepth (Token.ofText text.toList).dropLast (parse text).tree := by
  have hend := Token.ended_ofText text.toList
  obtain ⟨hp, hg, hr, -⟩ := of_parseTokens_eq_nil hend
    (fun t ht => Token.value_ne_empty_of_mem_listFrom ht) h
  obtain ⟨e, he, hs⟩ := Grammar.exists_spells maxParseDepth _ hg
  obtain ⟨tree, hforms, -⟩ := he.exists_forms (p := fun _ => True) hs
    (fun t ht => hr t ((List.dropLast_sublist _).subset ht)) fun _ _ => trivial
  obtain ⟨-, htree⟩ := parseTokens_of_forms hend hp hforms
  refine ⟨hp, ?_⟩
  rw [parse, htree]
  exact hforms

/-- **A text without problems has a whole tree.** -/
theorem isWhole_parse {text : String} (h : (parse text).problems = []) :
    (parse text).tree.IsWhole :=
  (of_parseTokens_eq_nil (Token.ended_ofText _)
    (fun _ ht => Token.value_ne_empty_of_mem_listFrom ht) h).2.2.2

end UpdateExpr
