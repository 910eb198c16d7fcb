import UpdateExpr.Proofs.Diagnostic.Arrival
import UpdateExpr.Proofs.Syntax.Holds
import UpdateExpr.Proofs.Syntax.Invariance
import UpdateExpr.Proofs.Syntax.PostOrder

/-!
# Nesting that is too deep

Where an expression is nested too deeply, the parser says so, reads the rest of the text without
looking at it, and leaves a missing name. All the rules that are still underway then go on at the
end of the text: they find none of the tokens that they look for, and what they report is not heard.
So the parser is in one of two conditions. As long as it goes on, no problem it has reported is
about nesting, and none is further on than the next token. Once it has stopped, the last problem is
about nesting, and every rule leaves what was gathered as it is.

## Main definitions

* `Issue.mended`: what the parser reports and goes on
* `ParseState.Going`, `ParseState.Stopped`: the two conditions of the parser
* `SyntaxTree.HoleUnder`: a missing name stands under some parentheses and initializers
* `ParseM.Outcome`: a rule goes on, or it stops and gives something with a missing name
* `CutOff`: what is reported and read of a text that is nested too deeply

## Main results

* `ParseM.Outcome.bind`: one rule after another
* `ParseM.outcome_expression`: an expression goes on or has a missing name where it was cut
* `parse_cutOff`: nesting that is too deep is reported once, and the last thing reported
-/

namespace UpdateExpr

/-! ## What is reported -/

/-- The issues that the parser reports and goes on. -/
def Issue.mended : List Issue :=
  [.tokenExpected, .identifierExpected, .expressionExpected, .numberOutOfRange, .trailingToken]

/-- Problems of the parser up to a position, in the order of their starts. None of them is about
nesting. -/
structure Problem.UpTo (position : Nat) (ps : List Problem) : Prop where
  mended : ∀ q ∈ ps, q.issue ∈ Issue.mended
  start_le : ∀ q ∈ ps, q.span.start ≤ position
  sorted : ps.Pairwise fun p q => p.span.start ≤ q.span.start

namespace Problem.UpTo

variable {m n : Nat} {ps : List Problem} {q : Problem}

theorem mono (h : UpTo m ps) (hle : m ≤ n) : UpTo n ps :=
  ⟨h.mended, fun q hq => (h.start_le q hq).trans hle, h.sorted⟩

theorem ne_nestedTooDeeply (h : UpTo n ps) (hq : q ∈ ps) : q.issue ≠ .nestedTooDeeply := by
  intro hissue
  have hmem := h.mended q hq
  rw [hissue] at hmem
  exact absurd hmem (by decide)

theorem sorted_append_singleton (h : UpTo q.span.start ps) :
    (ps ++ [q]).Pairwise fun p q => p.span.start ≤ q.span.start := by
  refine List.pairwise_append.2 ⟨h.sorted, List.pairwise_singleton _ _, fun p hp q' hq' => ?_⟩
  rw [List.mem_singleton.1 hq']
  exact h.start_le p hp

theorem append_singleton (h : UpTo q.span.start ps) (hq : q.issue ∈ Issue.mended) :
    UpTo q.span.start (ps ++ [q]) where
  mended := List.forall_mem_append.2 ⟨h.mended, List.forall_mem_singleton.2 hq⟩
  start_le := List.forall_mem_append.2 ⟨h.start_le, List.forall_mem_singleton.2 le_rfl⟩
  sorted := h.sorted_append_singleton

end Problem.UpTo

/-! ## The two conditions of the parser -/

namespace ParseState

/-- The parser goes on: the tokens ahead stand one behind the other, and what it has reported is not
about nesting, and not further on than the next token. -/
structure Going (s : ParseState) : Prop extends s.Fit where
  ordered : s.ahead.Pairwise fun t u => t.span.start < u.span.start
  problems : Problem.UpTo s.current.span.start s.problems

/-- The parser has stopped: it is at the end of the text, and the last problem that it has reported
is the only one about nesting. -/
structure Stopped (s : ParseState) : Prop where
  cut : s.cut = true
  kind : s.current.kind = .endOfFile
  later : s.later = []
  problems : ∃ earlier last, s.problems = earlier ++ [last] ∧ last.issue = .nestedTooDeeply ∧
    Problem.UpTo last.span.start earlier

variable {s : ParseState} {issue : Issue} {span : Span} {args : List String}

theorem Going.advance (h : s.Going) : s.advance.Going := by
  obtain ⟨⟨hcut, hended⟩, hordered, hproblems⟩ := h
  unfold ahead at hended hordered
  unfold ParseState.advance
  split
  · exact ⟨⟨hcut, hended⟩, hordered, hproblems⟩
  · next t ts hl =>
    rw [hl] at hended hordered
    have htail : Token.Ended (t :: ts) := by
      cases hended with
      | cons _ hs => exact hs
    have hlt := List.rel_of_pairwise_cons hordered List.mem_cons_self
    exact ⟨⟨hcut, htail⟩, hordered.of_cons, hproblems.mono (Nat.le_of_lt hlt)⟩

/-- A problem at the next token is reported. -/
theorem Going.report (h : s.Going) (hi : issue ∈ Issue.mended) (args : List String) :
    (s.report issue s.current.span args).Going := by
  have hproblems := Problem.UpTo.append_singleton (q := ⟨issue, s.current.span, args⟩) h.problems hi
  rw [ParseState.report, if_neg (ne_true_of_eq_false h.cut)]
  exact ⟨⟨h.cut, h.ended⟩, h.ordered, hproblems⟩

theorem Going.meet (h : s.Going) (name : String) : (s.meet name).Going :=
  ⟨⟨h.cut, h.ended⟩, h.ordered, h.problems⟩

/-- What is reported is not heard any more. -/
theorem Stopped.report (h : s.Stopped) : s.report issue span args = s :=
  if_pos h.cut

@[simp] theorem cut_skipToEnd (s : ParseState) : s.skipToEnd.cut = s.cut := by
  unfold skipToEnd
  generalize s.later = ts
  induction ts generalizing s with
  | nil => rfl
  | cons t ts ih => exact (ih _).trans (cut_advance s)

/-- Nothing but the end of the text is left. -/
theorem skipToEnd_of_ended (h : Token.Ended s.ahead) :
    s.skipToEnd.current.kind = .endOfFile ∧ s.skipToEnd.later = [] := by
  generalize hts : s.later = ts
  induction ts generalizing s with
  | nil =>
    rw [skipToEnd_of_nil hts]
    rw [ahead, hts] at h
    cases h with
    | last hk => exact ⟨hk, hts⟩
    | cons _ hs => cases hs
  | cons t ts ih =>
    have hadvance : s.advance.ahead = t :: ts ∧ s.advance.later = ts := by
      rw [ahead, advance, hts]
      exact ⟨rfl, rfl⟩
    rw [ahead, hts] at h
    rw [skipToEnd_of_ne_nil (by simp [hts])]
    refine ih ?_ hadvance.2
    rw [hadvance.1]
    cases h with
    | cons _ hs => exact hs

end ParseState

/-! ## Where the missing name stands -/

/-- A missing name at a position stands in a tree, under a number of parentheses and values of
initializers. -/
inductive SyntaxTree.HoleUnder (position : Nat) : Nat → SyntaxTree → Prop
  | here : HoleUnder position 0 (.hole position)
  | paren {n : Nat} {inner : SyntaxTree} {span : Span} (h : HoleUnder position n inner) :
    HoleUnder position (n + 1) (.paren inner span)
  | value {n : Nat} {receiver : SyntaxTree} {entries : List (Initializer SyntaxTree)}
    {entry : Initializer SyntaxTree} {list : ListSpan} {span : Span} (he : entry ∈ entries)
    (h : HoleUnder position n entry.value) :
    HoleUnder position (n + 1) (.update receiver entries list span)

theorem Arena.HoldsEntries.exists_holds {a : Arena} {entries : List (Initializer SyntaxTree)}
    {es : List NodeRef} (h : a.HoldsEntries entries es) {entry : Initializer SyntaxTree}
    (he : entry ∈ entries) : ∃ r, a.Holds entry.value r := by
  induction entries generalizing es with
  | nil => cases he
  | cons first entries ih =>
    obtain ⟨-, rest, -, v, -, -, -, hv, hrest⟩ := h
    rcases List.mem_cons.1 he with rfl | he
    · exact ⟨v, hv⟩
    · exact ih hrest he

/-- The nodes of such a tree hold a missing name. -/
theorem SyntaxTree.HoleUnder.exists_node {position n : Nat} {t : SyntaxTree}
    (h : t.HoleUnder position n) {a : Arena} {r : NodeRef} (hr : a.Holds t r) :
    ∃ r', a.get? r' = some (.hole position) := by
  induction h generalizing r with
  | here => exact ⟨r, hr⟩
  | paren _ ih =>
    obtain ⟨i, -, hi⟩ := hr
    exact ih hi
  | value he _ ih =>
    obtain ⟨-, es, -, -, hes⟩ := hr
    obtain ⟨v, hv⟩ := hes.exists_holds he
    exact ih hv

/-! ## Rules -/

namespace ParseM

/-- A rule goes on from a state, or it stops and gives something that a property holds of and of the
end of the last token. -/
def Outcome {α : Type} (m : ParseM α) (s : ParseState) (left : Nat → α → Prop) : Prop :=
  (m s).2.Going ∨ (m s).2.Stopped ∧ left (m s).2.lastEnd (m s).1

section Calculus

variable {α β : Type} {m : ParseM α} {f : α → ParseM β} {k : ParseM β} {a : α} {s : ParseState}
  {left : Nat → α → Prop} {result : Nat → β → Prop}

/-- **One rule after another**: the second one starts where the first one goes on, or where it has
stopped. -/
theorem Outcome.bind (hm : Outcome m s left)
    (hgo : ∀ a (s' : ParseState), s'.Going → Outcome (f a) s' result)
    (hstop : ∀ a (s' : ParseState), s'.Stopped → left s'.lastEnd a → Outcome (f a) s' result) :
    Outcome (m >>= f) s result := by
  rcases hm with hgoing | ⟨hstopped, hleft⟩
  · exact hgo _ _ hgoing
  · exact hstop _ _ hstopped hleft

/-- A rule that never stops, and one behind it. -/
theorem Outcome.going_bind (hm : (m s).2.Going)
    (hgo : ∀ a (s' : ParseState), s'.Going → Outcome (f a) s' result) :
    Outcome (m >>= f) s result :=
  hgo _ _ hm

/-- A rule may look at the token that is read next. -/
theorem Outcome.current {f : Token → ParseM β} (h : Outcome (f s.current) s result) :
    Outcome (currentToken >>= f) s result :=
  h

/-- A rule may look at all that was gathered. -/
theorem Outcome.get {f : ParseState → ParseM β} (h : Outcome (f s) s result) :
    Outcome (MonadState.get >>= f) s result :=
  h

/-- A token is read. -/
theorem Outcome.advance (h : Outcome k s.advance result) :
    Outcome (UpdateExpr.advance >>= fun _ => k) s result :=
  h

/-- A name is met. -/
theorem Outcome.meet {name : String} (h : Outcome k (s.meet name) result) :
    Outcome (modify (·.meet name) >>= fun _ => k) s result :=
  h

/-- A rule that leaves all as it is, and one behind it. -/
theorem Outcome.of_eq (hm : m s = (a, s)) (h : Outcome (f a) s result) :
    Outcome (m >>= f) s result := by
  have happly : (m >>= f) s = f a s := by
    show f (m s).1 (m s).2 = _
    rw [hm]
  rwa [Outcome, happly]

end Calculus

variable {s : ParseState} {nested : ParseM SyntaxTree} {depth start n bound : Nat}

/-! ### Rules that read no nested expression -/

theorem going_expect (h : s.Going) (kind : TokenKind) : (expect kind s).2.Going := by
  show ((if s.current.kind = kind then _ else _ : ParseM Bool) s).2.Going
  split
  · exact h.advance
  · exact h.report (by simp [Issue.mended]) _

theorem going_name (h : s.Going) : (parseName s).2.Going := by
  show ((if s.current.kind = .identifier then _ else _ : ParseM Identifier) s).2.Going
  split
  · exact (h.meet _).advance
  · exact h.report (by simp [Issue.mended]) _

theorem going_number (h : s.Going) : (parseNumber s.current s).2.Going := by
  unfold parseNumber
  dsimp only
  split
  · exact (h.report (by simp [Issue.mended]) _).advance
  · exact h.advance

theorem going_call (h : s.Going) (target : SyntaxTree) : (parseCall start target s).2.Going := by
  show ((if s.current.kind = .openParen then _ else _ : ParseM SyntaxTree) s).2.Going
  split
  · exact going_expect h.advance .closeParen
  · exact h

theorem going_members (h : s.Going) (target : SyntaxTree) :
    (parseMembers start n target s).2.Going := by
  induction n generalizing s target with
  | zero => exact h
  | succ n ih =>
    show ((if s.current.kind = .dot then _ else _ : ParseM SyntaxTree) s).2.Going
    split
    · exact ih (going_call (going_name h.advance) _) _
    · exact h

/-! ### Rules behind the end -/

theorem expect_of_stopped (h : s.Stopped) {kind : TokenKind} (hk : kind ≠ .endOfFile) :
    expect kind s = (false, s) := by
  show (if s.current.kind = kind then _ else _ : ParseM Bool) s = _
  rw [if_neg (h.kind ▸ hk.symm)]
  show (false, s.report _ _ _) = _
  rw [h.report]

theorem members_of_stopped (h : s.Stopped) (target : SyntaxTree) :
    parseMembers start n target s = (target, s) := by
  cases n with
  | zero => rfl
  | succ n =>
    show (if s.current.kind = .dot then _ else _ : ParseM SyntaxTree) s = _
    rw [if_neg (by simp [h.kind])]
    rfl

theorem updates_of_stopped (h : s.Stopped) (receiver : SyntaxTree) :
    parseUpdates nested bound n receiver s = (receiver, s) := by
  cases n with
  | zero => rfl
  | succ n =>
    show (if s.current.kind = .withKeyword then _ else _ : ParseM SyntaxTree) s = _
    rw [if_neg (by simp [h.kind])]
    rfl

/-! ### Rules that read nested expressions -/

/-- Every nested expression goes on, or it has a missing name where it was cut. -/
def CutsUnder (depth : Nat) (nested : ParseM SyntaxTree) : Prop :=
  ∀ s : ParseState, s.Going → Outcome nested s fun position tree => tree.HoleUnder position depth

theorem outcome_paren (hn : CutsUnder depth nested) (h : s.Going) :
    Outcome (nested >>= fun inner => expect .closeParen >>= fun _ =>
        spanFrom start >>= fun span => pure (SyntaxTree.paren inner span)) s
      fun position tree => tree.HoleUnder position (depth + 1) := by
  refine (hn s h).bind (fun inner s' hs => .inl (going_expect hs .closeParen)) ?_
  intro inner s' hs hhole
  exact .of_eq (expect_of_stopped hs (by decide)) (.inr ⟨hs, .paren hhole⟩)

theorem outcome_primary (hn : CutsUnder depth nested) (h : s.Going) :
    Outcome (parsePrimary nested) s fun position tree => tree.HoleUnder position (depth + 1) := by
  have hexpected : (s.report .expressionExpected s.current.span []).Going :=
    h.report (by simp [Issue.mended]) []
  refine .current ?_
  cases hk : s.current.kind
  case number => exact .inl (going_number h)
  case identifier => exact .inl (going_name h)
  case openParen => exact .advance (outcome_paren hn h.advance)
  case string | trueKeyword | falseKeyword | nullKeyword | unknown => exact .inl h.advance
  all_goals exact .inl hexpected

/-- The value of an initializer goes on, or it has a missing name where it was cut. -/
theorem outcome_bare (hn : CutsUnder depth nested) (h : s.Going) :
    Outcome (parseBareInitializer nested start) s
      fun position entry => entry.value.HoleUnder position depth :=
  (hn s h).bind (fun _ _ hs => .inl hs) fun _ _ hs hhole => .inr ⟨hs, hhole⟩

theorem outcome_named (hn : CutsUnder depth nested) (h : s.Going) (name : Identifier) :
    Outcome (parseNamedInitializer nested start name) s
      fun position entry => entry.value.HoleUnder position depth :=
  .advance ((hn _ h.advance).bind (fun _ _ hs => .inl hs) fun _ _ hs hhole => .inr ⟨hs, hhole⟩)

theorem outcome_initializer (hn : CutsUnder depth nested) (h : s.Going) :
    Outcome (parseInitializer nested) s
      fun position entry => entry.value.HoleUnder position depth := by
  have hexpected : (s.report .identifierExpected s.current.span []).Going :=
    h.report (by simp [Issue.mended]) []
  refine .current ?_
  cases hk : s.current.kind
  case identifier =>
    refine .meet (.get ?_)
    split
    · exact .advance (outcome_named hn (h.meet _).advance _)
    · exact outcome_bare hn (h.meet _)
  case equals => exact outcome_named hn hexpected _
  all_goals exact outcome_bare hn h

theorem outcome_initializers (hn : CutsUnder depth nested) (h : s.Going) :
    Outcome (parseInitializers nested n) s
      fun position list => ∃ entry ∈ list.1, entry.value.HoleUnder position depth := by
  induction n generalizing s with
  | zero => exact .inl h
  | succ n ih =>
    refine .current ?_
    split
    · exact .inl h
    · refine (outcome_initializer hn h).bind (fun entry s' hs => .current ?_) ?_
      · split
        · refine .advance (.current ((ih hs.advance).bind (fun _ _ hs => .inl hs) ?_))
          rintro list s'' hs' ⟨e, he, hhole⟩
          exact .inr ⟨hs', e, List.mem_cons_of_mem _ he, hhole⟩
        · exact .inl hs
      · intro entry s' hs hhole
        refine .current ?_
        rw [if_neg (by simp [hs.kind])]
        exact .inr ⟨hs, entry, List.mem_cons_self, hhole⟩

theorem outcome_update (hn : CutsUnder depth nested) (h : s.Going) (receiver : SyntaxTree) :
    Outcome (parseUpdate nested n receiver) s
      fun position tree => tree.HoleUnder position (depth + 1) := by
  refine .advance (.current (.going_bind (going_expect h.advance .openBrace) ?_))
  intro there s₁ hs₁
  cases there with
  | false => exact .inl hs₁
  | true =>
    refine .get ((outcome_initializers hn hs₁).bind (fun list s₂ hs₂ => ?_) ?_)
    · exact .inl (going_expect hs₂ .closeBrace)
    · rintro list s₂ hs₂ ⟨entry, he, hhole⟩
      exact .current (.of_eq (expect_of_stopped hs₂ (by decide)) (.inr ⟨hs₂, .value he hhole⟩))

theorem outcome_updates (hn : CutsUnder depth nested) (h : s.Going) (receiver : SyntaxTree) :
    Outcome (parseUpdates nested bound n receiver) s
      fun position tree => tree.HoleUnder position (depth + 1) := by
  induction n generalizing s receiver with
  | zero => exact .inl h
  | succ n ih =>
    refine .current ?_
    split
    · refine (outcome_update hn h receiver).bind (fun tree s' hs => ih hs tree) ?_
      intro tree s' hs hhole
      rw [Outcome, updates_of_stopped hs]
      exact .inr ⟨hs, hhole⟩
    · exact .inl h

theorem outcome_cut (h : s.Going) :
    Outcome parseCut s fun position tree => tree.HoleUnder position 0 := by
  have hreport : s.report .nestedTooDeeply s.current.span [] =
      { s with problems := s.problems ++ [⟨.nestedTooDeeply, s.current.span, []⟩] } :=
    if_neg (ne_true_of_eq_false h.cut)
  refine .inr ⟨?_, .here⟩
  show ({ s.report .nestedTooDeeply s.current.span [] with cut := true } :
    ParseState).skipToEnd.Stopped
  rw [hreport]
  obtain ⟨hkind, hlater⟩ := ParseState.skipToEnd_of_ended (s := { s with
    cut := true, problems := s.problems ++ [⟨.nestedTooDeeply, s.current.span, []⟩] }) h.ended
  refine ⟨ParseState.cut_skipToEnd _, hkind, hlater, s.problems,
    ⟨.nestedTooDeeply, s.current.span, []⟩, ?_, rfl, h.problems⟩
  rw [ParseState.problems_skipToEnd]

/-- **An expression goes on, or it has a missing name where it was cut**, under as many parentheses
and initializers as may be nested. -/
theorem outcome_expression (bound depth : Nat) : CutsUnder depth (parseExpression bound depth) := by
  induction depth with
  | zero => exact fun s h => outcome_cut h
  | succ depth ih =>
    intro s h
    refine .current ((outcome_primary ih h).bind (fun primary s₁ hs₁ => ?_) ?_)
    · exact .going_bind (going_members hs₁ primary) fun target s₂ hs₂ =>
        outcome_updates ih hs₂ target
    · intro primary s₁ hs₁ hhole
      refine .of_eq (members_of_stopped hs₁ primary) ?_
      rw [Outcome, updates_of_stopped hs₁]
      exact .inr ⟨hs₁, hhole⟩

/-- What follows the expression is reported, unless it was cut. -/
theorem outcome_root (bound : Nat) (h : s.Going) :
    Outcome (parseRoot bound) s fun position tree => tree.HoleUnder position maxParseDepth := by
  have hexpression := outcome_expression bound maxParseDepth s h
  rw [Outcome, parseRoot_apply]
  rcases hexpression with hgoing | ⟨hstopped, hhole⟩
  · refine .inl ?_
    unfold ParseState.close
    split
    · exact hgoing
    · exact hgoing.report (by simp [Issue.mended]) _
  · rw [ParseState.close, if_pos hstopped.kind]
    exact .inr ⟨hstopped, hhole⟩

end ParseM

/-! ## The list of problems -/

/-- What is unlike all the others but the last is the last. -/
theorem eq_nil_of_append_cons_eq {α : Type} {xs ys zs : List α} {a b : α}
    (h : xs ++ a :: ys = zs ++ [b]) (ha : a ∉ zs) : ys = [] ∧ a = b := by
  rcases List.eq_nil_or_concat ys with rfl | ⟨ys, c, rfl⟩
  · exact ⟨rfl, List.singleton_inj.1 (List.append_inj_right' h rfl)⟩
  · rw [List.concat_eq_append, ← List.cons_append, ← List.append_assoc] at h
    refine absurd ?_ ha
    rw [← List.append_inj_left' h rfl]
    exact List.mem_append_right _ List.mem_cons_self

namespace Problem

/-- Whether a problem is one of the parser, and not one of a token by itself. -/
def ofParser (q : Problem) : Bool :=
  q.issue = .nestedTooDeeply ∨ q.issue ∈ Issue.mended

theorem ofParser_of_problem? {t : Token} {q : Problem} (h : t.problem? = some q) :
    q.ofParser = false := by
  obtain ⟨issue, hissue, rfl⟩ := Option.map_eq_some_iff.1 h
  unfold Token.issue? at hissue
  split at hissue
  · cases hissue
    rfl
  · split at hissue <;> cases hissue
    rfl

theorem startsBefore_trans (p q r : Problem) (h : p.startsBefore q = true)
    (h' : q.startsBefore r = true) : p.startsBefore r = true := by
  simp only [startsBefore, decide_eq_true_eq] at h h' ⊢
  exact Nat.le_trans h h'

theorem startsBefore_total (p q : Problem) : (p.startsBefore q || q.startsBefore p) = true := by
  simp only [startsBefore, Bool.or_eq_true, decide_eq_true_eq]
  exact Nat.le_total ..

end Problem

/-! ## Texts -/

namespace ParseState

variable {text : String} {s : ParseState} {q : Problem}

theorem going_ofTokens (text : List Char) : (ofTokens (Token.ofText text)).Going := by
  obtain ⟨hfit, hahead, hproblems⟩ := fit_ofTokens (Token.ended_ofText text)
  have hordered := (Token.start_listFrom (text.length + 1) (.start text)).2
  refine ⟨hfit, by rwa [hahead], ?_⟩
  rw [hproblems]
  exact ⟨nofun, nofun, .nil⟩

/-- The parser reports at most once that nesting is too deep. -/
theorem countP_problems_le_one (h : s.Going ∨ s.Stopped) :
    s.problems.countP (·.issue = .nestedTooDeeply) ≤ 1 := by
  have hnone : ∀ {n : Nat} {ps : List Problem}, Problem.UpTo n ps →
      ps.countP (·.issue = .nestedTooDeeply) = 0 := fun h =>
    List.countP_eq_zero.2 fun q hq => by simpa using h.ne_nestedTooDeeply hq
  rcases h with hgoing | hstopped
  · rw [hnone hgoing.problems]
    exact Nat.zero_le 1
  · obtain ⟨earlier, last, hproblems, -, hearlier⟩ := hstopped.problems
    rw [hproblems, List.countP_append, hnone hearlier, Nat.zero_add]
    exact List.countP_le_length

/-- What is wrong by themselves with the tokens of a text, up to those that are still ahead. -/
def scanned (text : String) (s : ParseState) : List Problem :=
  ((Token.ofText text.toList).take ((Token.ofText text.toList).length - s.later.length)).filterMap
    Token.problem?

theorem exists_of_mem_scanned (h : q ∈ s.scanned text) :
    ∃ t ∈ Token.ofText text.toList, t.problem? = some q := by
  obtain ⟨t, ht, hq⟩ := List.mem_filterMap.1 h
  exact ⟨t, List.mem_of_mem_take ht, hq⟩

theorem ofParser_of_mem_scanned (h : q ∈ s.scanned text) : q.ofParser = false := by
  obtain ⟨t, -, hq⟩ := exists_of_mem_scanned h
  exact Problem.ofParser_of_problem? hq

theorem ne_nestedTooDeeply_of_mem_scanned (h : q ∈ s.scanned text) :
    q.issue ≠ .nestedTooDeeply := by
  intro hissue
  have hmark : q.ofParser = true := decide_eq_true (.inl hissue)
  exact absurd (ofParser_of_mem_scanned h) (ne_false_of_eq_true hmark)

/-- At the end of a text, all its tokens were looked at. -/
theorem mem_scanned_of_later_nil (h : s.later = []) {t : Token} (ht : t ∈ Token.ofText text.toList)
    (hq : t.problem? = some q) : q ∈ s.scanned text := by
  rw [scanned, h, List.length_nil, Nat.sub_zero, List.take_length]
  exact List.mem_filterMap.2 ⟨t, ht, hq⟩

theorem Stopped.ofParser (h : s.Stopped) : ∀ q ∈ s.problems, q.ofParser = true := by
  obtain ⟨earlier, last, hproblems, hlast, hearlier⟩ := h.problems
  rw [hproblems]
  refine List.forall_mem_append.2 ⟨fun q hq => ?_, List.forall_mem_singleton.2 ?_⟩
  · exact decide_eq_true (.inr (hearlier.mended q hq))
  · exact decide_eq_true (.inl hlast)

/-- Of all that is listed when the parser has stopped, its own problems are in the order of their
report. -/
theorem Stopped.filter_mergeSort (h : s.Stopped) (text : String) :
    ((s.problems ++ s.scanned text).mergeSort Problem.startsBefore).filter Problem.ofParser =
      s.problems := by
  obtain ⟨earlier, last, hproblems, -, hearlier⟩ := h.problems
  have hnone : (s.scanned text).filter Problem.ofParser = [] :=
    List.filter_eq_nil_iff.2 fun q hq => ne_true_of_eq_false (ofParser_of_mem_scanned hq)
  have hfilter : (s.problems ++ s.scanned text).filter Problem.ofParser = s.problems := by
    rw [List.filter_append, List.filter_eq_self.2 h.ofParser, hnone, List.append_nil]
  -- They were reported in the order of their starts, so the sort has nothing to move.
  have hsorted : s.problems.Pairwise fun p q => p.startsBefore q = true := by
    rw [hproblems]
    exact hearlier.sorted_append_singleton.imp decide_eq_true
  rw [filter_mergeSort_eq Problem.startsBefore_trans Problem.startsBefore_total
    (by rwa [hfilter]), hfilter]

end ParseState

/-- A text is cut off: `cut` says so, `after` is what is listed behind it, and `s` is what reading
has come to. -/
structure CutOff (text : String) (cut : Problem) (after : List Problem) (s : ParseState) :
    Prop where
  final : parseRoot (Token.ofText text.toList).length (.ofTokens (Token.ofText text.toList)) =
    ((parse text).tree, s)
  /-- The whole text was read, down to its end. -/
  read : s.current.kind = .endOfFile ∧ s.later = []
  /-- The parser reported nothing after it. -/
  last : s.problems.getLast? = some cut
  /-- What is listed behind it is wrong with a token by itself. -/
  after_scanned : ∀ q ∈ after, ∃ t ∈ Token.ofText text.toList, t.problem? = some q
  /-- What is wrong with any token of the text is listed. -/
  all_scanned : ∀ t ∈ Token.ofText text.toList, ∀ q ∈ t.problem?, q ∈ (parse text).problems
  /-- The nodes are one tree. -/
  complete : (parse text).arena.PostOrdered (parse text).root
  /-- A missing name stands where the expression was cut, under as many parentheses and initializers
  as may be nested. -/
  hole : (parse text).tree.HoleUnder s.lastEnd maxParseDepth
  /-- The name is one of the nodes. -/
  node : ∃ r, (parse text).arena.get? r = some (.hole s.lastEnd)

section Texts

variable {text : String} {tree : SyntaxTree} {s : ParseState} {q : Problem}

/-- What is listed of a text is what the parser has reported, and what is wrong with tokens. -/
theorem parse_of_root (hr : parseRoot (Token.ofText text.toList).length
      (.ofTokens (Token.ofText text.toList)) = (tree, s)) :
    (parse text).tree = tree ∧
      (parse text).problems = (s.problems ++ s.scanned text).mergeSort Problem.startsBefore := by
  rw [parse, parseTokens_eq hr]
  exact ⟨rfl, rfl⟩

theorem mem_problems_iff (hr : parseRoot (Token.ofText text.toList).length
      (.ofTokens (Token.ofText text.toList)) = (tree, s)) :
    q ∈ (parse text).problems ↔ q ∈ s.problems ∨ q ∈ s.scanned text := by
  rw [(parse_of_root hr).2, List.mem_mergeSort, List.mem_append]

/-- The nodes of a tree are one tree. -/
theorem Parsed.postOrdered (p : Parsed) : p.arena.PostOrdered p.root :=
  (p.tree.tiles_layOut {} (le_refl _)).postOrdered

theorem Parsed.exists_hole (p : Parsed) {position n : Nat} (h : p.tree.HoleUnder position n) :
    ∃ r, p.arena.get? r = some (.hole position) :=
  h.exists_node p.holds_root

theorem Parsed.countP_diagnostics (p : Parsed) (file : String) (issue : Issue) :
    (p.diagnostics file).countP (·.code = issue.code) = p.problems.countP (·.issue = issue) := by
  rw [Parsed.diagnostics, List.countP_map]
  exact List.countP_congr fun q _ => by simp [Issue.code_eq_iff]

/-- What is listed of a text at which the parser stops. -/
theorem ParseState.Stopped.cutOff (hstopped : s.Stopped)
    (hr : parseRoot (Token.ofText text.toList).length
      (.ofTokens (Token.ofText text.toList)) = (tree, s))
    (hhole : tree.HoleUnder s.lastEnd maxParseDepth) {before after : List Problem} {cut : Problem}
    (hlist : (parse text).problems = before ++ cut :: after)
    (hcut : cut.issue = .nestedTooDeeply) : CutOff text cut after s := by
  obtain ⟨rfl, hproblems⟩ := parse_of_root hr
  obtain ⟨earlier, last, hreported, -, hearlier⟩ := hstopped.problems
  have hown : before.filter Problem.ofParser ++ cut :: after.filter Problem.ofParser =
      earlier ++ [last] := by
    have hfilter := hstopped.filter_mergeSort text
    have hmark : cut.ofParser = true := decide_eq_true (.inl hcut)
    rwa [← hproblems, hlist, List.filter_append, List.filter_cons_of_pos hmark, hreported]
      at hfilter
  obtain ⟨hafter, rfl⟩ := eq_nil_of_append_cons_eq hown fun hmem =>
    hearlier.ne_nestedTooDeeply hmem hcut
  refine ⟨hr, ⟨hstopped.kind, hstopped.later⟩, ?_, fun q hq => ?_, fun t ht q hq => ?_,
    (parse text).postOrdered, hhole, (parse text).exists_hole hhole⟩
  · rw [hreported, List.getLast?_concat]
  · have hmem : q ∈ (parse text).problems := by
      rw [hlist]
      exact List.mem_append_right _ (List.mem_cons_of_mem _ hq)
    rcases (mem_problems_iff hr).1 hmem with hparser | hscanned
    · have hmark := List.mem_filter.2 ⟨hq, hstopped.ofParser q hparser⟩
      rw [hafter] at hmark
      cases hmark
    · exact ParseState.exists_of_mem_scanned hscanned
  · exact (mem_problems_iff hr).2 (.inr (ParseState.mem_scanned_of_later_nil hstopped.later ht hq))

end Texts

/-- **Nesting that is too deep is reported once, and nothing restates it.** The parser has read the
whole text by then and reports nothing more; what is listed behind comes from tokens, and the tree
has a missing name in place of what was cut. -/
theorem parse_cutOff (text : String) :
    (∀ file, ((parse text).diagnostics file).countP (·.code = Issue.nestedTooDeeply.code) ≤ 1) ∧
    ∀ before cut after, (parse text).problems = before ++ cut :: after →
      cut.issue = .nestedTooDeeply → ∃ s, CutOff text cut after s := by
  rcases hr : parseRoot (Token.ofText text.toList).length
    (.ofTokens (Token.ofText text.toList)) with ⟨tree, s⟩
  have houtcome := ParseM.outcome_root (Token.ofText text.toList).length
    (ParseState.going_ofTokens text.toList)
  rw [ParseM.Outcome, hr] at houtcome
  refine ⟨fun file => ?_, fun before cut after hlist hcut => ?_⟩
  · have hnone : (s.scanned text).countP (·.issue = .nestedTooDeeply) = 0 :=
      List.countP_eq_zero.2 fun q hq => by
        simpa using ParseState.ne_nestedTooDeeply_of_mem_scanned hq
    rw [Parsed.countP_diagnostics, (parse_of_root hr).2, (List.mergeSort_perm _ _).countP_eq,
      List.countP_append, hnone]
    exact ParseState.countP_problems_le_one (houtcome.imp_right And.left)
  · rcases houtcome with hgoing | ⟨hstopped, hhole⟩
    · have hmem : cut ∈ (parse text).problems := by
        rw [hlist]
        exact List.mem_append_right _ List.mem_cons_self
      rcases (mem_problems_iff hr).1 hmem with hmem | hmem
      · exact absurd hcut (hgoing.problems.ne_nestedTooDeeply hmem)
      · exact absurd hcut (ParseState.ne_nestedTooDeeply_of_mem_scanned hmem)
    · exact ⟨s, hstopped.cutOff hr hhole hlist hcut⟩

/-- One parenthesis more than may be nested: this is the only problem, though none is closed. -/
theorem parse_cutOff_parens :
    (parse (String.ofList (List.replicate 257 '('))).problems =
      [⟨.nestedTooDeeply, ⟨256, 257⟩, []⟩] ∧
    ∃ s, CutOff (String.ofList (List.replicate 257 '(')) ⟨.nestedTooDeeply, ⟨256, 257⟩, []⟩ []
      s := by
  have hlist : (parse (String.ofList (List.replicate 257 '('))).problems =
      [⟨.nestedTooDeeply, ⟨256, 257⟩, []⟩] := by
    rw [parse, String.toList_ofList]
    decide +kernel
  exact ⟨hlist, (parse_cutOff _).2 [] _ [] hlist rfl⟩

end UpdateExpr
