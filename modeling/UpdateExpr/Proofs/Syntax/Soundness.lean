import UpdateExpr.Proofs.Syntax.Grammar
import UpdateExpr.Proofs.Syntax.Reading
import UpdateExpr.Proofs.Syntax.Whole

/-!
# What is read without a report

A rule that reports nothing has read tokens of its language, and gives a whole tree. The rules are
taken from the innermost outwards, and nesting is by induction on the depth that is left.
-/

namespace UpdateExpr

namespace ParseM

open Grammar Computability

variable {nested : ParseM SyntaxTree} {l : Language Token} {here : List Token → Prop} {start : Nat}

/-- What a rule for expressions should read: a whole tree. -/
def ReadsTree (l : Language Token) (e : SyntaxTree) (ts : List Token) : Prop :=
  ts ∈ l ∧ e.IsWhole

/-- What a rule for the tail of an expression should read: a tree that is whole if the expression
before it is. -/
def ReadsTail (l : Language Token) (target e : SyntaxTree) (ts : List Token) : Prop :=
  ts ∈ l ∧ (target.IsWhole → e.IsWhole)

theorem reads_expect {kind : TokenKind} (hk : kind ≠ .endOfFile) (hn : kind ≠ .number) :
    Reads here (expect kind) fun there ts => there = true ∧ ts ∈ token kind := by
  refine Reads.current fun t => ?_
  by_cases ht : t.kind = kind
  · rw [if_pos ht]
    refine Reads.advance (ht ▸ hk) (Token.inRange_of_ne (ht ▸ hn)) (Reads.pure ?_)
    exact ⟨rfl, singleton_mem_token ht⟩
  · rw [if_neg ht]
    exact Reads.report fun _ => Nat.le_refl _

theorem reads_name :
    Reads here parseName fun id ts => ts ∈ token .identifier ∧ id.IsWhole := by
  -- A name is whole because the token for it is sane, so the token is kept in `reads`.
  have named : ∀ t : Token, t.kind = .identifier →
      Reads (fun ts => here ts ∧ ts.head? = some t)
        (advance >>= fun _ => pure (⟨t.value, t.span, false⟩ : Identifier))
        fun id ts => ts = [t] ∧ id = ⟨t.value, t.span, false⟩ := by
    intro t ht
    refine Reads.advance (by simp [ht]) (Token.inRange_of_ne (by simp [ht])) (Reads.pure ?_)
    exact ⟨rfl, rfl⟩
  refine Reads.current fun t => ?_
  by_cases ht : t.kind = .identifier
  · rw [if_pos ht]
    refine Reads.meet ((named t ht).of_sane ?_)
    rintro id ts hsane ⟨rfl, rfl⟩
    exact ⟨singleton_mem_token ht, ⟨(hsane t (by simp)).name ht, rfl⟩⟩
  · rw [if_neg ht]
    exact Reads.report fun _ => Nat.le_refl _

theorem reads_number {t : Token} (ht : t.kind = .number) :
    Reads (fun ts => here ts ∧ ts.head? = some t) (parseNumber t)
      (ReadsTree (token .number)) := by
  unfold parseNumber
  by_cases hv : LiteralValue.ofNumber t.value.toList t.flags = .invalid
  · simp only [hv, if_true]
    refine Reads.report fun s => ?_
    exact Nat.le_of_eq (congrArg List.length (ParseState.problems_advance s)).symm
  · simp only [hv, if_false]
    refine Reads.advance (by simp [ht]) (fun _ => hv) (Reads.pure ?_)
    exact ⟨singleton_mem_token ht, .literal hv⟩

/-- A token that is an expression by itself. -/
theorem reads_single {t : Token} {kind : TokenKind} {e : SyntaxTree} (ht : t.kind = kind)
    (hk : kind ≠ .endOfFile) (hn : kind ≠ .number) (he : e.IsWhole) :
    Reads (fun ts => here ts ∧ ts.head? = some t) (advance >>= fun _ => pure e)
      (ReadsTree (token kind)) := by
  refine Reads.advance (ht ▸ hk) (Token.inRange_of_ne (ht ▸ hn)) (Reads.pure ?_)
  exact ⟨singleton_mem_token ht, he⟩

theorem reads_paren (hn : ∀ {here}, Reads here nested (ReadsTree l)) {t : Token}
    (ht : t.kind = .openParen) :
    Reads (fun ts => here ts ∧ ts.head? = some t)
      (advance >>= fun _ => nested >>= fun inner => expect .closeParen >>= fun _ =>
        spanFrom t.span.start >>= fun span => pure (.paren inner span))
      (ReadsTree (token .openParen * l * token .closeParen)) := by
  refine Reads.advance (by simp [ht]) (Token.inRange_of_ne (by simp [ht])) ?_
  refine Reads.bind hn fun inner => ?_
  refine Reads.bind (reads_expect (by simp) (by simp)) fun there => ?_
  refine Reads.spanFrom fun span => Reads.pure ?_
  rintro close ⟨-, hc⟩ ts ⟨hts, hw⟩
  refine ⟨?_, .paren hw⟩
  have h := Language.append_mem_mul
    (Language.append_mem_mul (singleton_mem_token ht) hts) hc
  simpa using h

/-- A token that starts nothing is passed over, but it is not sane. -/
theorem reads_unknown {t : Token} {e : SyntaxTree} (ht : t.kind = .unknown) :
    Reads (fun ts => here ts ∧ ts.head? = some t) (advance >>= fun _ => pure e) (ReadsTree l) := by
  have h : Reads (fun ts => here ts ∧ ts.head? = some t) (advance >>= fun _ => pure e)
      fun _ ts => ts = [t] :=
    Reads.advance (by simp [ht]) (Token.inRange_of_ne (by simp [ht])) (Reads.pure rfl)
  refine h.of_sane ?_
  rintro _ _ hsane rfl
  exact absurd ht (hsane t (by simp)).kind_ne_unknown

theorem reads_primary (hn : ∀ {here}, Reads here nested (ReadsTree l)) :
    Reads here (parsePrimary nested) (ReadsTree (primary l)) := by
  refine Reads.current fun t => ?_
  have of_mem : ∀ {l' : Language Token}, (∀ ts, ts ∈ l' → ts ∈ primary l) →
      ∀ e ts, ReadsTree l' e ts → ReadsTree (primary l) e ts :=
    fun hl e ts h => ⟨hl ts h.1, h.2⟩
  cases hk : t.kind
  case number =>
    exact (reads_number hk).weaken (of_mem fun ts h => mem_primary.2 (by simp [h]))
  case string =>
    exact (reads_single hk (by simp) (by simp) (.literal (by simp))).weaken
      (of_mem fun ts h => mem_primary.2 (by simp [h]))
  case trueKeyword =>
    exact (reads_single hk (by simp) (by simp) (.keyword rfl)).weaken
      (of_mem fun ts h => mem_primary.2 (by simp [h]))
  case falseKeyword =>
    exact (reads_single hk (by simp) (by simp) (.keyword rfl)).weaken
      (of_mem fun ts h => mem_primary.2 (by simp [h]))
  case nullKeyword =>
    exact (reads_single hk (by simp) (by simp) (.keyword rfl)).weaken
      (of_mem fun ts h => mem_primary.2 (by simp [h]))
  case identifier =>
    apply Reads.bind reads_name
    intro id
    apply Reads.pure
    rintro ts ⟨hts, hid⟩
    rw [List.append_nil]
    exact ⟨mem_primary.2 (by simp [hts]), .identifier hid⟩
  case openParen =>
    exact (reads_paren hn hk).weaken (of_mem fun ts h => mem_primary.2 (by simp [h]))
  case unknown =>
    exact reads_unknown hk
  all_goals exact Reads.report fun _ => Nat.le_refl _

/-- Only a member is called. -/
theorem reads_call {target : SyntaxTree} {name : Identifier} {inner : Span} :
    Reads here (parseCall start (.access target name inner))
      (ReadsTail (1 + token .openParen * token .closeParen) (.access target name inner)) := by
  refine Reads.current fun t => ?_
  by_cases ht : t.kind = .openParen
  · rw [if_pos ht]
    refine Reads.advance (by simp [ht]) (Token.inRange_of_ne (by simp [ht])) ?_
    refine Reads.bind (reads_expect (by simp) (by simp)) fun there => ?_
    refine Reads.spanFrom fun span => Reads.pure ?_
    rintro close ⟨-, hc⟩
    refine ⟨(Language.mem_add _ _ _).2 (.inr ?_), .call⟩
    rw [List.append_nil]
    exact Language.append_mem_mul (singleton_mem_token ht) hc
  · rw [if_neg ht]
    apply Reads.pure
    exact ⟨(Language.mem_add _ _ _).2 (.inl rfl), id⟩

theorem reads_members (n : Nat) (target : SyntaxTree) :
    Reads here (parseMembers start n target) (ReadsTail member∗ target) := by
  induction n generalizing target here with
  | zero => exact Reads.pure ⟨Language.nil_mem_kstar _, id⟩
  | succ n ih =>
    refine Reads.current fun t => ?_
    by_cases ht : t.kind = .dot
    · rw [if_pos ht]
      refine Reads.advance (by simp [ht]) (Token.inRange_of_ne (by simp [ht])) ?_
      refine Reads.bind reads_name fun id => ?_
      refine Reads.spanFrom fun span => ?_
      refine Reads.bind reads_call fun e => (ih e).weaken ?_
      rintro e' us ⟨hus, he'⟩ cs ⟨hcs, he⟩ ns ⟨hns, hid⟩
      refine ⟨?_, fun hw => he' (he (.access hw hid))⟩
      have hm : [t] ++ ns ++ cs ∈ member :=
        Language.append_mem_mul (Language.append_mem_mul (singleton_mem_token ht) hns) hcs
      have h := mem_kstar_of_append hm hus
      simpa using h
    · rw [if_neg ht]
      exact Reads.pure ⟨Language.nil_mem_kstar _, id⟩

/-- What the rules for changes of an update should read. -/
def ReadsEntry (l : Language Token) (entry : Initializer SyntaxTree) (ts : List Token) : Prop :=
  ts ∈ l ∧ (∀ id ∈ entry.name, id.IsWhole) ∧ entry.value.IsWhole

/-- A name, an equals sign and a value. The two tokens are known to be there. -/
theorem reads_named (hn : ∀ {here}, Reads here nested (ReadsTree l)) {t u : Token} {span : Span}
    (ht : t.kind = .identifier) (hu : u.kind = .equals) :
    Reads (fun ts => ts.tail.head? = some u ∧ ts.head? = some t)
      (advance >>= fun _ => parseNamedInitializer nested start ⟨t.value, span, false⟩)
      (ReadsEntry (init l)) := by
  have h : Reads (fun ts => ts.tail.head? = some u ∧ ts.head? = some t)
      (advance >>= fun _ => parseNamedInitializer nested start ⟨t.value, span, false⟩)
      fun entry ts => (∀ t ∈ ts, t.Sane) → ReadsEntry (init l) entry ts := by
    refine Reads.advance (by simp [ht]) (Token.inRange_of_ne (by simp [ht])) ?_
    refine Reads.strengthen (?_ : Reads (fun ts => True ∧ ts.head? = some u) _ _)
      fun ts hts => ⟨trivial, hts⟩
    refine Reads.advance (by simp [hu]) (Token.inRange_of_ne (by simp [hu])) ?_
    refine Reads.bind hn fun value => ?_
    refine Reads.spanFrom fun span => Reads.pure ?_
    rintro ts ⟨hts, hv⟩ hsane
    have hname : t.value ≠ "" := (hsane t (by simp)).name ht
    refine ⟨(Language.mem_add _ _ _).2 (.inl ?_), ?_, hv⟩
    · have h := Language.append_mem_mul (Language.append_mem_mul (singleton_mem_token ht)
        (singleton_mem_token hu)) hts
      simpa using h
    · rintro _ ⟨⟩
      exact ⟨hname, rfl⟩
  exact h.of_sane fun entry ts hsane hreads => hreads hsane

theorem reads_initializer (hn : ∀ {here}, Reads here nested (ReadsTree l)) :
    Reads here (parseInitializer nested) (ReadsEntry (init l)) := by
  have bare : ∀ {here start}, Reads here (parseBareInitializer nested start)
      (ReadsEntry (init l)) := by
    intro here start
    refine Reads.bind hn fun value => ?_
    refine Reads.spanFrom fun span => Reads.pure ?_
    rintro ts ⟨hts, hv⟩
    rw [List.append_nil]
    exact ⟨(Language.mem_add _ _ _).2 (.inr hts), nofun, hv⟩
  have named_mono : ∀ start id (s : ParseState),
      s.problems.length ≤ (parseNamedInitializer nested start id s).2.problems.length := by
    intro start id s
    have h := (hn : Reads (fun _ => True) nested (ReadsTree l)).mono s.advance
    rwa [ParseState.problems_advance] at h
  refine Reads.current fun t => ?_
  cases ht : t.kind
  case identifier =>
    -- The parser looks one token further, so the tokens ahead decide what is read.
    refine Reads.meet (Reads.get fun s => ?_)
    cases hq : s.nextIs .equals with
    | false =>
      rw [if_neg Bool.false_ne_true]
      exact bare
    | true =>
      rw [if_pos rfl]
      cases hl : s.later with
      | nil => simp [ParseState.nextIs, hl] at hq
      | cons u us =>
        have hu : u.kind = .equals := by simpa [ParseState.nextIs, hl] using hq
        refine (reads_named hn ht hu).strengthen ?_
        rintro ts ⟨⟨-, hhead⟩, rfl⟩
        exact ⟨by simp [ParseState.ahead, hl], hhead⟩
  case equals => exact Reads.report (named_mono _ _)
  all_goals exact bare

/-- What the rule for the list of changes should read. -/
def ReadsEntries (l : Language Token) (result : List (Initializer SyntaxTree) × Bool)
    (ts : List Token) : Prop :=
  ts ∈ 1 + entries l ∧ ∀ entry ∈ result.1, (∀ id ∈ entry.name, id.IsWhole) ∧ entry.value.IsWhole

theorem reads_initializers (hn : ∀ {here}, Reads here nested (ReadsTree l)) (n : Nat) :
    Reads here (parseInitializers nested n) (ReadsEntries l) := by
  have none_left : ReadsEntries l ([], false) [] :=
    ⟨(Language.mem_add _ _ _).2 (.inl rfl), nofun⟩
  induction n generalizing here with
  | zero => exact Reads.pure none_left
  | succ n ih =>
    refine Reads.current fun t => ?_
    by_cases hend : t.kind = .closeBrace ∨ t.kind = .endOfFile
    · simp only [hend, if_true]
      exact Reads.pure none_left
    · simp only [hend, if_false]
      refine Reads.bind (reads_initializer hn) fun entry => Reads.current fun t => ?_
      by_cases ht : t.kind = .comma
      · rw [if_pos ht]
        refine Reads.advance (by simp [ht]) (Token.inRange_of_ne (by simp [ht])) ?_
        refine Reads.current fun behind => Reads.bind ih fun rest => Reads.pure ?_
        rintro us ⟨hus, hrest⟩ ts ⟨hts, hentry⟩
        refine ⟨(Language.mem_add _ _ _).2 (.inr ?_), List.forall_mem_cons.2 ⟨hentry, hrest⟩⟩
        rw [List.append_nil]
        rcases (Language.mem_add _ _ _).1 hus with rfl | hus
        · exact entries_of_comma hts ht
        · exact entries_of_append hts ht hus
      · rw [if_neg ht]
        apply Reads.pure
        rintro ts ⟨hts, hentry⟩
        rw [List.append_nil]
        refine ⟨(Language.mem_add _ _ _).2 (.inr (entries_of_init hts)), ?_⟩
        simpa using hentry

theorem reads_update (hn : ∀ {here}, Reads here nested (ReadsTree l)) {t : Token}
    (ht : t.kind = .withKeyword) (n : Nat) (receiver : SyntaxTree) :
    Reads (fun ts => here ts ∧ ts.head? = some t) (parseUpdate nested n receiver)
      (ReadsTail (update l) receiver) := by
  refine Reads.advance (by simp [ht]) (Token.inRange_of_ne (by simp [ht])) ?_
  refine Reads.current fun u => ?_
  refine Reads.bind (reads_expect (by simp) (by simp)) fun there => ?_
  cases there with
  | false =>
    rw [if_neg Bool.false_ne_true]
    refine Reads.spanFrom fun span => Reads.pure ?_
    rintro _ ⟨hf, -⟩
    exact absurd hf Bool.false_ne_true
  | true =>
    rw [if_pos rfl]
    refine Reads.get fun s => ?_
    refine Reads.bind (reads_initializers hn n) fun list => ?_
    refine Reads.current fun last => ?_
    refine Reads.bind (reads_expect (by simp) (by simp)) fun closed => ?_
    refine Reads.spanFrom fun span => Reads.pure ?_
    rintro close ⟨-, hc⟩ es ⟨hes, hw⟩ op ⟨-, ho⟩
    refine ⟨?_, fun hr => .update hr (fun e he => (hw e he).1) fun e he => (hw e he).2⟩
    have h : [t] ++ op ++ es ++ close ∈ update l := Language.append_mem_mul
      (Language.append_mem_mul (Language.append_mem_mul (singleton_mem_token ht) ho) hes) hc
    simpa using h

theorem reads_updates (hn : ∀ {here}, Reads here nested (ReadsTree l)) (bound n : Nat)
    (receiver : SyntaxTree) :
    Reads here (parseUpdates nested bound n receiver) (ReadsTail (update l)∗ receiver) := by
  induction n generalizing receiver here with
  | zero => exact Reads.pure ⟨Language.nil_mem_kstar _, id⟩
  | succ n ih =>
    refine Reads.current fun t => ?_
    by_cases ht : t.kind = .withKeyword
    · rw [if_pos ht]
      refine Reads.bind (reads_update hn ht bound receiver) fun e => (ih e).weaken ?_
      rintro e' us ⟨hus, he'⟩ ts ⟨hts, he⟩
      exact ⟨mem_kstar_of_append hts hus, fun hw => he' (he hw)⟩
    · rw [if_neg ht]
      exact Reads.pure ⟨Language.nil_mem_kstar _, id⟩

/-- **An expression that is read without a report is of the grammar**, within the depth that is
left, and its tree is whole. -/
theorem reads_expression (bound depth : Nat) :
    Reads here (parseExpression bound depth) (ReadsTree (expr depth)) := by
  induction depth generalizing here with
  | zero =>
    refine Reads.current fun t => Reads.report fun s => ?_
    have h := ParseState.problems_skipToEnd { s with cut := true }
    exact Nat.le_of_eq (congrArg List.length h).symm
  | succ depth ih =>
    refine Reads.current fun t => ?_
    refine Reads.bind (reads_primary ih) fun primary => ?_
    refine Reads.bind (reads_members bound primary) fun target => ?_
    refine (reads_updates ih bound bound target).weaken ?_
    rintro e us ⟨hus, he⟩ ms ⟨hms, htarget⟩ ps ⟨hps, hprimary⟩
    refine ⟨?_, he (htarget hprimary)⟩
    have h : ps ++ ms ++ us ∈ expr (depth + 1) :=
      Language.append_mem_mul (Language.append_mem_mul hps hms) hus
    simpa using h

end ParseM

end UpdateExpr
