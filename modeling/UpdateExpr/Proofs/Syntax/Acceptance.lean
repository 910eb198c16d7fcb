import UpdateExpr.Proofs.Syntax.Forms

/-!
# What tokens form is read

Tokens that form a tree are read to their end without a report, if what stands behind them cannot go
on with it, and what is read is that tree. Members and updates are read from left to right while the
expression before them is built, so the proof goes down to the first token of an expression and
carries along what is to be read behind it. Nesting is by induction on the depth.

## Main definitions

* `ParseM.Accepts`: a rule reads some tokens and reports nothing
* `ParseM.AcceptsAll`: a rule reads all that tokens form to some depth

## Main results

* `ParseM.accepts_operand`, `ParseM.accepts_chain`: members and updates behind an expression
* `ParseM.accepts_expression`: the rule for expressions reads every tree that tokens form
* `Forms.unique`: tokens form one tree at most
-/

namespace UpdateExpr

@[simp] theorem ParseState.lastEnd_advance (s : ParseState) :
    s.advance.lastEnd = s.current.span.stop := by
  unfold advance
  split <;> rfl

namespace ParseM

open Grammar

/-- Behind a token that ends somewhere, a rule reads some tokens off the front, leaves the rest,
reports nothing, and gives something certain. -/
def Accepts {α : Type} (m : ParseM α) (last : Nat) (ts rest : List Token) (a : α) : Prop :=
  ∀ s : ParseState, s.ahead = ts ++ rest → s.lastEnd = last →
    (m s).1 = a ∧ (m s).2.ahead = rest ∧ (m s).2.lastEnd = endOf last ts ∧
      (m s).2.problems = s.problems

/-- A rule for expressions reads all that tokens form to some depth, in front of a follower. -/
def AcceptsAll (bound depth : Nat) (m : ParseM SyntaxTree) : Prop :=
  ∀ ts e, Forms depth ts e → ts.length ≤ bound →
    ∀ last rest, (∃ k ∈ followers, head? rest = some k) → Accepts m last ts rest e

namespace Accepts

variable {α β : Type} {ts us rest : List Token} {t : Token} {last : Nat} {a : α} {b : β}
  {m : ParseM α} {f : α → ParseM β} {k : ParseM β}

theorem pure : Accepts (pure a) last [] rest a :=
  fun _ hs hl => ⟨rfl, hs, hl, rfl⟩

/-- **One rule after another.** -/
theorem bind (hm : Accepts m last ts (us ++ rest) a)
    (hf : Accepts (f a) (endOf last ts) us rest b) : Accepts (m >>= f) last (ts ++ us) rest b := by
  intro s hs hl
  obtain ⟨hg, ha, he, hp⟩ := hm s (by rw [hs, List.append_assoc]) hl
  obtain ⟨hg', ha', he', hp'⟩ := hf (m s).2 ha he
  have hrun : (m >>= f) s = f a (m s).2 := by rw [← hg]; rfl
  rw [hrun, endOf_append]
  exact ⟨hg', ha', he', hp'.trans hp⟩

/-- A rule that reads one token, before another one. -/
theorem bind_cons (hm : Accepts m last [t] (us ++ rest) a)
    (hf : Accepts (f a) t.span.stop us rest b) : Accepts (m >>= f) last (t :: us) rest b :=
  bind hm hf

/-- A rule that reads the last of the tokens. -/
theorem bind_last (hm : Accepts m last ts rest a) (hf : Accepts (f a) (endOf last ts) [] rest b) :
    Accepts (m >>= f) last ts rest b := by
  rw [← List.append_nil ts]
  exact bind hm hf

/-- **A rule may look at the token that is read next.** -/
theorem current {f : Token → ParseM β} (ht : (ts ++ rest).head? = some t)
    (hf : Accepts (f t) last ts rest b) : Accepts (currentToken >>= f) last ts rest b := by
  intro s hs hl
  obtain rfl : s.current = t := Option.some.inj (ht ▸ hs ▸ rfl)
  exact hf s hs hl

theorem get {f : ParseState → ParseM β}
    (hf : ∀ s : ParseState, s.ahead = ts ++ rest → s.lastEnd = last →
      Accepts (f s) last ts rest b) :
    Accepts (MonadState.get >>= f) last ts rest b := by
  intro s hs hl
  exact hf s hs hl s hs hl

/-- A span ends where the last token does. -/
theorem spanFrom {start : Nat} {f : Span → ParseM β}
    (hf : Accepts (f ⟨start, last⟩) last ts rest b) :
    Accepts (UpdateExpr.spanFrom start >>= f) last ts rest b := by
  intro s hs hl
  subst hl
  exact hf s hs rfl

theorem meet {name : String} (hk : Accepts k last ts rest b) :
    Accepts (modify (·.meet name) >>= fun _ => k) last ts rest b := by
  intro s hs hl
  exact hk (s.meet name) hs hl

/-- **A token is read**, unless it is the last one. -/
theorem advance (hne : ts ++ rest ≠ []) (hk : Accepts k t.span.stop ts rest b) :
    Accepts (UpdateExpr.advance >>= fun _ => k) last (t :: ts) rest b := by
  intro s hs _
  have ht : s.current = t := (List.cons.inj hs).1
  obtain ⟨hg, ha, he, hp⟩ := hk s.advance (ParseState.ahead_advance hs hne)
    (by rw [ParseState.lastEnd_advance, ht])
  exact ⟨hg, ha, he, hp.trans (ParseState.problems_advance s)⟩

end Accepts

variable {nested : ParseM SyntaxTree} {ts us rest : List Token} {t : Token}
  {start bound depth n last : Nat} {e result : SyntaxTree}

/-! ## Tokens -/

theorem accepts_expect {kind : TokenKind} (hr : rest ≠ []) (ht : t.kind = kind) :
    Accepts (expect kind) last [t] rest true := by
  refine Accepts.current (t := t) rfl ?_
  rw [if_pos ht]
  exact Accepts.advance hr Accepts.pure

theorem accepts_name (hr : rest ≠ []) (ht : t.kind = .identifier) :
    Accepts parseName last [t] rest t.identifier := by
  refine Accepts.current (t := t) rfl ?_
  rw [if_pos ht]
  exact Accepts.meet (Accepts.advance hr Accepts.pure)

/-! ## Operands -/

theorem accepts_literal (hr : rest ≠ []) (hk : t.kind ∈ literalKinds) (hv : t.InRange) :
    Accepts (parsePrimary nested) last [t] rest t.tree := by
  have single : ∀ tree : SyntaxTree, tree = t.tree →
      Accepts (advance >>= fun _ => pure tree) last [t] rest t.tree :=
    fun tree h => h ▸ Accepts.advance hr Accepts.pure
  refine Accepts.current (t := t) rfl ?_
  cases ht : t.kind
  case number =>
    unfold parseNumber
    simp only [hv ht, if_false]
    exact single _ (by simp [Token.tree, ht])
  case string | trueKeyword | falseKeyword | nullKeyword =>
    exact single _ (by simp [Token.tree, ht])
  all_goals simp [ht, literalKinds] at hk

theorem accepts_identifier (hr : rest ≠ []) (ht : t.kind = .identifier) :
    Accepts (parsePrimary nested) last [t] rest (.identifier t.identifier) := by
  refine Accepts.current (t := t) rfl ?_
  simp only [ht]
  exact Accepts.bind_last (accepts_name hr ht) Accepts.pure

theorem accepts_paren (hn : AcceptsAll bound depth nested) {op close : Token}
    (ho : op.kind = .openParen) (hi : Forms depth ts e) (hc : close.kind = .closeParen)
    (hb : ts.length ≤ bound) (hr : rest ≠ []) :
    Accepts (parsePrimary nested) last (op :: (ts ++ [close])) rest
      (.paren e ⟨op.span.start, close.span.stop⟩) := by
  refine Accepts.current (t := op) rfl ?_
  have hfollow : ∃ k ∈ followers, head? ([close] ++ rest) = some k :=
    ⟨.closeParen, by simp [followers], congrArg some hc⟩
  simp only [ho]
  refine Accepts.advance (by simp) (Accepts.bind (hn ts e hi hb _ _ hfollow) ?_)
  exact Accepts.bind_last (accepts_expect hr hc) (Accepts.spanFrom Accepts.pure)

/-- Without a call, the token behind must not open one. -/
theorem accepts_no_call {target : SyntaxTree} (hr : rest ≠ []) (hh : head? rest ≠ some .openParen) :
    Accepts (parseCall start target) last [] rest target := by
  obtain ⟨u, us, rfl⟩ := List.exists_cons_of_ne_nil hr
  refine Accepts.current (t := u) rfl ?_
  have hk : u.kind ≠ .openParen := by simpa using hh
  rw [if_neg hk]
  exact Accepts.pure

theorem accepts_call {target : SyntaxTree} {op close : Token} (ho : op.kind = .openParen)
    (hc : close.kind = .closeParen) (hr : rest ≠ []) :
    Accepts (parseCall start target) last [op, close] rest
      (.call target ⟨start, close.span.stop⟩) := by
  refine Accepts.current (t := op) rfl ?_
  rw [if_pos ho]
  refine Accepts.advance (by simp) ?_
  exact Accepts.bind_last (accepts_expect hr hc) (Accepts.spanFrom Accepts.pure)

/-- Without a dot there is no member. -/
theorem accepts_no_members (hr : rest ≠ []) (hh : head? rest ≠ some .dot) :
    Accepts (parseMembers start n e) last [] rest e := by
  cases n with
  | zero => exact Accepts.pure
  | succ n =>
    obtain ⟨u, us, rfl⟩ := List.exists_cons_of_ne_nil hr
    refine Accepts.current (t := u) rfl ?_
    have hk : u.kind ≠ .dot := by simpa using hh
    rw [if_neg hk]
    exact Accepts.pure

/-- A member is read, and maybe its call, and then what is behind. -/
theorem accepts_member (call : List Token) {target tree : SyntaxTree} {dot name : Token}
    (hd : dot.kind = .dot) (hn : name.kind = .identifier) (hr : us ++ rest ≠ [])
    (hlen : (dot :: name :: (call ++ us)).length ≤ n)
    (hcall : Accepts (parseCall start (.access target name.identifier ⟨start, name.span.stop⟩))
      name.span.stop call (us ++ rest) tree)
    (hmore : ∀ m, us.length ≤ m →
      Accepts (parseMembers start m tree) (endOf name.span.stop call) us rest result) :
    Accepts (parseMembers start n target) last (dot :: name :: (call ++ us)) rest result := by
  cases n with
  | zero => simp at hlen
  | succ n =>
    refine Accepts.current (t := dot) rfl ?_
    rw [if_pos hd]
    refine Accepts.advance (by simp) ?_
    refine Accepts.bind_cons (accepts_name (by simpa using fun _ => hr) hn) ?_
    refine Accepts.spanFrom (Accepts.bind hcall (hmore n ?_))
    simp only [List.length_cons, List.length_append] at hlen
    omega

/-- **Members behind a primary.** What stands behind an operand is read with its tree. -/
theorem accepts_operand (hn : AcceptsAll bound depth nested) (h : Forms (depth + 1) ts e)
    (ho : e.IsOperand) (hb : ts.length ≤ bound) (hstart : e.span.start = start)
    (hr : us ++ rest ≠ []) (hh : head? (us ++ rest) ≠ some .openParen)
    (hlen : (ts ++ us).length ≤ n)
    (hmore : ∀ m, us.length ≤ m →
      Accepts (parseMembers start m e) (endOf last ts) us rest result) :
    Accepts (parsePrimary nested >>= parseMembers start n) last (ts ++ us) rest result := by
  have hlen' : us.length ≤ n := by
    rw [List.length_append] at hlen
    omega
  have hleft : ∀ {ts us : List Token}, (ts ++ us).length ≤ bound → ts.length ≤ bound :=
    fun h => Nat.le_trans (List.sublist_append_left _ _).length_le h
  -- A member stands behind its target, so the target is read first, with the member as a part of
  -- what comes behind it.
  induction h generalizing us with
  | literal hk hv => exact Accepts.bind (accepts_literal hr hk hv) (hmore n hlen')
  | name hk => exact Accepts.bind (accepts_identifier hr hk) (hmore n hlen')
  | paren hop hi hc =>
    have hinner := hleft (List.sublist_cons_self _ _ |>.length_le.trans hb)
    exact Accepts.bind (accepts_paren hn hop hi hc hinner hr) (hmore n hlen')
  | access hbefore ho' hdot hname ih =>
    obtain rfl := hstart
    rw [List.append_assoc] at hlen ⊢
    refine ih ho' (hleft hb) rfl (by simp) (by simp [hdot]) hlen ?_ ?_
    · intro m hm
      refine accepts_member [] hdot hname hr hm (accepts_no_call hr hh) fun m hm => ?_
      have hread := hmore m hm
      rw [endOf_append] at hread
      exact hread
    · exact Nat.le_trans (List.sublist_append_right _ _).length_le hlen
  | call hbefore ho' hdot hname hop hc ih =>
    obtain rfl := hstart
    rw [List.append_assoc] at hlen ⊢
    refine ih ho' (hleft hb) rfl (by simp) (by simp [hdot]) hlen ?_ ?_
    · intro m hm
      refine accepts_member [_, _] hdot hname hr hm (accepts_call hop hc hr) fun m hm => ?_
      have hread := hmore m hm
      rw [endOf_append] at hread
      exact hread
    · exact Nat.le_trans (List.sublist_append_right _ _).length_le hlen
  | update _ _ _ _ _ => exact ho.elim

/-! ## Initializers -/

/-- What the parser sees of the token behind the next one. -/
theorem nextIs_eq {s : ParseState} {kind : TokenKind} (h : s.ahead = t :: ts) :
    s.nextIs kind = (head? ts == some kind) := by
  obtain ⟨-, rfl⟩ := List.cons.inj h
  rfl

/-- A value without a name. No equals sign may follow, within the value or behind it. -/
theorem accepts_bare_initializer (hn : AcceptsAll bound depth nested)
    (he : Forms depth (t :: ts) e) (hb : (t :: ts).length ≤ bound)
    (hr : ∃ k ∈ followers, head? rest = some k) :
    Accepts (parseInitializer nested) last (t :: ts) rest
      ⟨none, e, ⟨t.span.start, endOf t.span.stop ts⟩⟩ := by
  have bare : Accepts (parseBareInitializer nested t.span.start) last (t :: ts) rest
      ⟨none, e, ⟨t.span.start, endOf t.span.stop ts⟩⟩ :=
    Accepts.bind_last (hn _ e he hb last rest hr) (Accepts.spanFrom Accepts.pure)
  have hequals : head? rest ≠ some .equals := by
    obtain ⟨k, hk, hrest⟩ := hr
    rintro h
    simp [Option.some.inj (hrest.symm.trans h), followers] at hk
  obtain ⟨u, us, hts, ht, heq⟩ := he.starts.append hequals
  obtain ⟨rfl, hus⟩ := List.cons.inj hts
  refine Accepts.current (t := t) rfl ?_
  cases hk : t.kind
  case identifier =>
    refine Accepts.meet (Accepts.get fun s hs _ => ?_)
    have hnext : s.nextIs .equals = false := by
      rw [nextIs_eq (hs.trans hts)]
      simpa using heq hk
    rw [if_neg (by simp [hnext])]
    exact bare
  case equals => simp [hk, starters, atoms] at ht
  all_goals exact bare

/-- A value with a name. The equals sign behind the name is what the parser looks for. -/
theorem accepts_named_initializer (hn : AcceptsAll bound depth nested) {name eq : Token}
    (hname : name.kind = .identifier) (heq : eq.kind = .equals) (he : Forms depth ts e)
    (hb : ts.length ≤ bound) (hr : ∃ k ∈ followers, head? rest = some k) :
    Accepts (parseInitializer nested) last (name :: eq :: ts) rest
      ⟨some name.identifier, e, ⟨name.span.start, endOf eq.span.stop ts⟩⟩ := by
  have hne : ts ++ rest ≠ [] := by
    obtain ⟨k, -, hk⟩ := hr
    rintro h
    rw [(List.append_eq_nil_iff.1 h).2] at hk
    cases hk
  refine Accepts.current (t := name) rfl ?_
  simp only [hname]
  refine Accepts.meet (Accepts.get fun s hs _ => ?_)
  have hnext : s.nextIs .equals = true := by
    rw [nextIs_eq hs]
    simp [heq]
  rw [if_pos hnext]
  refine Accepts.advance (by simp) (Accepts.advance hne ?_)
  exact Accepts.bind_last (hn ts e he hb _ rest hr) (Accepts.spanFrom Accepts.pure)

theorem accepts_initializer (hn : AcceptsAll bound depth nested) {entry : Initializer SyntaxTree}
    (he : FormsEntry (Forms depth) ts entry) (hb : ts.length ≤ bound)
    (hr : ∃ k ∈ followers, head? rest = some k) :
    Accepts (parseInitializer nested) last ts rest entry := by
  cases he with
  | bare h => exact accepts_bare_initializer hn h hb hr
  | named hname heq h =>
    simp only [List.length_cons] at hb
    exact accepts_named_initializer hn hname heq h (by omega) hr

/-- An initializer starts with a starter, and so not with what ends a list of them. -/
theorem head_entry {entry : Initializer SyntaxTree} (he : FormsEntry (Forms depth) ts entry) :
    ∃ t us, ts = t :: us ∧ t.kind ≠ .closeBrace ∧ t.kind ≠ .endOfFile := by
  cases he with
  | bare h =>
    obtain ⟨t, us, hts, ht, -⟩ := h.starts
    obtain ⟨rfl, rfl⟩ := List.cons.inj hts
    refine ⟨_, _, rfl, ?_, ?_⟩ <;> rintro h <;> simp [h, starters, atoms] at ht
  | named hname _ _ => exact ⟨_, _, rfl, by simp [hname], by simp [hname]⟩

theorem head_entries {entries : List (Initializer SyntaxTree)} {trailing : Bool}
    (he : FormsEntries (Forms depth) ts entries trailing) (hne : entries ≠ []) :
    ∃ t us, ts = t :: us ∧ t.kind ≠ .closeBrace := by
  cases he with
  | nil => exact absurd rfl hne
  | last h =>
    obtain ⟨t, us, rfl, hbrace, -⟩ := head_entry h
    exact ⟨t, us, rfl, hbrace⟩
  | trailing h _ | cons h _ _ _ =>
    obtain ⟨t, us, rfl, hbrace, -⟩ := head_entry h
    exact ⟨t, _, rfl, hbrace⟩

theorem accepts_no_initializers (hr : head? rest = some .closeBrace) :
    Accepts (parseInitializers nested n) last [] rest ([], false) := by
  cases n with
  | zero => exact Accepts.pure
  | succ n =>
    cases rest with
    | nil => cases hr
    | cons u rest =>
      refine Accepts.current (t := u) rfl ?_
      rw [if_pos (.inl (Option.some.inj hr))]
      exact Accepts.pure

/-- An initializer, a comma, and what is behind it. -/
theorem accepts_initializer_comma (hn : AcceptsAll bound depth nested)
    {entry : Initializer SyntaxTree} {comma : Token} {entries : List (Initializer SyntaxTree)}
    {trailing : Bool} (he : FormsEntry (Forms depth) ts entry) (hc : comma.kind = .comma)
    (hb : ts.length ≤ bound) (ht : (us ++ rest).head? = some t)
    (hmore : Accepts (parseInitializers nested n) comma.span.stop us rest (entries, trailing)) :
    Accepts (parseInitializers nested (n + 1)) last (ts ++ comma :: us) rest
      (entry :: entries, decide (t.kind = .closeBrace ∨ trailing = true)) := by
  obtain ⟨u, vs, rfl, hclose, hend⟩ := head_entry he
  refine Accepts.current (t := u) rfl ?_
  rw [if_neg (by simp [hclose, hend])]
  have hfollow : ∃ k ∈ followers, head? (comma :: us ++ rest) = some k :=
    ⟨.comma, by simp [followers], congrArg some hc⟩
  refine Accepts.bind (accepts_initializer hn he hb hfollow) (Accepts.current (t := comma) rfl ?_)
  rw [if_pos hc]
  have hne : us ++ rest ≠ [] := by
    rintro h
    rw [h] at ht
    cases ht
  refine Accepts.advance hne (Accepts.current ht ?_)
  exact Accepts.bind_last hmore Accepts.pure

/-- **A list of initializers**, up to the closing brace. Whether a comma stands in front of the
brace is seen behind the last entry. -/
theorem accepts_initializers (hn : AcceptsAll bound depth nested)
    {entries : List (Initializer SyntaxTree)} {trailing : Bool}
    (he : FormsEntries (Forms depth) ts entries trailing) (hb : ts.length ≤ bound)
    (hr : head? rest = some .closeBrace) (hlen : ts.length ≤ n) :
    Accepts (parseInitializers nested n) last ts rest (entries, trailing) := by
  obtain ⟨close, rest, rfl⟩ : ∃ close rest', rest = close :: rest' := by
    refine List.exists_cons_of_ne_nil ?_
    rintro rfl
    cases hr
  have hclose : close.kind = .closeBrace := Option.some.inj hr
  induction he generalizing n last with
  | nil => exact accepts_no_initializers hr
  | last h =>
    obtain ⟨t, us, rfl, hbrace, hend⟩ := head_entry h
    cases n with
    | zero => simp at hlen
    | succ n =>
      refine Accepts.current (t := t) rfl ?_
      rw [if_neg (by simp [hbrace, hend])]
      have hfollow : ∃ k ∈ followers, head? (close :: rest) = some k :=
        ⟨.closeBrace, by simp [followers], hr⟩
      refine Accepts.bind_last (accepts_initializer hn h hb hfollow) ?_
      refine Accepts.current (t := close) rfl ?_
      rw [if_neg (by simp [hclose])]
      exact Accepts.pure
  | @trailing ts entry comma h hc =>
    cases n with
    | zero => simp at hlen
    | succ n =>
      have hmore : Accepts (parseInitializers nested n) comma.span.stop [] (close :: rest)
          ([], false) := accepts_no_initializers hr
      rw [List.length_append] at hb
      have hread : Accepts (parseInitializers nested (n + 1)) last (ts ++ [comma]) (close :: rest)
          ([entry], _) := accepts_initializer_comma hn h hc (by omega) rfl hmore
      simpa [hclose] using hread
  | @cons ts us entry comma entries trailing h hc hs hne ih =>
    cases n with
    | zero => simp at hlen
    | succ n =>
      simp only [List.length_append, List.length_cons] at hb hlen
      have hmore : Accepts (parseInitializers nested n) comma.span.stop us (close :: rest)
          (entries, trailing) := ih (by omega) (by omega)
      obtain ⟨t, vs, rfl, hbrace⟩ := head_entries hs hne
      have hread : Accepts (parseInitializers nested (n + 1)) last (ts ++ comma :: t :: vs)
          (close :: rest) (entry :: entries, _) :=
        accepts_initializer_comma hn h hc (by omega) rfl hmore
      simpa [hbrace] using hread

/-! ## Updates -/

theorem accepts_update (hn : AcceptsAll bound depth nested) {receiver : SyntaxTree}
    {entries : List (Initializer SyntaxTree)} {trailing : Bool} {key op close : Token}
    (hs : FormsEntries (Forms depth) ts entries trailing) (ho : op.kind = .openBrace)
    (hc : close.kind = .closeBrace) (hb : ts.length ≤ bound) (hr : rest ≠ []) :
    Accepts (parseUpdate nested bound receiver) last (key :: op :: (ts ++ [close])) rest
      (.update receiver entries ⟨⟨op.span.stop, close.span.start⟩, trailing⟩
        ⟨receiver.span.start, close.span.stop⟩) := by
  refine Accepts.advance (by simp) (Accepts.current (t := op) rfl ?_)
  refine Accepts.bind_cons (accepts_expect (by simp) ho) ?_
  rw [if_pos rfl]
  refine Accepts.get fun s _ hl => ?_
  have hclose : head? ([close] ++ rest) = some .closeBrace := congrArg some hc
  refine Accepts.bind (accepts_initializers hn hs hb hclose hb) ?_
  refine Accepts.current (t := close) rfl ?_
  refine Accepts.bind_last (accepts_expect hr hc) (Accepts.spanFrom ?_)
  rw [hl]
  exact Accepts.pure

/-- Without the keyword there is no update. -/
theorem accepts_no_updates (hr : rest ≠ []) (hh : head? rest ≠ some .withKeyword) :
    Accepts (parseUpdates nested bound n e) last [] rest e := by
  cases n with
  | zero => exact Accepts.pure
  | succ n =>
    obtain ⟨u, us, rfl⟩ := List.exists_cons_of_ne_nil hr
    refine Accepts.current (t := u) rfl ?_
    have hk : u.kind ≠ .withKeyword := by simpa using hh
    rw [if_neg hk]
    exact Accepts.pure

/-- The rule for members stops in front of the first update, or of what follows. -/
theorem accepts_head (hn : AcceptsAll bound depth nested) (h : Forms (depth + 1) ts e)
    (ho : e.IsOperand) (hb : ts.length ≤ bound) (hstart : e.span.start = start)
    (hh : ∃ k ∈ .withKeyword :: followers, head? rest = some k) :
    Accepts (parsePrimary nested >>= parseMembers start bound) last ts rest e := by
  obtain ⟨k, hk, hhead⟩ := hh
  have hr : rest ≠ [] := by
    rintro rfl
    cases hhead
  have hdot : head? rest ≠ some .dot := by
    rintro h
    simp [Option.some.inj (hhead.symm.trans h), followers] at hk
  have hop : head? rest ≠ some .openParen := by
    rintro h
    simp [Option.some.inj (hhead.symm.trans h), followers] at hk
  rw [← List.append_nil ts]
  refine accepts_operand hn h ho hb hstart hr hop ?_ fun m _ => accepts_no_members hr hdot
  simpa using hb

/-- **Updates behind an operand.** What stands behind an expression is read with its tree. -/
theorem accepts_chain (hn : AcceptsAll bound depth nested) (h : Forms (depth + 1) ts e)
    (hb : ts.length ≤ bound) (hstart : e.span.start = start)
    (hh : ∃ k ∈ .withKeyword :: followers, head? (us ++ rest) = some k)
    (hlen : (ts ++ us).length ≤ n)
    (hmore : ∀ m, us.length ≤ m →
      Accepts (parseUpdates nested bound m e) (endOf last ts) us rest result) :
    Accepts ((parsePrimary nested >>= parseMembers start bound) >>= parseUpdates nested bound n)
      last (ts ++ us) rest result := by
  have hr : us ++ rest ≠ [] := by
    obtain ⟨k, -, hk⟩ := hh
    rintro h
    rw [h] at hk
    cases hk
  have hlen' : us.length ≤ n := Nat.le_trans (List.sublist_append_right ts us).length_le hlen
  have h' := h
  -- A chain of updates nests to the left: what stands before the last one is itself a chain, and
  -- the last one is part of what comes behind it.
  induction h generalizing us with
  | literal =>
    exact Accepts.bind (accepts_head hn h' (Token.isOperand_tree _) hb hstart hh) (hmore n hlen')
  | name | paren | access | call =>
    exact Accepts.bind (accepts_head hn h' trivial hb hstart hh) (hmore n hlen')
  | update hbefore hk ho hes hc ih =>
    obtain rfl := hstart
    rw [List.append_assoc] at hlen ⊢
    rw [List.length_append] at hb
    simp only [List.length_cons, List.length_append, List.length_nil] at hb
    refine ih (by omega) rfl ⟨.withKeyword, by simp, by simp [hk]⟩ hlen ?_ (by simp) ?_ hbefore
    · intro m hm
      cases m with
      | zero => simp at hm
      | succ m =>
        refine Accepts.current rfl ?_
        rw [if_pos hk]
        refine Accepts.bind (accepts_update hn hes ho hc (by omega) hr) ?_
        have hread := hmore m (by
          simp only [List.length_append, List.length_cons] at hm
          omega)
        rw [endOf_append] at hread
        exact hread
    · exact Nat.le_trans (List.sublist_append_right _ _).length_le hlen

/-! ## Expressions -/

/-- **Every tree that tokens form is read from them without a report**, if what stands behind them
cannot go on with it. -/
theorem accepts_expression (bound depth : Nat) :
    AcceptsAll bound depth (parseExpression bound depth) := by
  induction depth with
  | zero =>
    intro _ _ h
    exact h.elim
  | succ depth ih =>
    rintro ts e h hb last rest ⟨k, hk, hrest⟩
    obtain ⟨t, us, rfl, hspan⟩ := h.span_eq
    show Accepts (parseExpression bound (depth + 1)) last (t :: us) rest e
    refine Accepts.current (t := t) rfl ?_
    rw [← bind_assoc, ← List.append_nil (t :: us)]
    have hr : rest ≠ [] := by
      rintro rfl
      cases hrest
    refine accepts_chain ih h hb (by rw [hspan])
      ⟨k, List.mem_cons_of_mem _ hk, hrest⟩ (by simpa using hb) fun m _ => accepts_no_updates hr ?_
    rintro h
    simp [Option.some.inj (hrest.symm.trans h), followers] at hk

end ParseM

/-- **Tokens form one tree at most**, since the parser reads it from them. -/
theorem Forms.unique {n : Nat} {ts : List Token} {e e' : SyntaxTree} (h : Forms n ts e)
    (h' : Forms n ts e') : e = e' := by
  have hfollow : ∃ k ∈ Grammar.followers, Grammar.head? [Token.endAt 0] = some k :=
    ⟨.endOfFile, by simp [Grammar.followers], rfl⟩
  have hahead : (ParseState.ofTokens (ts ++ [.endAt 0])).ahead = ts ++ [.endAt 0] := by
    cases ts <;> rfl
  have hread : ∀ e, Forms n ts e →
      (parseExpression ts.length n (.ofTokens (ts ++ [.endAt 0]))).1 = e := fun e h =>
    (ParseM.accepts_expression ts.length n ts e h (Nat.le_refl _) _ _ hfollow _ hahead rfl).1
  rw [← hread e h, ← hread e' h']

end UpdateExpr
