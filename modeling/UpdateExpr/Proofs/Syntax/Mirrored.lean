import UpdateExpr.Proofs.Syntax.Building
import UpdateExpr.Proofs.Syntax.Extent

/-!
# Built and read

A parser that builds nodes has a result on every text: no loop takes more turns than there are
tokens, since every turn but the last reads one, and no more calls are open than levels may be
nested. Its nodes are those of the tree that the text writes, laid out one after another. What was
looked at and left again leaves no node behind, and neither does what was reported.

## Main definitions

* `Builder.View`: a builder is where a parser of trees is
* `BuildM.Mirrors`: a rule builds what another rule reads

## Main results

* `Builder.View.rewind_next`: whoever looks at the next token and goes back is where he was
* `BuildM.mirrors_expression`: an expression is built as it is read
* `build_eq_built`: as many steps as there are tokens and levels build the nodes of a text
-/

namespace UpdateExpr

/-! ## Tokens that are left -/

namespace Position

variable {text : List Char} {p q : Position}

theorem length_tokens_after (h : p.token.kind ≠ .endOfFile) :
    p.tokens.length = p.after.tokens.length + 1 := by
  rw [tokens_eq, if_neg h, List.length_cons]

theorem length_tokens_pos (p : Position) : 0 < p.tokens.length :=
  List.length_pos_iff.2 p.tokens_ne_nil

/-- As many turns as there are tokens are one turn at least. -/
theorem exists_turn {n : Nat} (h : p.tokens.length ≤ n) : ∃ m, n = m + 1 :=
  Nat.exists_eq_succ_of_ne_zero (Nat.ne_of_gt (Nat.lt_of_lt_of_le p.length_tokens_pos h))

theorem Leads.length_tokens_le (h : p.Leads q) : q.tokens.length ≤ p.tokens.length := by
  induction h with
  | refl => exact Nat.le_refl _
  | @step q _ ih =>
    refine Nat.le_trans ?_ ih
    by_cases he : q.token.kind = .endOfFile
    · rw [tokens_after_of_endOfFile he]
    · rw [length_tokens_after he]
      exact Nat.le_succ _

/-- The scanner at a place, when some tokens before it were scanned. -/
def scanner (p : Position) (read : List Token) : Scanner where
  start := p.skipBlanks
  behind := p.after
  current := p.token
  problems := (read ++ [p.token]).filterMap Token.problem?

/-- The tokens of a text are those before a place and those from there on. -/
def Splits (text : List Char) (read : List Token) (p : Position) : Prop :=
  Token.ofText text = read ++ p.tokens

theorem splits_start (text : List Char) : Splits text [] (start text) :=
  rfl

/-- Scanning goes on with the tokens, and stays at the end of the text. -/
theorem Splits.scan {read : List Token} (h : Splits text read p) :
    ∃ read', Splits text read' p.after ∧ (p.scanner read).scan = p.after.scanner read' := by
  have hscan : (p.scanner read).scan = ⟨p.after.skipBlanks, p.after.after, p.after.token,
      (read ++ [p.token] ++ [p.after.token]).filterMap Token.problem?⟩ := by
    rw [List.filterMap_append]
    rfl
  rw [hscan]
  by_cases he : p.token.kind = .endOfFile
  · refine ⟨read, by rw [Splits, tokens_after_of_endOfFile he, h], ?_⟩
    simp [scanner, token_after_of_endOfFile he, problem?_of_endOfFile he]
  · refine ⟨read ++ [p.token], ?_, rfl⟩
    rw [Splits, h, tokens_eq p, if_neg he]
    simp

/-- Going back to the token at a place reads it again, and forgets what was scanned behind it. -/
theorem rewind_scan (p : Position) (read : List Token) :
    ((p.scanner read).scan).rewind (p.scanner read).mark = p.scanner read := by
  have htoken : (Token.next p.skipBlanks).1 = p.token := p.token_skipBlanks
  have hafter : (Token.next p.skipBlanks).2 = p.after := p.after_skipBlanks
  simp only [Scanner.rewind, Scanner.scan, Scanner.mark, scanner, skipBlanks_skipBlanks, htoken,
    hafter]
  rw [List.append_assoc, List.take_left]

end Position

/-! ## Initializers and the rest of a text -/

/-- The nodes of the first initializer stand before those of the others. -/
theorem SyntaxTree.layOutEntries_cons (entry : Initializer SyntaxTree)
    (entries : List (Initializer SyntaxTree)) (a : Arena) :
    layOutEntries (entry :: entries) a =
      ((layOutEntries [entry] a).1 ++ (layOutEntries entries (layOutEntries [entry] a).2).1,
        (layOutEntries entries (layOutEntries [entry] a).2).2) :=
  rfl

theorem ParseState.skipToEnd_of_nil {s : ParseState} (h : s.later = []) : s.skipToEnd = s := by
  rw [skipToEnd, h, List.foldl_nil]

theorem ParseState.skipToEnd_of_ne_nil {s : ParseState} (h : s.later ≠ []) :
    s.skipToEnd = s.advance.skipToEnd := by
  obtain ⟨t, ts, hts⟩ := List.exists_cons_of_ne_nil h
  have hlater : s.advance.later = ts := by
    rw [advance, hts]
  rw [skipToEnd, skipToEnd, hlater, hts, List.foldl_cons]

/-! ## A builder where a parser is -/

/-- A builder is at a place of a text, in some expressions, where a parser of trees is: what they
have gathered is the same, and the builder has scanned the tokens up to the next one. -/
structure Builder.View (text : List Char) (depth : Nat) (p : Position) (b : Builder)
    (s : ParseState) : Prop where
  place : s.At text p
  scanner : ∃ read, Position.Splits text read p ∧ b.scanner = p.scanner read
  names : b.names = s.names
  problems : b.problems = s.problems
  lastEnd : b.lastEnd = s.lastEnd
  depth : b.depth = depth
  cut : b.cut = s.cut

namespace Builder

variable {text : List Char} {depth : Nat} {p q : Position} {b : Builder} {s : ParseState}

/-- Before the first token they are at the start of the text. -/
theorem view_ofText (text : List Char) :
    (ofText text).View text 0 (.start text) (.ofTokens (Token.ofText text)) := by
  have hplace := ParseState.at_ofTokens text
  revert hplace
  cases Token.ofText text with
  | nil | cons t ts =>
    exact fun hplace =>
      ⟨hplace, ⟨[], Position.splits_start text, rfl⟩, rfl, rfl, rfl, rfl, rfl⟩

namespace View

theorem token_eq (h : b.View text depth p s) : b.scanner.current = p.token := by
  obtain ⟨read, -, hs⟩ := h.scanner
  rw [hs]
  rfl

/-- **Both read a token.** -/
theorem next (h : b.View text depth p s) : b.next.View text depth p.after s.advance := by
  obtain ⟨read, hsplit, hs⟩ := h.scanner
  have hkept : s.advance.names = s.names ∧ s.advance.problems = s.problems ∧
      s.advance.cut = s.cut := by
    unfold ParseState.advance
    split <;> exact ⟨rfl, rfl, rfl⟩
  refine ⟨h.place.advance, ?_, h.names.trans hkept.1.symm, h.problems.trans hkept.2.1.symm, ?_,
    h.depth, h.cut.trans hkept.2.2.symm⟩
  · obtain ⟨read', hsplit', hscan⟩ := hsplit.scan
    exact ⟨read', hsplit', (congrArg Scanner.scan hs).trans hscan⟩
  · show b.scanner.current.span.stop = s.advance.lastEnd
    rw [h.token_eq, p.token_span, h.place.advance.lastEnd]

theorem report (h : b.View text depth p s) (issue : Issue) (span : Span) (args : List String) :
    (b.report issue span args).View text depth p (s.report issue span args) := by
  have hplace := h.place.report issue span args
  unfold Builder.report
  unfold ParseState.report at hplace ⊢
  cases hc : s.cut with
  | true =>
    rw [h.cut, hc, if_pos rfl, if_pos rfl]
    exact h
  | false =>
    rw [hc, if_neg Bool.false_ne_true] at hplace
    rw [h.cut, hc, if_neg Bool.false_ne_true, if_neg Bool.false_ne_true]
    exact ⟨hplace, h.scanner, h.names, congrArg (· ++ _) h.problems, h.lastEnd, h.depth, rfl⟩

theorem meet (h : b.View text depth p s) (name : String) :
    (b.meet name).View text depth p (s.meet name) :=
  ⟨h.place.meet name, h.scanner, by rw [Builder.meet, ParseState.meet, h.names], h.problems,
    h.lastEnd, h.depth, h.cut⟩

theorem push (h : b.View text depth p s) (n : Node) : (b.push n).View text depth p s :=
  ⟨h.place, h.scanner, h.names, h.problems, h.lastEnd, h.depth, h.cut⟩

/-- What the parser of trees says of the token behind the next one. -/
theorem nextIs_eq (h : b.View text depth p s) (hk : p.token.kind ≠ .endOfFile)
    (kind : TokenKind) : s.nextIs kind = (p.after.token.kind == kind) := by
  rw [ParseState.nextIs, h.place.later_eq, if_neg hk, Position.tokens_eq]
  rfl

/-- **Whoever looks at the next token and goes back is where he was.** -/
theorem rewind_next (h : b.View text depth p s) :
    b.next.rewind b.scanner.mark b.lastEnd = b := by
  obtain ⟨read, -, hs⟩ := h.scanner
  have hscanner : b.scanner.scan.rewind b.scanner.mark = b.scanner := by
    rw [hs, Position.rewind_scan]
  rw [rewind, Builder.next, hscanner]

end View

end Builder

/-! ## Rules that do the same -/

namespace BuildM

/-- From a place and with some nodes, a rule builds what another rule reads: it has a result and
leads to the same place, and something holds for that place, the nodes, and what the two rules
give. -/
def Mirrors {α β : Type} (text : List Char) (depth : Nat) (p : Position) (a : Arena) (x : BuildM β)
    (m : ParseM α) (post : Position → Arena → β → α → Prop) : Prop :=
  ∀ (b : Builder) (s : ParseState), b.View text depth p s → b.arena = a →
    ∃ q b' y, x b = some (y, b') ∧ p.Leads q ∧ b'.View text depth q (m s).2 ∧
      post q b'.arena y (m s).1

namespace Mirrors

variable {α β γ δ : Type} {text : List Char} {depth : Nat} {p : Position} {a : Arena}
  {x : BuildM β} {m : ParseM α} {f : β → BuildM δ} {g : α → ParseM γ} {k : BuildM δ}
  {l : ParseM γ} {post : Position → Arena → β → α → Prop}
  {result : Position → Arena → δ → γ → Prop}

theorem pure {y : δ} {z : γ} (h : result p a y z) :
    Mirrors text depth p a (pure y) (pure z) result := by
  intro b s hb ha
  subst ha
  exact ⟨p, b, y, rfl, .refl, hb, h⟩

/-- **One rule after another.** -/
theorem bind (h : Mirrors text depth p a x m post)
    (h' : ∀ q a' y z, p.Leads q → post q a' y z → Mirrors text depth q a' (f y) (g z) result) :
    Mirrors text depth p a (x >>= f) (m >>= g) result := by
  intro b s hb ha
  obtain ⟨q, b', y, hx, hlead, hb', hpost⟩ := h b s hb ha
  obtain ⟨r, b'', z, hf, hlead', hb'', hresult⟩ := h' q _ y _ hlead hpost b' _ hb' rfl
  refine ⟨r, b'', z, ?_, hlead.trans hlead', hb'', hresult⟩
  show (x b).bind (fun w => f w.1 w.2) = _
  rw [hx]
  exact hf

theorem weaken {post' : Position → Arena → β → α → Prop} (h : Mirrors text depth p a x m post)
    (hw : ∀ q a' y z, p.Leads q → post q a' y z → post' q a' y z) :
    Mirrors text depth p a x m post' := by
  intro b s hb ha
  obtain ⟨q, b', y, hx, hlead, hb', hpost⟩ := h b s hb ha
  exact ⟨q, b', y, hx, hlead, hb', hw q _ y _ hlead hpost⟩

/-- Both may look at the token that is read next. -/
theorem token {f : Token → BuildM δ} {g : Token → ParseM γ}
    (h : Mirrors text depth p a (f p.token) (g p.token) result) :
    Mirrors text depth p a (token >>= f) (currentToken >>= g) result := by
  intro b s hb ha
  have hbuild : (BuildM.token >>= f) b = f p.token b := congrArg (f · b) hb.token_eq
  have hread : (currentToken >>= g) s = g p.token s := congrArg (g · s) hb.place.current_eq
  rw [hbuild, hread]
  exact h b s hb ha

/-- Both may look at all that was gathered. -/
theorem get {f : Builder → BuildM δ} {g : ParseState → ParseM γ}
    (h : ∀ (b : Builder) (s : ParseState), b.View text depth p s → b.arena = a →
      Mirrors text depth p a (f b) (g s) result) :
    Mirrors text depth p a (MonadState.get >>= f) (MonadState.get >>= g) result :=
  fun b s hb ha => h b s hb ha b s hb ha

/-- The builder may look at the nodes that are built. -/
theorem arena {f : Builder → BuildM δ}
    (h : ∀ b : Builder, b.arena = a → Mirrors text depth p a (f b) l result) :
    Mirrors text depth p a (MonadState.get >>= f) l result :=
  fun b s hb ha => h b ha b s hb ha

/-- Both read a token, and what follows leads on from behind it. -/
theorem next_leads (h : Mirrors text depth p.after a k l result) :
    Mirrors text depth p a (next >>= fun _ => k) (advance >>= fun _ => l)
      fun q a' y z => p.after.Leads q ∧ result q a' y z := by
  intro b s hb ha
  obtain ⟨q, b', y, hx, hlead, hb', hresult⟩ := h b.next s.advance hb.next ha
  exact ⟨q, b', y, hx, (Position.Leads.after p).trans hlead, hb', hlead, hresult⟩

/-- **Both read a token.** -/
theorem next (h : Mirrors text depth p.after a k l result) :
    Mirrors text depth p a (BuildM.next >>= fun _ => k) (advance >>= fun _ => l) result :=
  h.next_leads.weaken fun _ _ _ _ _ hresult => hresult.2

theorem report {issue : Issue} {span : Span} {args : List String}
    (h : Mirrors text depth p a k l result) :
    Mirrors text depth p a (report issue span args >>= fun _ => k)
      (reportAt issue span args >>= fun _ => l) result := by
  intro b s hb ha
  exact h _ _ (hb.report issue span args) ((b.arena_report issue span args).trans ha)

theorem meet {name : String} (h : Mirrors text depth p a k l result) :
    Mirrors text depth p a (modify (·.meet name) >>= fun _ => k)
      (modify (·.meet name) >>= fun _ => l) result :=
  fun _ _ hb ha => h _ _ (hb.meet name) ha

theorem spanFrom {start : Nat} {f : Span → BuildM δ} {g : Span → ParseM γ}
    (h : Mirrors text depth p a (f ⟨start, p.offset⟩) (g ⟨start, p.offset⟩) result) :
    Mirrors text depth p a (spanFrom start >>= f) (UpdateExpr.spanFrom start >>= g) result := by
  intro b s hb ha
  have hend := hb.place.lastEnd
  have hbuild : (BuildM.spanFrom start >>= f) b = f ⟨start, p.offset⟩ b :=
    congrArg (f ⟨start, ·⟩ b) (hb.lastEnd.trans hend)
  have hread : (UpdateExpr.spanFrom start >>= g) s = g ⟨start, p.offset⟩ s :=
    congrArg (g ⟨start, ·⟩ s) hend
  rw [hbuild, hread]
  exact h b s hb ha

/-- **A node is built**, of which the other rule knows nothing. -/
theorem add {n : Node} {f : Nat → BuildM δ}
    (h : Mirrors text depth p (a.push n) (f a.size) l result) :
    Mirrors text depth p a (add n >>= f) l result := by
  intro b s hb ha
  subst ha
  exact h _ _ (hb.push n) rfl

theorem addLast {n : Node} {z : γ} {result : Position → Arena → Nat → γ → Prop}
    (h : result p (a.push n) a.size z) :
    Mirrors text depth p a (BuildM.add n) (Pure.pure z) result := by
  intro b s hb ha
  subst ha
  exact ⟨p, _, _, rfl, .refl, hb.push n, h⟩

theorem addFrom {start : Nat} {shape : NodeShape} {g : Span → γ}
    {result : Position → Arena → Nat → γ → Prop}
    (h : result p (a.push ⟨shape, ⟨start, p.offset⟩, false⟩) a.size (g ⟨start, p.offset⟩)) :
    Mirrors text depth p a (addFrom start shape)
      (UpdateExpr.spanFrom start >>= fun span => Pure.pure (g span)) result :=
  .spanFrom (.addLast h)

theorem addFromThen {start : Nat} {shape : NodeShape} {f : Nat → BuildM δ} {g : Span → ParseM γ}
    (h : Mirrors text depth p (a.push ⟨shape, ⟨start, p.offset⟩, false⟩) (f a.size)
      (g ⟨start, p.offset⟩) result) :
    Mirrors text depth p a (BuildM.addFrom start shape >>= f) (UpdateExpr.spanFrom start >>= g)
      result := by
  intro b s hb ha
  exact Mirrors.spanFrom (f := fun span => BuildM.add ⟨shape, span, false⟩ >>= f) (.add h) b s hb ha

/-- What a rule gives may be the part of something. -/
theorem map {g : α → γ} {result : Position → Arena → β → γ → Prop}
    (h : Mirrors text depth p a x m post) (hg : ∀ q a' y z, post q a' y z → result q a' y (g z)) :
    Mirrors text depth p a x (m >>= fun z => Pure.pure (g z)) result := by
  intro b s hb ha
  obtain ⟨q, b', y, hx, hlead, hb', hpost⟩ := h b s hb ha
  exact ⟨q, b', y, hx, hlead, hb', hg q _ y _ hpost⟩

/-- The token behind the next one is looked at. The builder reads on, and goes back if it is not of
the kind that is looked for. -/
theorem lookAhead {kind : TokenKind} {k' : BuildM δ} {l' : ParseM γ}
    (hk : p.token.kind ≠ .endOfFile)
    (hthere : p.after.token.kind = kind → Mirrors text depth p.after a k l result)
    (helse : p.after.token.kind ≠ kind → Mirrors text depth p a k' l' result) :
    Mirrors text depth p a
      (do
        let b ← MonadState.get
        BuildM.next
        if (← BuildM.token).kind = kind then k
        else
          modify (·.rewind b.scanner.mark b.lastEnd)
          k')
      (do
        if (← MonadState.get).nextIs kind then
          advance
          l
        else l') result := by
  intro b s hb ha
  have hbuild : ∀ k'' : BuildM δ,
      (if b.next.scanner.current.kind = kind then k else k'') b.next =
        (if p.after.token.kind = kind then k else k'') b.next := fun k'' => by
    rw [hb.next.token_eq]
  have hread : (if s.nextIs kind = true then advance >>= fun _ => l else l') s =
      (if p.after.token.kind = kind then advance >>= fun _ => l else l') s := by
    simp only [hb.nextIs_eq hk, beq_iff_eq]
  show ∃ q b' y, (if b.next.scanner.current.kind = kind then k else _) b.next = some (y, b') ∧
    p.Leads q ∧ b'.View text depth q
      ((if s.nextIs kind = true then advance >>= fun _ => l else l') s).2 ∧
      result q b'.arena y ((if s.nextIs kind = true then advance >>= fun _ => l else l') s).1
  rw [hbuild, hread]
  -- The builder is behind the token already, the other parser still before it.
  by_cases he : p.after.token.kind = kind
  · rw [if_pos he, if_pos he]
    exact Mirrors.next (hthere he) b s hb ha
  · rw [if_neg he, if_neg he]
    show ∃ q b' y, k' (b.next.rewind b.scanner.mark b.lastEnd) = some (y, b') ∧ _
    rw [hb.rewind_next]
    exact helse he b s hb ha

end Mirrors

/-! ## Rules -/

/-- The number of a node and the nodes are those of a tree laid out behind other nodes. -/
def TreeBuilt (a : Arena) (_ : Position) (a' : Arena) (i : Nat) (tree : SyntaxTree) : Prop :=
  tree.layOut a = (i, a')

/-- The number of a node and the nodes are those of an initializer laid out behind other nodes. -/
def EntryBuilt (a : Arena) (_ : Position) (a' : Arena) (i : Nat)
    (entry : Initializer SyntaxTree) : Prop :=
  SyntaxTree.layOutEntries [entry] a = ([some i], a')

/-- A rule for nested expressions builds what another one reads, wherever no more tokens are ahead
than a bound allows. -/
def MirrorsNested (text : List Char) (depth bound : Nat) (x : BuildM Nat) (m : ParseM SyntaxTree) :
    Prop :=
  ∀ (p : Position) (a : Arena), p.tokens.length ≤ bound →
    Mirrors text depth p a x m (TreeBuilt a)

section Rules

variable {text : List Char} {depth bound turns : Nat} {p : Position} {a : Arena}
  {x : BuildM Nat} {m : ParseM SyntaxTree}

theorem mirrors_expect (kind : TokenKind) :
    Mirrors text depth p a (expect kind) (UpdateExpr.expect kind)
      fun _ a' there there' => there = there' ∧ a' = a := by
  refine Mirrors.token ?_
  by_cases hk : p.token.kind = kind
  · rw [if_pos hk, if_pos hk]
    exact .next (.pure ⟨rfl, rfl⟩)
  · rw [if_neg hk, if_neg hk]
    exact .report (.pure ⟨rfl, rfl⟩)

theorem mirrors_name :
    Mirrors text depth p a name parseName fun _ a' i id => a.add id.node = (i, a') := by
  refine Mirrors.token ?_
  by_cases hk : p.token.kind = .identifier
  · rw [if_pos hk, if_pos hk]
    exact .meet (.next (.addLast rfl))
  · rw [if_neg hk, if_neg hk]
    refine .report (.get fun b s hb _ => ?_)
    rw [hb.lastEnd]
    exact .addLast rfl

theorem mirrors_number (t : Token) :
    Mirrors text depth p a (number t) (parseNumber t) (TreeBuilt a) := by
  have hbuilt : Mirrors text depth p a
      (next >>= fun _ => add
        ⟨.literal (LiteralValue.ofNumber t.value.toList t.flags) t.value t.flags, t.span, false⟩)
      (advance >>= fun _ => pure (.literal (LiteralValue.ofNumber t.value.toList t.flags) t.value
        t.flags t.span)) (TreeBuilt a) := .next (.addLast rfl)
  unfold number parseNumber
  by_cases hv : LiteralValue.ofNumber t.value.toList t.flags = .invalid
  · simp only [hv, if_true]
    rw [hv] at hbuilt
    exact .report hbuilt
  · simp only [hv, if_false]
    exact hbuilt

theorem mirrors_primary (hn : MirrorsNested text depth bound x m) (hp : p.tokens.length ≤ bound) :
    Mirrors text depth p a (primary x) (parsePrimary m) (TreeBuilt a) := by
  refine Mirrors.token ?_
  cases hk : p.token.kind
  case number => exact mirrors_number p.token
  case string => exact .next (.addLast rfl)
  case trueKeyword => exact .next (.addLast rfl)
  case falseKeyword => exact .next (.addLast rfl)
  case nullKeyword => exact .next (.addLast rfl)
  case identifier => exact mirrors_name.map fun _ _ _ _ h => h
  case openParen =>
    have hafter := Nat.le_trans (Position.Leads.after p).length_tokens_le hp
    refine .next ((hn p.after a hafter).bind fun q a' i inner _ hi => ?_)
    refine (mirrors_expect .closeParen).bind fun r a'' there there' _ ⟨_, ha⟩ => .addFrom ?_
    rw [TreeBuilt, SyntaxTree.layOut, hi, ha]
    rfl
  case unknown => exact .next (.addLast rfl)
  all_goals exact .report (.addLast rfl)

/-! ### Members and calls -/

variable {start i : Nat} {tree : SyntaxTree} {a₀ : Arena}

theorem mirrors_call (ht : tree.layOut a₀ = (i, a)) :
    Mirrors text depth p a (call start i) (parseCall start tree) (TreeBuilt a₀) := by
  refine Mirrors.token ?_
  by_cases hk : p.token.kind = .openParen
  · rw [if_pos hk, if_pos hk]
    refine .next ((mirrors_expect .closeParen).bind fun q a' _ _ _ ⟨_, ha⟩ => .addFrom ?_)
    rw [TreeBuilt, SyntaxTree.layOut, ht, ha]
    rfl
  · rw [if_neg hk, if_neg hk]
    exact .pure ht

/-- Every turn but the last reads a dot. -/
theorem mirrors_members {n : Nat} (ht : tree.layOut a₀ = (i, a)) (hn : p.tokens.length ≤ n)
    (hp : p.tokens.length ≤ turns) :
    Mirrors text depth p a (members start turns i) (parseMembers start n tree) (TreeBuilt a₀) := by
  induction n generalizing p turns i a tree with
  | zero => exact absurd p.length_tokens_pos (by omega)
  | succ n ih =>
    obtain ⟨turns, rfl⟩ := Position.exists_turn hp
    refine Mirrors.token ?_
    by_cases hk : p.token.kind = .dot
    · rw [if_pos hk, if_pos hk]
      have hlen := Position.length_tokens_after (p := p) (by simp [hk])
      refine .next (mirrors_name.bind fun q a' j id hq hid => .addFromThen ?_)
      have haccess : (SyntaxTree.access tree id ⟨start, q.offset⟩).layOut a₀ =
          (a'.size, a'.push ⟨.access (some i) (some j), ⟨start, q.offset⟩, false⟩) := by
        rw [SyntaxTree.layOut, ht]
        simp only [hid]
        rfl
      refine (mirrors_call haccess).bind fun r a'' l tree' hr htree => ?_
      have hle := (hq.trans hr).length_tokens_le
      exact ih htree (by omega) (by omega)
    · rw [if_neg hk, if_neg hk]
      exact .pure ht

/-! ### Initializers -/

theorem mirrors_bareInitializer (hn : MirrorsNested text depth bound x m)
    (hp : p.tokens.length ≤ bound) :
    Mirrors text depth p a (bareInitializer x start) (parseBareInitializer m start)
      (EntryBuilt a) := by
  refine (hn p a hp).bind fun q a' j value _ hv => .addFrom ?_
  rw [EntryBuilt]
  simp only [SyntaxTree.layOutEntries, Arena.addName]
  rw [hv]
  rfl

/-- The name of an initializer is built before its value. -/
theorem mirrors_namedInitializer (hn : MirrorsNested text depth bound x m)
    (hp : p.tokens.length ≤ bound) (id : Identifier) :
    Mirrors text depth p (a.push id.node) (namedInitializer x start a.size)
      (parseNamedInitializer m start id) (EntryBuilt a) := by
  have hafter := Nat.le_trans (Position.Leads.after p).length_tokens_le hp
  refine .next ((hn p.after _ hafter).bind fun q a' j value _ hv => .addFrom ?_)
  rw [EntryBuilt]
  simp only [SyntaxTree.layOutEntries, Arena.addName]
  rw [hv]
  rfl

/-- A name is looked at together with the token behind it. If that is no equals sign, the builder
goes back, and builds what starts with the name. -/
theorem mirrors_initializer (hn : MirrorsNested text depth bound x m)
    (hp : p.tokens.length ≤ bound) :
    Mirrors text depth p a (initializer x) (parseInitializer m) (EntryBuilt a) := by
  have hafter := Nat.le_trans (Position.Leads.after p).length_tokens_le hp
  refine Mirrors.token ?_
  cases hk : p.token.kind
  case identifier =>
    refine .meet (.lookAhead (by simp [hk]) (fun _ => .add ?_) fun _ => ?_)
    · exact mirrors_namedInitializer hn hafter ⟨p.token.value, p.token.span, false⟩
    · exact mirrors_bareInitializer hn hp
  case equals =>
    refine .report (.add ?_)
    exact mirrors_namedInitializer hn hp (.hole p.token.span.start)
  all_goals exact mirrors_bareInitializer hn hp

/-- The builder's list grows by the initializers that are read. A mark that was set before stands in
front of the brace. -/
theorem mirrors_initializers {n : Nat} (hx : MirrorsNested text depth bound x m)
    (hb : p.tokens.length ≤ bound) (hn : p.tokens.length ≤ n) (hp : p.tokens.length ≤ turns)
    (nodes : List NodeRef) {trailing : Bool} (ht : trailing = true → p.token.kind = .closeBrace) :
    Mirrors text depth p a (initializers x turns nodes trailing) (parseInitializers m n)
      fun _ a' built entries =>
        built = (nodes ++ (SyntaxTree.layOutEntries entries.1 a).1, trailing || entries.2) ∧
          a' = (SyntaxTree.layOutEntries entries.1 a).2 := by
  induction n generalizing p turns a nodes trailing with
  | zero => exact absurd p.length_tokens_pos (by omega)
  | succ n ih =>
    obtain ⟨turns, rfl⟩ := Position.exists_turn hp
    refine Mirrors.token ?_
    by_cases hk : p.token.kind = .closeBrace ∨ p.token.kind = .endOfFile
    · rw [if_pos hk, if_pos hk]
      exact .pure ⟨by simp [SyntaxTree.layOutEntries], rfl⟩
    · rw [if_neg hk, if_neg hk]
      have hfalse : trailing = false := by
        cases trailing with
        | false => rfl
        | true => exact absurd (.inl (ht rfl)) hk
      refine (mirrors_initializer hx hb).bind fun q a' i entry hq hentry => .token ?_
      by_cases hc : q.token.kind = .comma
      · rw [if_pos hc, if_pos hc]
        have hle := hq.length_tokens_le
        have hlen := Position.length_tokens_after (p := q) (by simp [hc])
        refine .next (.token ?_)
        have hturns : q.after.tokens.length ≤ turns := by omega
        have hrest := ih (a := a') (by omega) (by omega) hturns (nodes ++ [some i])
          (of_decide_eq_true (p := q.after.token.kind = .closeBrace))
        refine hrest.map fun r a'' built entries hbuilt => ?_
        obtain ⟨rfl, rfl⟩ := hbuilt
        refine ⟨?_, ?_⟩
        · show _ = (nodes ++ (SyntaxTree.layOutEntries (entry :: entries.1) a).1,
            trailing || decide (q.after.token.kind = .closeBrace ∨ entries.2 = true))
          rw [SyntaxTree.layOutEntries_cons, hentry, hfalse]
          simp
        · show _ = (SyntaxTree.layOutEntries (entry :: entries.1) a).2
          rw [SyntaxTree.layOutEntries_cons, hentry]
      · rw [if_neg hc, if_neg hc]
        refine .pure ⟨?_, ?_⟩
        · rw [hentry, hfalse]
          rfl
        · rw [hentry]

/-! ### Updates -/

/-- The node of an update starts where the node of the receiver does. The keyword at least is
read. -/
theorem mirrors_update (hx : MirrorsNested text depth bound x m) (hle : bound ≤ turns)
    (hp : p.tokens.length ≤ bound) (ht : tree.layOut a₀ = (i, a)) :
    Mirrors text depth p a (update x turns i) (parseUpdate m bound tree)
      fun q a' j whole => p.after.Leads q ∧ TreeBuilt a₀ q a' j whole := by
  have hspan : a.span (some i) = tree.span := by
    have hlaid := tree.span_layOut (le_refl (tree.layOut a₀).2)
    rwa [ht] at hlaid
  refine Mirrors.arena fun b ha => ?_
  rw [ha, hspan]
  refine .next_leads (.token ((mirrors_expect .openBrace).bind fun q a' there _ hq h => ?_))
  obtain ⟨rfl, rfl⟩ := h
  cases there with
  | true =>
    refine .get fun b s hb _ => ?_
    rw [hb.lastEnd, hb.place.lastEnd]
    have hlen := ((Position.Leads.after p).trans hq).length_tokens_le
    have hmark : false = true → q.token.kind = .closeBrace := nofun
    refine (mirrors_initializers hx (hlen.trans hp) (hlen.trans hp) ((hlen.trans hp).trans hle) []
      hmark).bind fun r a'' built entries _ h => ?_
    obtain ⟨rfl, rfl⟩ := h
    refine .token ((mirrors_expect .closeBrace).bind fun r' a'' _ _ _ h => .addFrom ?_)
    obtain ⟨-, rfl⟩ := h
    rw [TreeBuilt, SyntaxTree.layOut, ht]
    simp only [List.nil_append, Bool.false_or]
    rfl
  | false =>
    refine .addFrom ?_
    rw [TreeBuilt, SyntaxTree.layOut, ht]
    rfl

/-- Every turn but the last reads a keyword. -/
theorem mirrors_updates {n more : Nat} (hx : MirrorsNested text depth bound x m)
    (hle : bound ≤ turns) (hb : p.tokens.length ≤ bound) (hn : p.tokens.length ≤ n)
    (hp : p.tokens.length ≤ more) (ht : tree.layOut a₀ = (i, a)) :
    Mirrors text depth p a (updates x turns more i) (parseUpdates m bound n tree)
      (TreeBuilt a₀) := by
  induction n generalizing p more i a tree with
  | zero => exact absurd p.length_tokens_pos (by omega)
  | succ n ih =>
    obtain ⟨more, rfl⟩ := Position.exists_turn hp
    refine Mirrors.token ?_
    by_cases hk : p.token.kind = .withKeyword
    · rw [if_pos hk, if_pos hk]
      have hlen := Position.length_tokens_after (p := p) (by simp [hk])
      refine (mirrors_update hx hle hb ht).bind fun q a' j tree' _ ⟨hq, htree⟩ => ?_
      have hless := hq.length_tokens_le
      exact ih (by omega) (by omega) (by omega) htree
    · rw [if_neg hk, if_neg hk]
      exact .pure ht

/-! ### Expressions -/

/-- Every turn but the last reads a token. -/
theorem mirrors_skipToEnd (hp : p.tokens.length ≤ turns) :
    Mirrors text depth p a (skipToEnd turns) (modify ParseState.skipToEnd)
      fun _ a' _ _ => a' = a := by
  induction turns generalizing p with
  | zero => exact absurd p.length_tokens_pos (by omega)
  | succ turns ih =>
    intro b s hb ha
    by_cases hk : p.token.kind = .endOfFile
    · have hlater : s.later = [] := by rw [hb.place.later_eq, if_pos hk]
      refine ⟨p, b, (), ?_, .refl, ?_, ha⟩
      · show (if b.scanner.current.kind ≠ .endOfFile then _ else pure () : BuildM Unit) b = _
        rw [hb.token_eq, if_neg (not_not_intro hk)]
        rfl
      · show b.View text depth p s.skipToEnd
        rwa [ParseState.skipToEnd_of_nil hlater]
    · have hlater : s.later ≠ [] := by
        rw [hb.place.later_eq, if_neg hk]
        exact Position.tokens_ne_nil _
      have hlen := Position.length_tokens_after hk
      obtain ⟨q, b', y, hrun, hlead, hb', ha'⟩ := ih (p := p.after) (by omega) b.next s.advance
        hb.next ha
      refine ⟨q, b', y, ?_, (Position.Leads.after p).trans hlead, ?_, ha'⟩
      · show (if b.scanner.current.kind ≠ .endOfFile then _ else _ : BuildM Unit) b = _
        rw [hb.token_eq, if_pos hk]
        exact hrun
      · show b'.View text depth q s.skipToEnd
        rwa [ParseState.skipToEnd_of_ne_nil hlater]

theorem mirrors_tooDeep (hp : p.tokens.length ≤ turns) :
    Mirrors text depth p a (tooDeep turns) parseCut (TreeBuilt a) := by
  refine Mirrors.token (.report ?_)
  have hskip : Mirrors text depth p a
      (do
        skipToEnd turns
        add (.hole (← get).lastEnd))
      (do
        modify ParseState.skipToEnd
        return .hole (← get).lastEnd) (TreeBuilt a) := by
    refine (mirrors_skipToEnd hp).bind fun q a' _ _ _ ha' => .get fun b s hb _ => ?_
    rw [hb.lastEnd]
    exact .addLast (congrArg _ (ha' ▸ rfl))
  intro b s hb ha
  have hcut : Builder.View text depth p { b with cut := true } { s with cut := true } :=
    ⟨⟨hb.place.of, hb.place.ahead, hb.place.lastEnd⟩, hb.scanner, hb.names, hb.problems, hb.lastEnd,
      hb.depth, rfl⟩
  exact hskip _ _ hcut ha

theorem mirrors_oneLevel (hx : MirrorsNested text depth bound x m) (hle : bound ≤ turns)
    (hp : p.tokens.length ≤ bound) :
    Mirrors text depth p a (oneLevel x turns)
      (do
        let start := (← currentToken).span.start
        let primary ← parsePrimary m
        let target ← parseMembers start bound primary
        parseUpdates m bound bound target) (TreeBuilt a) := by
  refine Mirrors.token ((mirrors_primary hx hp).bind fun q a' j first hq hfirst => ?_)
  have hlen := hq.length_tokens_le.trans hp
  refine (mirrors_members hfirst hlen (hlen.trans hle)).bind fun r a'' k target hr htarget => ?_
  have hlen' := hr.length_tokens_le.trans hlen
  exact mirrors_updates hx hle hlen' hlen' (hlen'.trans hle) htarget

/-- **An expression is built as it is read**, if there are as many turns as tokens and more calls
than levels that are left. -/
theorem mirrors_expression (hle : bound ≤ turns) {levels calls : Nat}
    (hd : depth + levels = maxParseDepth) (hc : levels < calls) :
    MirrorsNested text depth bound (expression turns calls) (parseExpression bound levels) := by
  induction levels generalizing depth calls with
  | zero =>
    intro p a hp b s hb ha
    obtain ⟨calls, rfl⟩ := Nat.exists_eq_succ_of_ne_zero (Nat.ne_zero_of_lt hc)
    have hbuild : expression turns (calls + 1) b = tooDeep turns b := by
      show (if maxParseDepth ≤ b.depth then tooDeep turns else _ : BuildM Nat) b = _
      rw [if_pos (by rw [hb.depth]; omega)]
    rw [Nat.succ_eq_add_one, hbuild]
    exact mirrors_tooDeep (hp.trans hle) b s hb ha
  | succ levels ih =>
    intro p a hp b s hb ha
    obtain ⟨calls, rfl⟩ := Nat.exists_eq_succ_of_ne_zero (Nat.ne_zero_of_lt hc)
    have hx : MirrorsNested text (depth + 1) bound (expression turns calls)
        (parseExpression bound levels) := ih (by omega) (by omega)
    have hdeeper : Builder.View text (depth + 1) p { b with depth := b.depth + 1 } s :=
      ⟨hb.place, hb.scanner, hb.names, hb.problems, hb.lastEnd, congrArg (· + 1) hb.depth, hb.cut⟩
    obtain ⟨q, b', i, hrun, hlead, hb', htree⟩ := mirrors_oneLevel hx hle hp _ s hdeeper ha
    refine ⟨q, { b' with depth := b'.depth - 1 }, i, ?_, hlead, ?_, htree⟩
    · show (if maxParseDepth ≤ b.depth then _ else _ : BuildM Nat) b = _
      rw [if_neg (by rw [hb.depth]; omega)]
      show (oneLevel (expression turns calls) turns { b with depth := b.depth + 1 }).bind _ = _
      rw [hrun]
      rfl
    · exact ⟨hb'.place, hb'.scanner, hb'.names, hb'.problems, hb'.lastEnd,
        congrArg (· - 1) hb'.depth, hb'.cut⟩

theorem mirrors_root {calls : Nat} (hle : bound ≤ turns) (hp : p.tokens.length ≤ bound)
    (hc : maxParseDepth < calls) :
    Mirrors text 0 p a (root turns calls) (parseRoot bound) (TreeBuilt a) := by
  refine (mirrors_expression hle (Nat.zero_add _) hc p a hp).bind
    fun q a' i tree _ htree => .token ?_
  by_cases hk : q.token.kind = .endOfFile
  · rw [if_neg (not_not_intro hk), if_neg (not_not_intro hk)]
    exact .pure htree
  · rw [if_pos hk, if_pos hk]
    exact .report (.pure htree)

end Rules

end BuildM

/-- The problems of tokens that the parser of trees keeps are those of the tokens that the builder
has scanned. -/
theorem Builder.View.reached {text : List Char} {depth : Nat} {p : Position} {b : Builder}
    {s : ParseState} (h : b.View text depth p s) :
    b.scanner.problems = ((Token.ofText text).take
      ((Token.ofText text).length - s.later.length)).filterMap Token.problem? := by
  obtain ⟨read, hsplit, hs⟩ := h.scanner
  have htokens := p.tokens_eq
  rw [← h.place.later_eq] at htokens
  rw [hs, hsplit, htokens, List.append_cons, List.length_append, Nat.add_sub_cancel, List.take_left]
  rfl

/-- **As many steps as there are tokens, and one more than levels may be nested, build the nodes of
a text**: those of its tree laid out, with its problems and names. -/
theorem build_eq_built (text : String) {steps : Nat}
    (ht : (Token.ofText text.toList).length ≤ steps) (hd : maxParseDepth < steps) :
    build steps text = some (parse text).built := by
  obtain ⟨q, b, i, hrun, -, hb, htree⟩ := BuildM.mirrors_root ht
    (Nat.le_refl (Token.ofText text.toList).length) hd (Builder.ofText text.toList) _
    (Builder.view_ofText text.toList) rfl
  rcases hr : parseRoot (Token.ofText text.toList).length
    (.ofTokens (Token.ofText text.toList)) with ⟨tree, s⟩
  rw [hr] at hb htree
  have hlaid : tree.toArena = (i, b.arena) := htree
  rw [build, hrun, Option.map_some, parse, parseTokens_eq hr, ← hb.reached, ← hb.problems,
    ← hb.names, Parsed.built, Parsed.arena, Parsed.root, hlaid]
  rfl

end UpdateExpr
