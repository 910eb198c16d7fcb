import UpdateExpr.Proofs.Syntax.Reading

/-!
# Places between tokens

Reading goes from place to place in a text, one token at a time. The parser keeps two cursors, the
start of the token that comes next and the end of the one that was read last. Both are given by one
place: the end of the last token is the place itself, and the next token starts behind the blanks
that follow. What a rule of the parser does can be said in terms of the place where it starts and
the place that it leads to.

## Main definitions

* `IsBoundary`: a byte position between two characters of a text
* `Position.token`, `Position.after`: the next token, and the place behind it
* `Position.Of`, `Position.Leads`: a place of a text, and going on from one by some tokens
* `Position.tokens`: the tokens from a place on
* `ParseState.At`: the parser is at a place of a text
* `ParseM.Walks`: where a rule leads to from a place

## Main results

* `Position.token_span`: a token stands between the blanks before it and the place behind it
* `Position.Leads.le_after`: whoever goes on at all gets behind the next token
* `ParseM.Walks.bind`, `ParseM.Walks.advance`: one rule after another, and reading a token
-/

namespace UpdateExpr

/-- A byte position between two characters of a text, or at one of its ends. -/
def IsBoundary (text : List Char) (n : Nat) : Prop :=
  ∃ front back, text = front ++ back ∧ n = byteLength front

theorem IsBoundary.le {text : List Char} {n : Nat} (h : IsBoundary text n) :
    n ≤ byteLength text := by
  obtain ⟨front, back, rfl, rfl⟩ := h
  simp

namespace Position

variable {text : List Char} {p q r : Position}

/-! ## The next token -/

/-- The next token from a place on. -/
def token (p : Position) : Token :=
  (Token.next p).1

/-- The place behind the next token. -/
def after (p : Position) : Position :=
  (Token.next p).2

/-- Where the next token starts. -/
def tokenStart (p : Position) : Nat :=
  p.skipBlanks.offset

theorem skipBlanks_skipBlanks (p : Position) : p.skipBlanks.skipBlanks = p.skipBlanks := by
  have hfirst := List.head?_dropWhile_not isBlank p.rest
  unfold skipBlanks
  cases hr : p.rest.dropWhile isBlank with
  | nil => simp
  | cons c cs =>
    rw [hr] at hfirst
    have hc : isBlank c = false := by simpa using hfirst
    simp [hc]

/-- Blanks in front of a token do not matter to it. -/
@[simp] theorem token_skipBlanks (p : Position) : p.skipBlanks.token = p.token := by
  rw [token, token, Token.next, Token.next, skipBlanks_skipBlanks]

@[simp] theorem after_skipBlanks (p : Position) : p.skipBlanks.after = p.after := by
  rw [after, after, Token.next, Token.next, skipBlanks_skipBlanks]

/-- At the end of the text there is only the end, again and again. -/
theorem after_of_endOfFile (h : p.token.kind = .endOfFile) : p.after = p.skipBlanks := by
  rw [after, Token.next, Token.atPosition, (Token.next_kind_eq_endOfFile_iff p).1 h]

theorem token_after_of_endOfFile (h : p.token.kind = .endOfFile) : p.after.token = p.token := by
  rw [after_of_endOfFile h, token_skipBlanks]

theorem problem?_of_endOfFile (h : p.token.kind = .endOfFile) : p.token.problem? = none := by
  have hrest := (Token.next_kind_eq_endOfFile_iff p).1 h
  rw [token, Token.next, Token.atPosition, hrest]
  rfl

/-- **A token stands between the blanks before it and the place behind it.** -/
theorem token_span (p : Position) : p.token.span = ⟨p.tokenStart, p.after.offset⟩ := by
  unfold token after tokenStart Token.next Token.atPosition
  cases p.skipBlanks.rest with
  | nil => rfl
  | cons c cs => rfl

theorem offset_le_tokenStart (p : Position) : p.offset ≤ p.tokenStart :=
  Nat.le_add_right _ _

theorem tokenStart_le_after (p : Position) : p.tokenStart ≤ p.after.offset := by
  unfold after tokenStart Token.next Token.atPosition
  cases p.skipBlanks.rest with
  | nil => exact Nat.le_refl _
  | cons c cs => exact Nat.le_add_right _ _

/-- Every token but the end of the text takes some bytes. -/
theorem tokenStart_lt_after (h : p.token.kind ≠ .endOfFile) : p.tokenStart < p.after.offset := by
  rw [token, ne_eq, Token.next_kind_eq_endOfFile_iff] at h
  unfold after tokenStart Token.next Token.atPosition
  cases hr : p.skipBlanks.rest with
  | nil => exact absurd hr h
  | cons c cs =>
    obtain ⟨more, hm⟩ := Lexeme.taken_eq_cons c cs
    have hc := c.utf8Size_pos
    simp only [hm, byteLength_cons]
    omega

theorem offset_le_after (p : Position) : p.offset ≤ p.after.offset :=
  Nat.le_trans p.offset_le_tokenStart p.tokenStart_le_after

/-! ## Places of a text -/

/-- A place is one of a text: what is behind it is the text without the bytes before it. -/
def Of (text : List Char) (p : Position) : Prop :=
  ∃ front, text = front ++ p.rest ∧ p.offset = byteLength front

theorem Of.boundary (h : p.Of text) : IsBoundary text p.offset := by
  obtain ⟨front, ht, ho⟩ := h
  exact ⟨front, p.rest, ht, ho⟩

theorem of_start (text : List Char) : (start text).Of text :=
  ⟨[], rfl, rfl⟩

theorem Of.skipBlanks (h : p.Of text) : p.skipBlanks.Of text := by
  obtain ⟨front, rfl, ho⟩ := h
  refine ⟨front ++ p.rest.takeWhile isBlank, ?_, ?_⟩
  · rw [List.append_assoc]
    exact congrArg (front ++ ·) List.takeWhile_append_dropWhile.symm
  · rw [byteLength_append, ← ho]
    rfl

theorem Of.after (h : p.Of text) : p.after.Of text := by
  obtain ⟨front, rfl, ho⟩ := h.skipBlanks
  unfold Position.after Token.next Token.atPosition
  cases hr : p.skipBlanks.rest with
  | nil => exact ⟨front, congrArg (front ++ ·) hr.symm, ho⟩
  | cons c cs =>
    refine ⟨front ++ (Lexeme.first c cs).taken, ?_, ?_⟩
    · rw [List.append_assoc, Lexeme.taken_append_rest]
    · rw [byteLength_append, ← ho]

theorem Of.tokenStart (h : p.Of text) : IsBoundary text p.tokenStart :=
  h.skipBlanks.boundary

/-- A place is reached from another by going on by some tokens. -/
inductive Leads (p : Position) : Position → Prop
  | refl : Leads p p
  | step {q : Position} (h : Leads p q) : Leads p q.after

namespace Leads

theorem trans (h : p.Leads q) (h' : q.Leads r) : p.Leads r := by
  induction h' with
  | refl => exact h
  | step _ ih => exact .step ih

theorem after (p : Position) : p.Leads p.after :=
  .step .refl

theorem of (h : p.Leads q) (hp : p.Of text) : q.Of text := by
  induction h with
  | refl => exact hp
  | step _ ih => exact ih.after

theorem le (h : p.Leads q) : p.offset ≤ q.offset := by
  induction h with
  | refl => exact Nat.le_refl _
  | step _ ih => exact Nat.le_trans ih (offset_le_after _)

/-- **Whoever goes on at all gets behind the next token.** -/
theorem le_after (h : p.Leads q) : q = p ∨ p.after.offset ≤ q.offset := by
  induction h with
  | refl => exact .inl rfl
  | step _ ih =>
    rcases ih with rfl | ih
    · exact .inr (Nat.le_refl _)
    · exact .inr (Nat.le_trans ih (offset_le_after _))

/-- The token at a place starts no later than the token behind any place further on ends. -/
theorem tokenStart_le (h : p.Leads q) : p.tokenStart ≤ q.after.offset := by
  rcases h.le_after with rfl | h
  · exact q.tokenStart_le_after
  · exact Nat.le_trans (Nat.le_trans p.tokenStart_le_after h) q.offset_le_after

end Leads

/-! ## The tokens from a place on -/

/-- The tokens from a place on, up to the end of the text. -/
def tokens (p : Position) : List Token :=
  Token.listFrom (p.rest.length + 1) p

/-- Any number of tokens that is enough gives all of them. -/
theorem listFrom_eq_tokens {n : Nat} (h : p.rest.length < n) : Token.listFrom n p = p.tokens := by
  unfold tokens
  generalize hm : p.rest.length + 1 = m
  have hle : p.rest.length < m := by omega
  clear hm
  induction n generalizing p m with
  | zero => omega
  | succ n ih =>
    obtain ⟨m, rfl⟩ := Nat.exists_eq_succ_of_ne_zero (Nat.ne_zero_of_lt hle)
    rw [Token.listFrom, Token.listFrom]
    by_cases he : (Token.next p).1.kind = .endOfFile
    · simp only [he, if_true]
    · have hlt := Token.next_rest_length_lt he
      simp only [he, if_false]
      rw [ih (by omega) m (by omega)]

theorem tokens_eq (p : Position) :
    p.tokens = p.token :: if p.token.kind = .endOfFile then [] else p.after.tokens := by
  rw [tokens, Token.listFrom]
  by_cases he : (Token.next p).1.kind = .endOfFile
  · simp only [token, he, if_true]
  · have hlt := Token.next_rest_length_lt he
    simp only [token, he, if_false]
    rw [listFrom_eq_tokens (by omega)]
    rfl

theorem tokens_ne_nil (p : Position) : p.tokens ≠ [] := by
  rw [tokens_eq]
  exact List.cons_ne_nil _ _

/-- At the end of the text the token stays ahead. -/
theorem tokens_after_of_endOfFile (h : p.token.kind = .endOfFile) :
    p.after.tokens = p.tokens := by
  rw [tokens_eq, tokens_eq p, token_after_of_endOfFile h, if_pos h, if_pos h]

end Position

/-! ## The parser at a place -/

namespace ParseState

/-- The parser is at a place of a text: the tokens from there on are ahead, and the last one that
was read ends there. -/
structure At (text : List Char) (p : Position) (s : ParseState) : Prop where
  of : p.Of text
  ahead : s.ahead = p.tokens
  lastEnd : s.lastEnd = p.offset

variable {text : List Char} {p : Position} {s : ParseState}

theorem At.current_eq (h : s.At text p) : s.current = p.token := by
  have hahead := h.ahead
  rw [Position.tokens_eq] at hahead
  exact (List.cons.inj hahead).1

theorem At.later_eq (h : s.At text p) :
    s.later = if p.token.kind = .endOfFile then [] else p.after.tokens := by
  have hahead := h.ahead
  rw [Position.tokens_eq] at hahead
  exact (List.cons.inj hahead).2

/-- Before the first token the parser is at the start of the text. -/
theorem at_ofTokens (text : List Char) :
    (ofTokens (Token.ofText text)).At text (.start text) := by
  have htokens : Token.ofText text = (Position.start text).tokens := rfl
  refine ⟨Position.of_start text, ?_, ?_⟩
  · rw [htokens]
    cases h : (Position.start text).tokens with
    | nil => exact absurd h (Position.tokens_ne_nil _)
    | cons t ts => rfl
  · rw [htokens, Position.tokens_eq]
    rfl

/-- **Reading a token leads behind it.** -/
theorem At.advance (h : s.At text p) : s.advance.At text p.after := by
  have hspan : s.current.span.stop = p.after.offset := by rw [h.current_eq, p.token_span]
  refine ⟨h.of.after, ?_, ?_⟩
  · by_cases he : p.token.kind = .endOfFile
    · have hl : s.later = [] := by rw [h.later_eq, if_pos he]
      rw [Position.tokens_after_of_endOfFile he, ← h.ahead]
      simp [ParseState.advance, ParseState.ahead, hl]
    · have hl : s.later = p.after.tokens := by rw [h.later_eq, if_neg he]
      cases hts : p.after.tokens with
      | nil => exact absurd hts (Position.tokens_ne_nil _)
      | cons t ts => simp [ParseState.advance, ParseState.ahead, hl, hts]
  · rw [← hspan]
    unfold ParseState.advance
    split <;> rfl

theorem At.report (h : s.At text p) (issue : Issue) (span : Span) (args : List String) :
    (s.report issue span args).At text p := by
  unfold ParseState.report
  split
  · exact h
  · exact ⟨h.of, h.ahead, h.lastEnd⟩

theorem At.meet (h : s.At text p) (name : String) : (s.meet name).At text p :=
  ⟨h.of, h.ahead, h.lastEnd⟩

/-- Some tokens are read, whatever they are. -/
theorem At.foldl_advance (h : s.At text p) (ts : List Token) :
    ∃ q, p.Leads q ∧ (ts.foldl (fun s _ => s.advance) s).At text q ∧
      (ts ≠ [] → p.after.offset ≤ q.offset) := by
  induction ts generalizing s p with
  | nil => exact ⟨p, .refl, h, fun hne => absurd rfl hne⟩
  | cons t ts ih =>
    obtain ⟨q, hlead, hat, -⟩ := ih h.advance
    exact ⟨q, (Position.Leads.after p).trans hlead, hat, fun _ => hlead.le⟩

/-- The rest of the text is left out: if anything but its end is ahead, the parser goes on. -/
theorem At.skipToEnd (h : s.At text p) :
    ∃ q, p.Leads q ∧ s.skipToEnd.At text q ∧
      (p.token.kind ≠ .endOfFile → p.after.offset ≤ q.offset) := by
  obtain ⟨q, hlead, hat, hle⟩ := h.foldl_advance s.later
  refine ⟨q, hlead, hat, fun hk => hle ?_⟩
  rw [h.later_eq, if_neg hk]
  exact Position.tokens_ne_nil _

end ParseState

namespace ParseM

/-- From a place of a text, a rule leads to a place further on, for which, with what the rule gives,
something holds. -/
def Walks {α : Type} (text : List Char) (p : Position) (m : ParseM α) (post : Position → α → Prop) :
    Prop :=
  ∀ s : ParseState, s.At text p →
    ∃ q, p.Leads q ∧ (m s).2.At text q ∧ post q (m s).1

namespace Walks

variable {α β : Type} {text : List Char} {p : Position} {m : ParseM α} {f : α → ParseM β}
  {k : ParseM β} {post : Position → α → Prop} {result : Position → β → Prop}

theorem pure {a : α} (h : p.Of text → post p a) : Walks text p (pure a) post :=
  fun _ hs => ⟨p, .refl, hs, h hs.of⟩

/-- **One rule after another.** -/
theorem bind (hm : Walks text p m post)
    (hf : ∀ q a, p.Leads q → post q a → Walks text q (f a) result) :
    Walks text p (m >>= f) result := by
  intro s hs
  obtain ⟨q, hlead, hq, hpost⟩ := hm s hs
  obtain ⟨r, hlead', hr, hresult⟩ := hf q _ hlead hpost _ hq
  exact ⟨r, hlead.trans hlead', hr, hresult⟩

theorem weaken {post' : Position → α → Prop} (hm : Walks text p m post)
    (h : ∀ q a, p.Leads q → q.Of text → post q a → post' q a) : Walks text p m post' := by
  intro s hs
  obtain ⟨q, hlead, hq, hpost⟩ := hm s hs
  exact ⟨q, hlead, hq, h q _ hlead hq.of hpost⟩

/-- A rule may look at the token that is read next. -/
theorem current {f : Token → ParseM β} (hf : Walks text p (f p.token) result) :
    Walks text p (currentToken >>= f) result := by
  intro s hs
  rw [← hs.current_eq] at hf
  exact hf s hs

/-- A rule may look at all that was gathered. -/
theorem get {f : ParseState → ParseM β}
    (hf : ∀ s : ParseState, s.At text p → Walks text p (f s) result) :
    Walks text p (MonadState.get >>= f) result :=
  fun s hs => hf s hs s hs

/-- **A token is read.** -/
theorem advance (hk : Walks text p.after k result) :
    Walks text p (UpdateExpr.advance >>= fun _ => k) result := by
  intro s hs
  obtain ⟨q, hlead, hq, hresult⟩ := hk s.advance hs.advance
  exact ⟨q, (Position.Leads.after p).trans hlead, hq, hresult⟩

theorem spanFrom {start : Nat} {f : Span → ParseM β}
    (hf : Walks text p (f ⟨start, p.offset⟩) result) :
    Walks text p (UpdateExpr.spanFrom start >>= f) result := by
  intro s hs
  rw [← hs.lastEnd] at hf
  exact hf s hs

theorem report {issue : Issue} {span : Span} {args : List String} (hk : Walks text p k result) :
    Walks text p (reportAt issue span args >>= fun _ => k) result :=
  fun s hs => hk (s.report issue span args) (hs.report issue span args)

theorem meet {name : String} (hk : Walks text p k result) :
    Walks text p (modify (·.meet name) >>= fun _ => k) result :=
  fun s hs => hk (s.meet name) (hs.meet name)

end Walks

end ParseM

end UpdateExpr
