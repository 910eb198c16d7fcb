import UpdateExpr.Proofs.Syntax.Reading
import UpdateExpr.Proofs.Syntax.Written

/-!
# Trees that tokens form

Tokens of an expression form a tree, with its spans: a part starts where its first token starts and
ends where its last one ends, and the list of an update lies between its braces. Where `Spells` says
which words are written, this says what the parser makes of their tokens, so that reading can be
stated as an equation.

A member is behind its target, and an update behind its receiver, so the relation goes down on the
left as the parser goes forward. What stands in parentheses and initializers is a relation of its
own, and nesting is by the depth that is left.

## Main definitions

* `endOf`: where the last of some tokens ends
* `Grammar.Starts`: how the tokens of an expression start
* `FormsEntry`, `FormsEntries`: initializers that tokens form
* `FormsLevel`, `Forms`: trees that tokens form, by what is nested in them, and by the depth

## Main results

* `Forms.span_eq`: a tree stands from its first token to its last one
* `Forms.starts`: how the tokens of a tree start
* `Expr.Within.exists_forms`: what spells an expression forms a tree that writes it
-/

namespace UpdateExpr

/-- Where the last of some tokens ends; without any, where the token before them does. -/
def endOf (last : Nat) (ts : List Token) : Nat :=
  ts.foldl (fun _ t => t.span.stop) last

@[simp] theorem endOf_nil (last : Nat) : endOf last [] = last := rfl

@[simp] theorem endOf_cons (last : Nat) (t : Token) (ts : List Token) :
    endOf last (t :: ts) = endOf t.span.stop ts := rfl

@[simp] theorem endOf_append (last : Nat) (ts us : List Token) :
    endOf last (ts ++ us) = endOf (endOf last ts) us :=
  List.foldl_append

/-- The name that a token is. -/
def Token.identifier (t : Token) : Identifier :=
  ⟨t.value, t.span, false⟩

/-- Members of a tree can be read behind it. -/
def SyntaxTree.IsOperand : SyntaxTree → Prop
  | .update _ _ _ _ => False
  | _ => True

/-! ## How expressions start -/

namespace Grammar

/-- Some tokens start as an expression does, with no equals sign behind a name at the start. -/
def Starts (ts : List Token) : Prop :=
  ∃ t us, ts = t :: us ∧ t.kind ∈ starters ∧ (t.kind = .identifier → head? us ≠ some .equals)

variable {ts us : List Token}

theorem starts_singleton {t : Token} (h : t.kind ∈ starters) : Starts [t] :=
  ⟨t, [], rfl, h, fun _ => by simp⟩

theorem Starts.append (h : Starts ts) (hu : head? us ≠ some .equals) : Starts (ts ++ us) := by
  obtain ⟨t, ts, rfl, ht, heq⟩ := h
  refine ⟨t, ts ++ us, rfl, ht, fun hk => ?_⟩
  rw [head?_append]
  cases hh : head? ts with
  | none => simpa using hu
  | some k =>
    rw [hh] at heq
    simpa using heq hk

end Grammar

theorem literalKinds_subset : literalKinds ⊆ Grammar.starters := by
  decide

/-! ## What tokens form -/

section Forms

variable (nested : List Token → SyntaxTree → Prop)

/-- Some tokens form an initializer, by what its value may be formed of. -/
inductive FormsEntry : List Token → Initializer SyntaxTree → Prop
  | bare {t : Token} {ts : List Token} {e : SyntaxTree} (h : nested (t :: ts) e) :
    FormsEntry (t :: ts) ⟨none, e, ⟨t.span.start, endOf t.span.stop ts⟩⟩
  | named {name eq : Token} {ts : List Token} {e : SyntaxTree} (hn : name.kind = .identifier)
    (he : eq.kind = .equals) (h : nested ts e) :
    FormsEntry (name :: eq :: ts)
      ⟨some name.identifier, e, ⟨name.span.start, endOf eq.span.stop ts⟩⟩

/-- Some tokens form initializers with commas between them, and maybe one behind them. -/
inductive FormsEntries : List Token → List (Initializer SyntaxTree) → Bool → Prop
  | nil : FormsEntries [] [] false
  | last {ts : List Token} {entry : Initializer SyntaxTree} (h : FormsEntry nested ts entry) :
    FormsEntries ts [entry] false
  | trailing {ts : List Token} {entry : Initializer SyntaxTree} {comma : Token}
    (h : FormsEntry nested ts entry) (hc : comma.kind = .comma) :
    FormsEntries (ts ++ [comma]) [entry] true
  | cons {ts us : List Token} {entry : Initializer SyntaxTree} {comma : Token}
    {entries : List (Initializer SyntaxTree)} {trailing : Bool} (h : FormsEntry nested ts entry)
    (hc : comma.kind = .comma) (hs : FormsEntries us entries trailing) (hne : entries ≠ []) :
    FormsEntries (ts ++ comma :: us) (entry :: entries) trailing

/-- Some tokens form a tree, by what the expressions in parentheses and initializers may be formed
of. -/
inductive FormsLevel : List Token → SyntaxTree → Prop
  | literal {t : Token} (hk : t.kind ∈ literalKinds) (hr : t.InRange) : FormsLevel [t] t.tree
  | name {t : Token} (hk : t.kind = .identifier) : FormsLevel [t] (.identifier t.identifier)
  | paren {op close : Token} {ts : List Token} {e : SyntaxTree} (ho : op.kind = .openParen)
    (h : nested ts e) (hc : close.kind = .closeParen) :
    FormsLevel (op :: (ts ++ [close])) (.paren e ⟨op.span.start, close.span.stop⟩)
  | access {before : List Token} {target : SyntaxTree} {dot name : Token}
    (h : FormsLevel before target) (ho : target.IsOperand) (hd : dot.kind = .dot)
    (hn : name.kind = .identifier) :
    FormsLevel (before ++ [dot, name])
      (.access target name.identifier ⟨target.span.start, name.span.stop⟩)
  | call {before : List Token} {target : SyntaxTree} {dot name op close : Token}
    (h : FormsLevel before target) (ho : target.IsOperand) (hd : dot.kind = .dot)
    (hn : name.kind = .identifier) (hop : op.kind = .openParen)
    (hc : close.kind = .closeParen) :
    FormsLevel (before ++ [dot, name, op, close])
      (.call (.access target name.identifier ⟨target.span.start, name.span.stop⟩)
        ⟨target.span.start, close.span.stop⟩)
  | update {before ts : List Token} {receiver : SyntaxTree} {key op close : Token}
    {entries : List (Initializer SyntaxTree)} {trailing : Bool} (h : FormsLevel before receiver)
    (hk : key.kind = .withKeyword) (ho : op.kind = .openBrace)
    (hs : FormsEntries nested ts entries trailing) (hc : close.kind = .closeBrace) :
    FormsLevel (before ++ key :: op :: (ts ++ [close]))
      (.update receiver entries ⟨⟨op.span.stop, close.span.start⟩, trailing⟩
        ⟨receiver.span.start, close.span.stop⟩)

end Forms

/-- Some tokens form a tree in which any expression has less than a number of parentheses and
initializers around it. -/
def Forms : Nat → List Token → SyntaxTree → Prop
  | 0 => fun _ _ => False
  | n + 1 => FormsLevel (Forms n)

open Grammar

variable {nested : List Token → SyntaxTree → Prop} {n : Nat} {ts : List Token} {e : SyntaxTree}

theorem Token.span_tree (t : Token) : t.tree.span = t.span := by
  unfold tree
  split <;> rfl

theorem Token.isOperand_tree (t : Token) : t.tree.IsOperand := by
  unfold tree
  split <;> trivial

/-- **A tree stands from its first token to its last one.** -/
theorem FormsLevel.span_eq (h : FormsLevel nested ts e) :
    ∃ t us, ts = t :: us ∧ e.span = ⟨t.span.start, endOf t.span.stop us⟩ := by
  induction h with
  | literal _ _ => exact ⟨_, _, rfl, Token.span_tree _⟩
  | name _ => exact ⟨_, _, rfl, rfl⟩
  | paren _ _ _ => exact ⟨_, _, rfl, by simp [SyntaxTree.span]⟩
  | access _ _ _ _ ih | call _ _ _ _ _ _ ih | update _ _ _ _ _ ih =>
    obtain ⟨t, us, rfl, hspan⟩ := ih
    refine ⟨t, _, rfl, ?_⟩
    show Span.mk _ _ = _
    rw [hspan]
    simp

theorem Forms.span_eq (h : Forms n ts e) :
    ∃ t us, ts = t :: us ∧ e.span = ⟨t.span.start, endOf t.span.stop us⟩ := by
  cases n with
  | zero => exact h.elim
  | succ n => exact FormsLevel.span_eq h

/-- **The tokens of a tree start as an expression does**, with no equals sign behind a name. -/
theorem FormsLevel.starts (h : FormsLevel nested ts e) : Starts ts := by
  induction h with
  | literal hk _ => exact starts_singleton (literalKinds_subset hk)
  | name hk => exact starts_singleton (by simp [hk, starters, atoms])
  | paren ho _ _ => exact ⟨_, _, rfl, by simp [ho, starters], by simp [ho]⟩
  | access _ _ hd _ ih => exact ih.append (by simp [hd])
  | call _ _ hd _ _ _ ih => exact ih.append (by simp [hd])
  | update _ hk _ _ _ ih => exact ih.append (by simp [hk])

theorem Forms.starts (h : Forms n ts e) : Starts ts := by
  cases n with
  | zero => exact h.elim
  | succ n => exact FormsLevel.starts h

/-! ## What is written is formed -/

section Written

variable {p : Token → Prop}

/-- What spells initializers forms them, if this is so of their values. -/
theorem exists_formsEntry {entry : Option String × Expr}
    (ih : ∀ ts, Spells entry.2.words ts → (∀ t ∈ ts, t.InRange) → (∀ t ∈ ts, p t) →
      ∃ tree, Forms n ts tree ∧ tree.Writes p entry.2)
    (hs : Spells (Word.target entry.1 ++ entry.2.words) ts) (hr : ∀ t ∈ ts, t.InRange)
    (hp : ∀ t ∈ ts, p t) :
    ∃ entry', FormsEntry (Forms n) ts entry' ∧ Initializer.Writes p entry' entry := by
  obtain ⟨name?, value⟩ := entry
  rcases entry_spells hs with ⟨rfl, hvalue⟩ | ⟨text, name, eq, us, rfl, rfl, hname, heq, hvalue⟩
  · obtain ⟨tree, hf, hw⟩ := ih ts hvalue hr hp
    obtain ⟨t, us, rfl, -⟩ := hf.span_eq
    exact ⟨_, .bare hf, .none, hw⟩
  · simp only [List.forall_mem_cons] at hr hp
    obtain ⟨tree, hf, hw⟩ := ih us hvalue hr.2.2 hp.2.2
    exact ⟨_, .named hname.1 heq hf, .some ⟨hname.2, rfl⟩, hw⟩

theorem exists_formsEntries {es : List (Option String × Expr)} {trailing : Bool}
    (ih : ∀ entry ∈ es, ∀ ts, Spells entry.2.words ts → (∀ t ∈ ts, t.InRange) → (∀ t ∈ ts, p t) →
      ∃ tree, Forms n ts tree ∧ tree.Writes p entry.2)
    (hne : trailing = true → es ≠ []) (hs : Spells (Expr.entryWords trailing es) ts)
    (hr : ∀ t ∈ ts, t.InRange) (hp : ∀ t ∈ ts, p t) :
    ∃ entries, FormsEntries (Forms n) ts entries trailing ∧
      List.Forall₂ (Initializer.Writes p) entries es := by
  induction es generalizing ts with
  | nil =>
    obtain rfl : ts = [] := List.forall₂_nil_left_iff.1 hs
    obtain rfl : trailing = false := by simpa using hne
    exact ⟨[], .nil, .nil⟩
  | cons entry es ihs =>
    rw [List.forall_mem_cons] at ih
    obtain ⟨first, comma, more, rfl, hfirst, hcomma, hmore⟩ := entries_spell hs
    simp only [List.forall_mem_append] at hr hp
    obtain ⟨entry', hentry, hw⟩ := exists_formsEntry ih.1 hfirst hr.1 hp.1
    rcases spells_comma.1 hcomma with ⟨hlast, rfl⟩ | ⟨hthere, c, hc, rfl⟩
    · obtain ⟨rfl, rfl⟩ : trailing = false ∧ es = [] := by simpa using hlast
      obtain rfl : more = [] := List.forall₂_nil_left_iff.1 hmore
      exact ⟨[entry'], by simpa using .last hentry, .cons hw .nil⟩
    · by_cases hes : es = []
      · subst hes
        obtain rfl : trailing = true := by simpa using hthere
        obtain rfl : more = [] := List.forall₂_nil_left_iff.1 hmore
        exact ⟨[entry'], .trailing hentry hc, .cons hw .nil⟩
      · obtain ⟨entries, hentries, hws⟩ := ihs ih.2 (fun _ => hes) hmore hr.2.2 hp.2.2
        have hne' : entries ≠ [] := by
          rintro rfl
          exact hes (List.forall₂_nil_left_iff.1 hws)
        exact ⟨entry' :: entries, .cons hentry hc hentries hne', .cons hw hws⟩

theorem Expr.isOperand_of_writes {tree : SyntaxTree} {e : Expr} (hw : tree.Writes p e)
    (ho : e.IsOperand) : tree.IsOperand := by
  cases hw with
  | literal _ _ => exact Token.isOperand_tree _
  | update _ _ _ => exact ho.elim
  | _ => trivial

/-- **What spells an expression forms a tree that writes it.** -/
theorem Expr.Within.exists_forms {e : Expr} (he : e.Within n) (hs : Spells e.words ts)
    (hr : ∀ t ∈ ts, t.InRange) (hp : ∀ t ∈ ts, p t) :
    ∃ tree, Forms n ts tree ∧ tree.Writes p e := by
  induction he generalizing ts with
  | literal =>
    obtain ⟨t, ⟨hk, rfl⟩, rfl⟩ := spells_singleton.1 hs
    exact ⟨_, FormsLevel.literal hk (hr t (by simp)), .literal (hp t (by simp)) hk⟩
  | name =>
    obtain ⟨t, ⟨hk, rfl⟩, rfl⟩ := spells_singleton.1 hs
    exact ⟨_, FormsLevel.name hk, .name ⟨rfl, rfl⟩⟩
  | paren _ ih =>
    obtain ⟨op, inner, close, rfl, ho, hi, hc⟩ := paren_spells hs
    simp only [List.forall_mem_cons, List.forall_mem_append] at hr hp
    obtain ⟨tree, hf, hw⟩ := ih hi hr.2.1 hp.2.1
    exact ⟨_, FormsLevel.paren ho hf hc, .paren hw⟩
  | access _ ho ih =>
    obtain ⟨before, dot, name, rfl, hbefore, hd, hn, rfl⟩ := access_spells hs
    rw [List.forall_mem_append] at hr hp
    obtain ⟨tree, hf, hw⟩ := ih hbefore hr.1 hp.1
    exact ⟨_, FormsLevel.access hf (isOperand_of_writes hw ho) hd hn, .access hw ⟨rfl, rfl⟩⟩
  | call _ ho ih =>
    obtain ⟨before, dot, name, op, close, rfl, hbefore, hd, ⟨hn, rfl⟩, hop, hc⟩ := call_spells hs
    rw [List.forall_mem_append] at hr hp
    obtain ⟨tree, hf, hw⟩ := ih hbefore hr.1 hp.1
    exact ⟨_, FormsLevel.call hf (isOperand_of_writes hw ho) hd hn hop hc, .call hw ⟨rfl, rfl⟩⟩
  | update _ _ hne ih ihe =>
    obtain ⟨before, key, op, es, close, rfl, hbefore, hk, ho, hes, hc⟩ := update_spells hs
    simp only [List.forall_mem_cons, List.forall_mem_append] at hr hp
    obtain ⟨tree, hf, hw⟩ := ih hbefore hr.1 hp.1
    obtain ⟨entries, hentries, hws⟩ := exists_formsEntries (fun entry hentry ts => ihe entry hentry)
      hne hes hr.2.2.2.1 hp.2.2.2.1
    exact ⟨_, FormsLevel.update hf hk ho hentries hc, .of_entries hw hws⟩

end Written

end UpdateExpr
