import UpdateExpr.Proofs.Syntax.Acceptance
import UpdateExpr.Proofs.Token.Cut

/-!
# Trees at other places

Where the parts of a tree stand is taken from the ends of tokens, and nothing else is done with
them. So if tokens form a tree, the same tokens at other places form the same tree there.

## Main definitions

* `SyntaxTree.mapSpans`: a tree whose parts stand at other places

## Main results

* `Forms.map`: what tokens form at other places
* `Forms.exists_of_moved`: tokens that were moved form what they formed before, moved
-/

namespace UpdateExpr

/-! ## Trees -/

/-- A name at another place. -/
def Identifier.mapSpan (f : Nat → Nat) (id : Identifier) : Identifier :=
  { id with span := id.span.map f }

namespace SyntaxTree

mutual

/-- A tree whose parts stand at other places. -/
def mapSpans (f : Nat → Nat) : SyntaxTree → SyntaxTree
  | identifier id => identifier (id.mapSpan f)
  | literal value text flags span => literal value text flags (span.map f)
  | keyword kind span => keyword kind (span.map f)
  | access target member span => access (mapSpans f target) (member.mapSpan f) (span.map f)
  | call target span => call (mapSpans f target) (span.map f)
  | paren inner span => paren (mapSpans f inner) (span.map f)
  | update receiver entries list span =>
    update (mapSpans f receiver) (mapEntries f entries) { list with span := list.span.map f }
      (span.map f)

/-- Initializers at other places. -/
def mapEntries (f : Nat → Nat) :
    List (Initializer SyntaxTree) → List (Initializer SyntaxTree)
  | [] => []
  | ⟨name, value, span⟩ :: entries =>
    ⟨name.map (·.mapSpan f), mapSpans f value, span.map f⟩ :: mapEntries f entries

end

variable {f : Nat → Nat}

@[simp] theorem span_mapSpans (e : SyntaxTree) : (e.mapSpans f).span = e.span.map f := by
  cases e <;> simp [mapSpans, span, Identifier.mapSpan]

theorem IsOperand.mapSpans {e : SyntaxTree} (h : e.IsOperand) : (e.mapSpans f).IsOperand := by
  cases e <;> simp_all [SyntaxTree.mapSpans, IsOperand]

end SyntaxTree

/-! ## Tokens -/

section Tokens

variable {f : Nat → Nat}

theorem Token.tree_mapSpan (t : Token) : (t.mapSpan f).tree = t.tree.mapSpans f := by
  unfold Token.tree Token.mapSpan
  dsimp only
  split <;> rfl

theorem endOf_map (last : Nat) (ts : List Token) :
    endOf (f last) (ts.map (Token.mapSpan f)) = f (endOf last ts) := by
  induction ts generalizing last with
  | nil => rfl
  | cons t ts ih => exact ih t.span.stop

end Tokens

/-! ## What tokens form -/

section Forms

variable {nested nested' : List Token → SyntaxTree → Prop} {f : Nat → Nat} {ts : List Token}

theorem FormsEntry.map
    (hn : ∀ ts e, nested ts e → nested' (ts.map (Token.mapSpan f)) (e.mapSpans f))
    {name : Option Identifier} {value : SyntaxTree} {span : Span}
    (h : FormsEntry nested ts ⟨name, value, span⟩) :
    FormsEntry nested' (ts.map (Token.mapSpan f))
      ⟨name.map (·.mapSpan f), value.mapSpans f, span.map f⟩ := by
  cases h with
  | @bare t us _ h =>
    show FormsEntry nested' (t.mapSpan f :: us.map _) ⟨none, _, ⟨_, f (endOf t.span.stop us)⟩⟩
    rw [← endOf_map (f := f)]
    exact .bare (hn _ _ h)
  | @named name eq us _ hname heq h =>
    show FormsEntry nested' (name.mapSpan f :: eq.mapSpan f :: us.map _)
      ⟨some (name.mapSpan f).identifier, _, ⟨_, f (endOf eq.span.stop us)⟩⟩
    rw [← endOf_map (f := f)]
    exact .named hname heq (hn _ _ h)

theorem FormsEntries.map
    (hn : ∀ ts e, nested ts e → nested' (ts.map (Token.mapSpan f)) (e.mapSpans f))
    {entries : List (Initializer SyntaxTree)} {trailing : Bool}
    (h : FormsEntries nested ts entries trailing) :
    FormsEntries nested' (ts.map (Token.mapSpan f)) (SyntaxTree.mapEntries f entries) trailing := by
  induction h with
  | nil => exact .nil
  | last h => exact .last (h.map hn)
  | trailing h hc =>
    rw [List.map_append]
    exact .trailing (h.map hn) hc
  | @cons _ _ _ _ entries _ h hc _ hne ih =>
    rw [List.map_append]
    refine .cons (h.map hn) hc ih ?_
    cases entries with
    | nil => exact absurd rfl hne
    | cons entry entries => exact List.cons_ne_nil _ _

theorem FormsLevel.map
    (hn : ∀ ts e, nested ts e → nested' (ts.map (Token.mapSpan f)) (e.mapSpans f)) {e : SyntaxTree}
    (h : FormsLevel nested ts e) :
    FormsLevel nested' (ts.map (Token.mapSpan f)) (e.mapSpans f) := by
  induction h with
  | literal hk hr =>
    rw [← Token.tree_mapSpan]
    exact .literal hk hr
  | name hk => exact .name hk
  | @paren op close ts _ ho h hc =>
    rw [List.map_cons, List.map_append]
    exact .paren ho (hn _ _ h) hc
  | @access _ _ dot name _ ho hd hname ih =>
    have hform := @FormsLevel.access nested' _ _ (dot.mapSpan f) (name.mapSpan f) ih ho.mapSpans
      hd hname
    rw [SyntaxTree.span_mapSpans] at hform
    rw [List.map_append]
    exact hform
  | @call _ _ dot name op close _ ho hd hname hop hc ih =>
    have hform := @FormsLevel.call nested' _ _ (dot.mapSpan f) (name.mapSpan f) (op.mapSpan f)
      (close.mapSpan f) ih ho.mapSpans hd hname hop hc
    rw [SyntaxTree.span_mapSpans] at hform
    rw [List.map_append]
    exact hform
  | @update _ us _ key op close _ _ _ hk ho hs hc ih =>
    have hform := @FormsLevel.update nested' _ (us.map (Token.mapSpan f)) _ (key.mapSpan f)
      (op.mapSpan f) (close.mapSpan f) _ _ ih hk ho (hs.map hn) hc
    rw [SyntaxTree.span_mapSpans] at hform
    rw [List.map_append, List.map_cons, List.map_cons, List.map_append]
    exact hform

/-- **What tokens form at other places** is the same tree at these places. -/
theorem Forms.map {n m : Nat} {e : SyntaxTree} (h : Forms n ts e) (hle : n ≤ m) (f : Nat → Nat) :
    Forms m (ts.map (Token.mapSpan f)) (e.mapSpans f) := by
  induction n generalizing m ts e with
  | zero => exact h.elim
  | succ n ih =>
    obtain ⟨m, rfl⟩ := Nat.exists_eq_add_of_lt hle
    exact FormsLevel.map (fun ts e h => ih h (Nat.le_add_right n m)) h

/-- **Tokens that were moved form what they formed before**, moved as they are. -/
theorem Forms.exists_of_moved {n k : Nat} {e : SyntaxTree}
    (h : Forms n (ts.map (Token.mapSpan (· + k))) e) :
    ∃ e', (∀ m, n ≤ m → Forms m ts e') ∧ e'.mapSpans (· + k) = e := by
  have hback : (ts.map (Token.mapSpan (· + k))).map (Token.mapSpan (· - k)) = ts := by
    have hid : Token.mapSpan (· - k) ∘ Token.mapSpan (· + k) = id := by
      funext t
      simp [Token.mapSpan, Span.map]
    rw [List.map_map, hid, List.map_id]
  have hforms : ∀ m, n ≤ m → Forms m ts (e.mapSpans (· - k)) := by
    intro m hle
    have hm := h.map hle (· - k)
    rwa [hback] at hm
  -- Moved there and back, the tree is formed by the same tokens, and they form only one.
  have hagain := (hforms n (Nat.le_refl n)).map (Nat.le_refl n) (· + k)
  exact ⟨_, hforms, hagain.unique h⟩

end Forms

end UpdateExpr
