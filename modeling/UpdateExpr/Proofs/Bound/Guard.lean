import Mathlib.Order.Bounds.Basic
import UpdateExpr.Proofs.Bound.Context
import UpdateExpr.Proofs.Bound.Depth
import UpdateExpr.Proofs.Bound.Flag

/-!
# The limit for nested expressions

How deep binding would go without a limit is a matter of the nodes alone: a rule binds the same
nodes as expressions whatever the types and the symbols are. Nodes may share parts and may lead back
to where they came from, so there need not be a deepest level. Where there is one, a limit that it
does not pass changes nothing, and any smaller one is reported.

## Main definitions

* `Arena.inner`: the nodes that the rule for a node binds as expressions
* `Arena.Reaches`: expressions are nested so many levels deep
* `Binder.Rule`: what the rule for a node is, and which nodes it binds by it
* `Binder.withDepth`: a binder with another limit

## Main results

* `Binder.deepens_reaches`: what is nested too deeply is what reaches beyond the depth that is left
* `Binder.expr_of_not_reaches`: depth that is not reached changes nothing
* `Binder.tooDeep_of_endless`: nodes that lead back to themselves
* `Binder.isGreatest_frames`: the levels of a tree that was read
* `Binder.depth_guard`: binding ends and restores its context, and its limit is exact
-/

namespace UpdateExpr

/-! ## Nested expressions -/

namespace Arena

variable {a : Arena} {node : NodeRef} {n m : Nat}

/-- What is bound in front of a member. -/
def fronts (a : Arena) (place : NodeRef) : List NodeRef :=
  match a.shape? place with
  | some (.access target _) => [target]
  | _ => []

/-- The value that an entry of an update writes. -/
def values (a : Arena) (entry : NodeRef) : List NodeRef :=
  match a.shape? entry with
  | some (.initializer _ value) => [value]
  | _ => []

/-- The nodes that the rule for a node binds as expressions. A call binds what is in front of its
member, and not the member. -/
def inner (a : Arena) (node : NodeRef) : List NodeRef :=
  match a.get? node with
  | some ⟨.access target _, _, false⟩ => [target]
  | some ⟨.call place, _, false⟩ => a.fronts place
  | some ⟨.paren inner, _, false⟩ => [inner]
  | some ⟨.update receiver entries _, _, false⟩ => receiver :: entries.flatMap a.values
  | _ => []

/-- Expressions are nested in a node so many levels deep, with the node itself as the first. -/
def Reaches (a : Arena) : Nat → NodeRef → Prop
  | 0, _ => True
  | n + 1, node => n = 0 ∨ ∃ inner ∈ a.inner node, a.Reaches n inner

/-- It can be checked how deep a node reaches. -/
def decideReaches (a : Arena) : (n : Nat) → (node : NodeRef) → Decidable (a.Reaches n node)
  | 0, _ => .isTrue trivial
  | n + 1, node =>
    have := a.decideReaches n
    inferInstanceAs (Decidable (n = 0 ∨ ∃ inner ∈ a.inner node, a.Reaches n inner))

instance : Decidable (a.Reaches n node) :=
  a.decideReaches n node

theorem reaches_add_two :
    a.Reaches (n + 2) node ↔ ∃ inner ∈ a.inner node, a.Reaches (n + 1) inner := by
  rw [Reaches, or_iff_right (Nat.succ_ne_zero n)]

/-- What reaches so deep reaches every level before. -/
theorem Reaches.of_le (h : a.Reaches n node) (hle : m ≤ n) : a.Reaches m node := by
  induction n generalizing m node with
  | zero =>
    obtain rfl := Nat.le_zero.1 hle
    exact h
  | succ n ih =>
    cases m with
    | zero => trivial
    | succ m =>
      have hle := Nat.le_of_succ_le_succ hle
      rcases h with rfl | ⟨inner, hi, h⟩
      · exact .inl (Nat.le_zero.1 hle)
      · exact .inr ⟨inner, hi, ih h hle⟩

/-- Where each of some nodes leads to another one of them, they reach every depth. -/
theorem reaches_of_endless {p : NodeRef → Prop}
    (h : ∀ node, p node → ∃ inner ∈ a.inner node, p inner) (hp : p node) (n : Nat) :
    a.Reaches n node := by
  induction n generalizing node with
  | zero => trivial
  | succ n ih =>
    obtain ⟨inner, hi, hp⟩ := h node hp
    exact .inr ⟨inner, hi, ih hp⟩

theorem fronts_cases (a : Arena) (place : NodeRef) :
    (∃ target nameNode, a.shape? place = some (.access target nameNode) ∧
      a.fronts place = [target]) ∨
    (∀ target nameNode, a.shape? place ≠ some (.access target nameNode)) ∧
      a.fronts place = [] := by
  unfold fronts
  split
  · next target nameNode h => exact .inl ⟨target, nameNode, h, rfl⟩
  · next h => exact .inr ⟨h, rfl⟩

theorem values_cases (a : Arena) (entry : NodeRef) :
    (∃ nameNode value, a.shape? entry = some (.initializer nameNode value) ∧
      a.values entry = [value]) ∨
    (∀ nameNode value, a.shape? entry ≠ some (.initializer nameNode value)) ∧
      a.values entry = [] := by
  unfold values
  split
  · next nameNode value h => exact .inl ⟨nameNode, value, h, rfl⟩
  · next h => exact .inr ⟨h, rfl⟩

end Arena

namespace Binder

/-! ## Rules -/

/-- What the rule for a node is, as a function of the rule for nested expressions, and which nodes
it binds by that. -/
inductive Rule (b : Binder) (node : NodeRef) :
    List NodeRef → ((NodeRef → BindM BoundExpr) → BindM BoundExpr) → Prop
  | leaf (m : BindM BoundExpr) (h : ∀ s, Deepens s (m s).2 False) : Rule b node [] fun _ => m
  | access : Rule b node (b.arena.fronts node) fun nested => b.memberNode nested node false
  | call (place : NodeRef) :
    Rule b node (b.arena.fronts place) fun nested => b.callNode nested node place
  | paren (inner : NodeRef) : Rule b node [inner] fun nested => nested inner
  | update {receiver : NodeRef} {entries : List NodeRef} {list : ListSpan}
    (h : b.arena.shape? node = some (.update receiver entries list)) :
    Rule b node (receiver :: entries.flatMap b.arena.values) fun nested => b.update nested node

section Rules

variable {b : Binder} {node : NodeRef} {nodes : List NodeRef}
  {rule : (NodeRef → BindM BoundExpr) → BindM BoundExpr}
  {nested nested' : NodeRef → BindM BoundExpr} {p : NodeRef → Prop} {e copy : BoundExpr}
  {s s' : BindState}

/-- **Every node has such a rule.** -/
theorem rule_node (b : Binder) (node : NodeRef) :
    b.Rule node (b.arena.inner node) fun nested => b.node nested node := by
  cases hg : b.arena.get? node with
  | none =>
    simp only [Arena.inner, Binder.node, hg]
    exact .leaf _ fun _ => .refl
  | some n =>
    obtain ⟨shape, span, missing⟩ := n
    cases missing with
    | true =>
      simp only [Arena.inner, Binder.node, hg]
      exact .leaf _ fun _ => .refl
    | false =>
      have hs : b.arena.shape? node = some shape := Arena.shape?_of_get? hg
      cases shape with
      | token kind =>
        simp only [Arena.inner, Binder.node, hg]
        cases kind with
        | identifier => exact .leaf _ fun _ => name_deepens rfl
        | _ => exact .leaf _ fun _ => .refl
      | identifier name =>
        simp only [Arena.inner, Binder.node, hg]
        exact .leaf _ fun _ => name_deepens rfl
      | literal value text flags =>
        simp only [Arena.inner, Binder.node, hg]
        exact .leaf _ fun _ => .refl
      | access target nameNode =>
        have hfronts : b.arena.fronts node = [target] := by simp only [Arena.fronts, hs]
        simp only [Arena.inner, Binder.node, hg, ← hfronts]
        exact .access
      | call place =>
        simp only [Arena.inner, Binder.node, hg]
        exact .call place
      | paren inner =>
        simp only [Arena.inner, Binder.node, hg]
        exact .paren inner
      | update receiver entries list =>
        simp only [Arena.inner, Binder.node, hg]
        exact .update hs
      | initializer nameNode value =>
        simp only [Arena.inner, Binder.node, hg]
        exact .leaf _ fun _ => .refl

/-! ### How deep rules go -/

theorem AccessRun.deepens_fronts {invoked : Bool}
    (hn : ∀ {t e s'}, nested t s = (e, s') → Deepens s s' (p t))
    (h : b.AccessRun nested node invoked s e s') :
    Deepens s s' (∃ t ∈ b.arena.fronts node, p t) := by
  rcases b.arena.fronts_cases node with ⟨target, nameNode, hs, hf⟩ | ⟨hno, hf⟩
  · exact (h.deepens hs fun h => hn h).congr (by simp [hf])
  · cases h with
    | other _ => exact Deepens.refl.congr (by simp [hf])
    | nameless hs _ _ => exact absurd hs (hno _ _)
    | named hs _ _ _ => exact absurd hs (hno _ _)

/-- Some initializers bind the values that they write. -/
theorem InitializersRun.deepens_values {inits : List BoundInitializer}
    (hn : ∀ {t s e s'}, nested t s = (e, s') → Deepens s s' (p t))
    (h : b.InitializersRun nested copy nodes s inits s') :
    Deepens s s' (∃ t ∈ nodes.flatMap b.arena.values, p t) := by
  induction h with
  | nil => exact Deepens.refl.congr (by simp)
  | @cons node rest s s₁ s' _ _ hinit _ ih =>
    have hfirst : Deepens s s₁ (∃ t ∈ b.arena.values node, p t) := by
      rcases b.arena.values_cases node with ⟨nameNode, value, hs, hv⟩ | ⟨hno, hv⟩
      · exact (hinit.deepens hs fun h => hn h).congr (by simp [hv])
      · cases hinit with
        | other _ => exact Deepens.refl.congr (by simp [hv])
        | bare hs _ _ => exact absurd hs (hno _ _)
        | named hs _ _ _ _ _ => exact absurd hs (hno _ _)
    refine (hfirst.trans ih).congr ?_
    simp only [List.flatMap_cons, List.mem_append, or_and_right, exists_or]

/-- An update binds its receiver and those values. -/
theorem UpdateRun.deepens_parts {receiver : NodeRef} {entries : List NodeRef} {list : ListSpan}
    (hs : b.arena.shape? node = some (.update receiver entries list))
    (hn : ∀ {t s e s'}, nested t s = (e, s') → Deepens s s' (p t))
    (h : b.UpdateRun nested node s e s') :
    Deepens s s' (∃ t ∈ receiver :: entries.flatMap b.arena.values, p t) := by
  cases h with
  | other hno => exact absurd hs (hno _ _ _)
  | intro hs' hr hc _ hi _ =>
    rw [hs] at hs'
    cases hs'
    have hfront := (hr.deepens fun h => hn h).then hc.deepens
    refine (hfront.trans (hi.deepens_values fun h => hn h)).congr ?_
    simp only [List.mem_cons, or_and_right, exists_or, exists_eq_left]

/-- **A rule goes as deep as the nodes that it binds.** -/
theorem Rule.deepens (h : b.Rule node nodes rule)
    (hn : ∀ {t s e s'}, nested t s = (e, s') → Deepens s s' (p t)) :
    Deepens s (rule nested s).2 (∃ t ∈ nodes, p t) := by
  cases h with
  | leaf m hm => exact (hm s).congr (by simp)
  | access => exact (access_run rfl).deepens_fronts fun h => hn h
  | call place =>
    have hcall : b.CallRun nested node place s _ _ := call_run rfl
    obtain ⟨ha, hi⟩ := hcall
    exact (ha.deepens_fronts fun h => hn h).then hi.deepens
  | paren inner => exact (hn rfl).congr (by simp)
  | update hs => exact (update_run rfl).deepens_parts hs fun h => hn h

/-! ### What rules depend on -/

theorem memberNode_congr (h : ∀ t ∈ b.arena.fronts node, nested t = nested' t) (invoked : Bool) :
    b.memberNode nested node invoked = b.memberNode nested' node invoked := by
  unfold memberNode
  rcases b.arena.fronts_cases node with ⟨target, nameNode, hs, hf⟩ | ⟨hno, -⟩
  · rw [hf, List.forall_mem_singleton] at h
    simp only [hs, h]
  · split
    · next target nameNode hs => exact absurd hs (hno _ _)
    · rfl

theorem initializer_congr (h : ∀ t ∈ b.arena.values node, nested t = nested' t)
    (copy : BoundExpr) : b.initializer nested copy node = b.initializer nested' copy node := by
  unfold initializer
  rcases b.arena.values_cases node with ⟨nameNode, value, hs, hv⟩ | ⟨hno, -⟩
  · rw [hv, List.forall_mem_singleton] at h
    simp only [hs, h]
  · split
    · next nameNode value hs => exact absurd hs (hno _ _)
    · rfl

theorem initializers_congr (h : ∀ t ∈ nodes.flatMap b.arena.values, nested t = nested' t)
    (copy : BoundExpr) : b.initializers nested copy nodes = b.initializers nested' copy nodes := by
  induction nodes with
  | nil => rfl
  | cons node rest ih =>
    rw [List.flatMap_cons, List.forall_mem_append] at h
    rw [initializers, initializers, initializer_congr h.1, ih h.2]

/-- **A rule depends on the nodes that it binds, and on no others.** -/
theorem Rule.congr (h : b.Rule node nodes rule) (hn : ∀ t ∈ nodes, nested t = nested' t) :
    rule nested = rule nested' := by
  cases h with
  | leaf m _ => rfl
  | access => exact memberNode_congr hn false
  | call place =>
    show b.callNode nested node place = b.callNode nested' node place
    rw [callNode, callNode, memberNode_congr hn true]
  | paren inner => exact hn inner (List.mem_singleton_self _)
  | update hs =>
    obtain ⟨hr, hv⟩ := List.forall_mem_cons.1 hn
    show b.update nested node = b.update nested' node
    simp only [Binder.update, hs, Binder.receiver, hr, initializers_congr hv]

end Rules

/-! ## Depth -/

/-- The binder with another limit. -/
def withDepth (b : Binder) (limit : Nat) : Binder :=
  { b with options := { b.options with maxDepth := limit } }

section Depth

variable {b : Binder} {node : NodeRef} {depth limit : Nat} {s : BindState}

/-- **What is nested too deeply is what reaches beyond the depth that is left**, on any arena. -/
theorem deepens_reaches (b : Binder) (depth : Nat) (node : NodeRef) (s : BindState) :
    Deepens s (b.expr depth node s).2 (b.arena.Reaches (depth + 1) node) := by
  induction depth generalizing node s with
  | zero => exact ⟨_, s.entries_tell _ _ _, by simp [Arena.Reaches]⟩
  | succ depth ih =>
    have hn : ∀ {t s e s'}, b.expr depth t s = (e, s') →
        Deepens s s' (b.arena.Reaches (depth + 1) t) := by
      intro t s e s' h
      have ht := ih t s
      rwa [h] at ht
    have hnode : Deepens s (b.node (b.expr depth) node s).2 _ := (b.rule_node node).deepens hn
    exact hnode.congr Arena.reaches_add_two.symm

/-- **Depth that is not reached changes nothing.** -/
theorem expr_of_not_reaches (h : ¬ b.arena.Reaches (depth + 1) node) {more : Nat}
    (hle : depth ≤ more) : b.expr more node = b.expr depth node := by
  induction depth generalizing node more with
  | zero => exact absurd (.inl rfl) h
  | succ depth ih =>
    obtain ⟨more, rfl⟩ := Nat.exists_eq_add_of_le' (Nat.zero_lt_of_lt hle)
    refine (b.rule_node node).congr fun inner hi => ih (fun hr => h ?_) (Nat.le_of_succ_le_succ hle)
    exact Arena.reaches_add_two.2 ⟨inner, hi, hr⟩

theorem initializers_withDepth (b : Binder) (limit : Nat) (nested : NodeRef → BindM BoundExpr)
    (copy : BoundExpr) (nodes : List NodeRef) :
    (b.withDepth limit).initializers nested copy nodes = b.initializers nested copy nodes := by
  induction nodes with
  | nil => rfl
  | cons node rest ih =>
    rw [initializers, initializers, ih]
    rfl

theorem node_withDepth (b : Binder) (limit : Nat) (nested : NodeRef → BindM BoundExpr)
    (node : NodeRef) : (b.withDepth limit).node nested node = b.node nested node := by
  unfold Binder.node Binder.update
  simp only [initializers_withDepth]
  rfl

/-- Another limit changes what is bound, and not how. -/
theorem expr_withDepth (b : Binder) (limit depth : Nat) :
    (b.withDepth limit).expr depth = b.expr depth := by
  induction depth with
  | zero => rfl
  | succ depth ih =>
    funext node
    rw [expr, expr, ih, node_withDepth]

/-- Expressions are nested too deeply where they reach beyond the depth that is left. -/
theorem tooDeep_iff_reaches (b : Binder) (depth : Nat) (node : NodeRef) (s : BindState) :
    TooDeep s (b.expr depth node s).2 ↔ b.arena.Reaches (depth + 1) node :=
  (b.deepens_reaches depth node s).reported_iff

/-- **Nodes that lead back to themselves** are nested too deeply for every limit. -/
theorem tooDeep_of_endless {p : NodeRef → Prop}
    (h : ∀ node, p node → ∃ inner ∈ b.arena.inner node, p inner) (hp : p node) (limit : Nat)
    (s : BindState) : TooDeep s ((b.withDepth limit).bind node s).2 := by
  show TooDeep s ((b.withDepth limit).expr limit node s).2
  rw [expr_withDepth, tooDeep_iff_reaches]
  exact Arena.reaches_of_endless h hp (limit + 1)

/-- **The levels of a tree that was read** are those that its expressions reach. -/
theorem isGreatest_frames {a : Arena} {tree : SyntaxTree} (hw : tree.IsWhole)
    (hh : a.Holds tree node) : IsGreatest {n | a.Reaches n node} tree.frames := by
  -- Any binder tells how deep a tree reaches.
  have hreaches : ∀ n, a.Reaches (n + 1) node ↔ n < tree.frames := fun n =>
    (tooDeep_iff_reaches ⟨a, {}, {}, {}⟩ n node default).symm.trans
      (deepens_expr (b := ⟨a, {}, {}, {}⟩) hw hh Prod.mk.eta.symm).reported_iff
  obtain ⟨n, hn⟩ := Nat.exists_eq_succ_of_ne_zero tree.frames_pos.ne'
  refine ⟨?_, fun m hm => ?_⟩
  · rw [hn]
    exact (hreaches n).2 (by omega)
  · cases m with
    | zero => exact Nat.zero_le _
    | succ m => exact (hreaches m).1 hm

/-- The same of what was read. -/
theorem isGreatest_parsed {p : Parsed} (hw : p.tree.IsWhole) :
    IsGreatest {n | p.arena.Reaches n (some p.root)} p.tree.frames :=
  isGreatest_frames hw p.holds_root

theorem arena_chainBinder (text : String) : (chainBinder text).arena = (parse text).arena := by
  simp only [chainBinder]

/-! ## The guard -/

/-- In a context an expression under a limit is one down to what is left of that limit. -/
theorem ends_withDepth (b : Binder) (limit : Nat) (node : NodeRef) (c : BindContext) :
    let r := b.expr (limit - c.depth) node c.state
    (b.withDepth limit).Ends node c r.1 (c.after r.2 r.1.asksClone) := by
  have hends := (b.withDepth limit).ends_expr node c
  rwa [expr_withDepth] at hends

/-- **Binding ends and restores its context, and its limit is exact.** From any context, on any
arena, it ends; the count of expressions and the mark of initializers are as before, and diagnostics
are only added. If the expressions in a node reach a deepest level, then every limit that they do
not pass gives the same expression and the same context, and does not report that anything is nested
too deeply, and every smaller one reports it. -/
theorem depth_guard (b : Binder) (node : NodeRef) (c : BindContext) :
    (∃ e c', b.Ends node c e c' ∧ c'.depth = c.depth ∧ c'.inInitializer = c.inInitializer ∧
      Adds (fun _ => True) c.state c'.state) ∧
    ∀ d, IsGreatest {n | b.arena.Reaches n node} d →
      (∃ e c', ¬ TooDeep c.state c'.state ∧
        ∀ limit ≥ c.depth + d, (b.withDepth limit).Ends node c e c') ∧
      ∀ limit < c.depth + d, ∃ e c', (b.withDepth limit).Ends node c e c' ∧
        TooDeep c.state c'.state := by
  refine ⟨⟨_, _, b.ends_expr node c, rfl, rfl, (accounts_expr rfl).adds⟩, fun d hd => ⟨?_, ?_⟩⟩
  · have hdeepest : ¬ b.arena.Reaches (d + 1) node := fun h => Nat.not_succ_le_self d (hd.2 h)
    have hreaches := b.tooDeep_iff_reaches d node c.state
    rcases hr : b.expr d node c.state with ⟨e, s⟩
    rw [hr] at hreaches
    refine ⟨e, c.after s e.asksClone, mt hreaches.1 hdeepest, fun limit hlimit => ?_⟩
    have hends := b.ends_withDepth limit node c
    rwa [expr_of_not_reaches hdeepest (by omega : d ≤ limit - c.depth), hr] at hends
  · intro limit hlimit
    have hpos : 1 ≤ d := hd.2 (show b.arena.Reaches 1 node from .inl rfl)
    refine ⟨_, _, b.ends_withDepth limit node c, ?_⟩
    exact (b.tooDeep_iff_reaches _ node c.state).2 (hd.1.of_le (by omega))

/-- A text with a value in parentheses. -/
def nestedText : String :=
  "a with \x7b b = (a) \x7d"

/-- The context of a new binder. -/
def chainContext : BindContext :=
  { names := .empty, state := chainState }

/-- The value is three levels deep, for the update, the parentheses and what is in them. -/
theorem depth_guard_of_update :
    IsGreatest {n | (chainBinder nestedText).arena.Reaches n (some 5)} 3 ∧
      (∃ e c', ¬ TooDeep chainState c'.state ∧
        ∀ limit ≥ 3, ((chainBinder nestedText).withDepth limit).Ends (some 5) chainContext e c') ∧
      ∀ limit < 3, ∃ e c',
        ((chainBinder nestedText).withDepth limit).Ends (some 5) chainContext e c' ∧
          TooDeep chainState c'.state := by
  have hp : (parse nestedText).problems = [] := by decide +kernel
  have hframes : (parse nestedText).tree.frames = 3 := by decide +kernel
  have hroot : (parse nestedText).root = 5 := by decide +kernel
  have hd := isGreatest_parsed (isWhole_parse hp)
  rw [hframes, hroot, ← arena_chainBinder] at hd
  exact ⟨hd, by simpa [chainContext] using (depth_guard _ _ chainContext).2 3 hd⟩

end Depth

end Binder

end UpdateExpr
