import Mathlib.Order.Basic
import UpdateExpr.Proofs.Syntax.Whole

/-!
# Whole trees in an arena

The nodes of a whole tree are laid out one after another, and none of them stands for something that
a text lacks. This is seen from the arena alone: whoever reads nodes by number, from the root down,
never meets a missing name, a literal without a value, or a node that is out of place.

## Main definitions

* `a ≤ a'`: all nodes of an arena are found in another, under the same numbers
* `Arena.Whole`: a node of an arena is whole, with all that it refers to

## Main results

* `SyntaxTree.le_layOut`: laying out a tree leaves the nodes that were there
* `SyntaxTree.IsWhole.whole_layOut`: a whole tree is laid out as a whole node
-/

namespace UpdateExpr

namespace Arena

/-- All nodes of an arena are found in another, under the same numbers. -/
instance : Preorder Arena where
  le a a' := ∀ r n, a.get? r = some n → a'.get? r = some n
  le_refl _ _ _ h := h
  le_trans _ _ _ h h' r n hn := h' r n (h r n hn)

/-- A node of an arena is whole, with all that it refers to. -/
inductive Whole (a : Arena) : NodeRef → Prop
  | identifier {r : NodeRef} {name : String} {span : Span}
    (h : a.get? r = some ⟨.identifier name, span, false⟩) : Whole a r
  | literal {r : NodeRef} {value : LiteralValue} {text : String} {flags : TokenFlags} {span : Span}
    (h : a.get? r = some ⟨.literal value text flags, span, false⟩) (hv : value ≠ .invalid) :
    Whole a r
  | keyword {r : NodeRef} {kind : TokenKind} {span : Span}
    (h : a.get? r = some ⟨.token kind, span, false⟩) (hk : kind.isValue = true) : Whole a r
  | access {r target member : NodeRef} {span : Span}
    (h : a.get? r = some ⟨.access target member, span, false⟩) (ht : Whole a target)
    (hm : a.name member ≠ "") : Whole a r
  | call {r target operand member : NodeRef} {span : Span}
    (h : a.get? r = some ⟨.call target, span, false⟩)
    (ha : a.shape? target = some (.access operand member)) (ht : Whole a target) : Whole a r
  | paren {r inner : NodeRef} {span : Span} (h : a.get? r = some ⟨.paren inner, span, false⟩)
    (hi : Whole a inner) : Whole a r
  | update {r receiver : NodeRef} {entries : List NodeRef} {list : ListSpan} {span : Span}
    (h : a.get? r = some ⟨.update receiver entries list, span, false⟩) (hr : Whole a receiver)
    (he : ∀ e ∈ entries, ∃ name value, a.shape? e = some (.initializer name value))
    (hv : ∀ e ∈ entries, ∀ name value, a.shape? e = some (.initializer name value) →
      Whole a value) : Whole a r

variable {a a' : Arena} {r : NodeRef}

theorem get?_of_le (h : a ≤ a') {n : Node} (hn : a.get? r = some n) : a'.get? r = some n :=
  h r n hn

theorem shape?_of_le (h : a ≤ a') {shape : NodeShape} (hs : a.shape? r = some shape) :
    a'.shape? r = some shape := by
  obtain ⟨n, hn, rfl⟩ := Option.map_eq_some_iff.1 hs
  rw [Arena.shape?, get?_of_le h hn, Option.map_some]

theorem name_ne_empty_of_le (h : a ≤ a') (hn : a.name r ≠ "") : a'.name r ≠ "" := by
  unfold Arena.name at hn ⊢
  split at hn
  · next name hs =>
    rw [shape?_of_le h hs]
    exact hn
  · exact absurd rfl hn

/-- What is whole stays so when nodes are added. -/
theorem Whole.mono (hw : a.Whole r) (h : a ≤ a') : a'.Whole r := by
  induction hw with
  | identifier hn => exact .identifier (get?_of_le h hn)
  | literal hn hv => exact .literal (get?_of_le h hn) hv
  | keyword hn hk => exact .keyword (get?_of_le h hn) hk
  | access hn _ hm ih => exact .access (get?_of_le h hn) ih (name_ne_empty_of_le h hm)
  | call hn ha _ ih => exact .call (get?_of_le h hn) (shape?_of_le h ha) ih
  | paren hn _ ih => exact .paren (get?_of_le h hn) ih
  | update hn _ he _ ihr ihv =>
    refine .update (get?_of_le h hn) ihr (fun e hem => ?_) fun e hem name value hs => ?_
    · obtain ⟨name, value, hs⟩ := he e hem
      exact ⟨name, value, shape?_of_le h hs⟩
    · obtain ⟨name', value', hs'⟩ := he e hem
      have hsame := (shape?_of_le h hs').symm.trans hs
      cases hsame
      exact ihv e hem name value hs'

/-! ### Reading a whole node -/

theorem shape?_of_get? {n : Node} (h : a.get? r = some n) : a.shape? r = some n.shape := by
  rw [Arena.shape?, h, Option.map_some]

/-- A whole node is there, and it is not out of place. -/
theorem Whole.exists_get? (hw : a.Whole r) : ∃ n, a.get? r = some n ∧ n.missing = false ∧
    (∀ name value, n.shape ≠ .initializer name value) ∧
    ∀ kind, n.shape = .token kind → kind.isValue = true := by
  cases hw with
  | keyword h hk =>
    refine ⟨_, h, rfl, nofun, ?_⟩
    rintro kind ⟨⟩
    exact hk
  | identifier h | literal h _ | access h _ _ | call h _ _ | paren h _ | update h _ _ _ =>
    exact ⟨_, h, rfl, nofun, nofun⟩

theorem Whole.literal_value (hw : a.Whole r) {value : LiteralValue} {text : String}
    {flags : TokenFlags} (hs : a.shape? r = some (.literal value text flags)) :
    value ≠ .invalid := by
  cases hw with
  | literal h hv =>
    rw [shape?_of_get? h] at hs
    cases hs
    exact hv
  | identifier h | keyword h _ | access h _ _ | call h _ _ | paren h _ | update h _ _ _ =>
    rw [shape?_of_get? h] at hs
    cases hs

theorem Whole.access_parts (hw : a.Whole r) {target member : NodeRef}
    (hs : a.shape? r = some (.access target member)) : a.Whole target ∧ a.name member ≠ "" := by
  cases hw with
  | access h ht hm =>
    rw [shape?_of_get? h] at hs
    cases hs
    exact ⟨ht, hm⟩
  | identifier h | keyword h _ | literal h _ | call h _ _ | paren h _ | update h _ _ _ =>
    rw [shape?_of_get? h] at hs
    cases hs

theorem Whole.call_target (hw : a.Whole r) {target : NodeRef}
    (hs : a.shape? r = some (.call target)) :
    a.Whole target ∧ ∃ operand member, a.shape? target = some (.access operand member) := by
  cases hw with
  | call h ha ht =>
    rw [shape?_of_get? h] at hs
    cases hs
    exact ⟨ht, _, _, ha⟩
  | identifier h | keyword h _ | literal h _ | access h _ _ | paren h _ | update h _ _ _ =>
    rw [shape?_of_get? h] at hs
    cases hs

theorem Whole.paren_inner (hw : a.Whole r) {inner : NodeRef}
    (hs : a.shape? r = some (.paren inner)) : a.Whole inner := by
  cases hw with
  | paren h hi =>
    rw [shape?_of_get? h] at hs
    cases hs
    exact hi
  | identifier h | keyword h _ | literal h _ | access h _ _ | call h _ _ | update h _ _ _ =>
    rw [shape?_of_get? h] at hs
    cases hs

theorem Whole.update_parts (hw : a.Whole r) {receiver : NodeRef} {entries : List NodeRef}
    {list : ListSpan} (hs : a.shape? r = some (.update receiver entries list)) :
    a.Whole receiver ∧ ∀ e ∈ entries, ∃ name value,
      a.shape? e = some (.initializer name value) ∧ a.Whole value := by
  cases hw with
  | update h hr he hv =>
    rw [shape?_of_get? h] at hs
    cases hs
    refine ⟨hr, fun e hem => ?_⟩
    obtain ⟨name, value, hse⟩ := he e hem
    exact ⟨name, value, hse, hv e hem name value hse⟩
  | identifier h | keyword h _ | literal h _ | access h _ _ | call h _ _ | paren h _ =>
    rw [shape?_of_get? h] at hs
    cases hs

/-! ### Adding nodes -/

theorem le_push (a : Arena) (n : Node) : a ≤ a.push n := by
  intro r node hn
  cases r with
  | none => cases hn
  | some i =>
    have hi : i < a.size := by
      obtain ⟨hi, -⟩ := Array.getElem?_eq_some_iff.1 hn
      exact hi
    rw [get?_push_of_lt hi, hn]

theorem le_addName (id : Option Identifier) (a : Arena) : a ≤ (a.addName id).2 := by
  cases id with
  | none => exact le_refl a
  | some id => exact le_push a id.node

end Arena

namespace SyntaxTree

mutual

/-- **Laying out a tree leaves the nodes that were there.** -/
theorem le_layOut : ∀ (t : SyntaxTree) (a : Arena), a ≤ (t.layOut a).2
  | identifier _, a | literal _ _ _ _, a | keyword _ _, a => Arena.le_push a _
  | access target _ _, a =>
    ((le_layOut target a).trans (Arena.le_push _ _)).trans (Arena.le_push _ _)
  | call target _, a | paren target _, a => (le_layOut target a).trans (Arena.le_push _ _)
  | update receiver entries _ _, a =>
    ((le_layOut receiver a).trans (le_layOutEntries entries _)).trans (Arena.le_push _ _)

theorem le_layOutEntries : ∀ (entries : List (Initializer SyntaxTree)) (a : Arena),
    a ≤ (layOutEntries entries a).2
  | [], a => le_refl a
  | ⟨name, value, _⟩ :: entries, a =>
    (((Arena.le_addName name a).trans (le_layOut value _)).trans (Arena.le_push _ _)).trans
      (le_layOutEntries entries _)

end

/-- The nodes of some initializers whose values are laid out whole. -/
theorem whole_layOutEntries {entries : List (Initializer SyntaxTree)}
    (h : ∀ entry ∈ entries, ∀ a : Arena,
      (entry.value.layOut a).2.Whole (some (entry.value.layOut a).1)) (a : Arena) :
    ∀ e ∈ (layOutEntries entries a).1, ∃ name value,
      (layOutEntries entries a).2.shape? e = some (.initializer name value) ∧
        (layOutEntries entries a).2.Whole value := by
  induction entries generalizing a with
  | nil => exact nofun
  | cons entry entries ih =>
    obtain ⟨name, value, span⟩ := entry
    rw [List.forall_mem_cons] at h
    intro e he
    rcases List.mem_cons.1 he with rfl | he
    · have hrest := le_layOutEntries entries
        ((value.layOut (a.addName name).2).2.push
          ⟨.initializer (a.addName name).1 (some (value.layOut (a.addName name).2).1), span, false⟩)
      refine ⟨(a.addName name).1, some (value.layOut (a.addName name).2).1, ?_, ?_⟩
      · refine Arena.shape?_of_le hrest ?_
        exact congrArg (Option.map Node.shape) (Arena.get?_push_size _ _)
      · exact (h.1 (a.addName name).2).mono ((Arena.le_push _ _).trans hrest)
    · exact ih h.2 _ e he

/-- **A whole tree is laid out as a whole node.** -/
theorem IsWhole.whole_layOut {t : SyntaxTree} (h : t.IsWhole) (a : Arena) :
    (t.layOut a).2.Whole (some (t.layOut a).1) := by
  induction h generalizing a with
  | @identifier id hid =>
    have hn : (a.push id.node).get? (some a.size) = some ⟨.identifier id.name, id.span, false⟩ := by
      rw [Arena.get?_push_size, Identifier.node, hid.missing]
    exact .identifier hn
  | literal hv => exact .literal (Arena.get?_push_size a _) hv
  | keyword hk => exact .keyword (Arena.get?_push_size a _) hk
  | @access target member span _ hm ih =>
    have hname : ((target.layOut a).2.push member.node).name
        (some (target.layOut a).2.size) ≠ "" := by
      rw [Arena.name, Arena.shape?, Arena.get?_push_size]
      exact hm.name
    have htarget := (ih a).mono (Arena.le_push _ member.node)
    exact .access (Arena.get?_push_size _ _) (htarget.mono (Arena.le_push _ _))
      (Arena.name_ne_empty_of_le (Arena.le_push _ _) hname)
  | @call target member inner span _ ih =>
    have hshape := congrArg (Option.map Node.shape)
      (Arena.get?_push_size ((target.layOut a).2.push member.node)
        ⟨.access (some (target.layOut a).1) (some (target.layOut a).2.size), inner, false⟩)
    exact .call (Arena.get?_push_size _ _) (Arena.shape?_of_le (Arena.le_push _ _) hshape)
      ((ih a).mono (Arena.le_push _ _))
  | paren _ ih => exact .paren (Arena.get?_push_size _ _) ((ih a).mono (Arena.le_push _ _))
  | @update receiver entries list span _ _ _ ihr ihv =>
    have hentries := whole_layOutEntries ihv (receiver.layOut a).2
    have hpush := Arena.le_push (layOutEntries entries (receiver.layOut a).2).2
      ⟨.update (some (receiver.layOut a).1) (layOutEntries entries (receiver.layOut a).2).1 list,
        span, false⟩
    refine .update (Arena.get?_push_size _ _)
      ((ihr a).mono ((le_layOutEntries entries _).trans hpush)) (fun e he => ?_) ?_
    · obtain ⟨name, value, hs, -⟩ := hentries e he
      exact ⟨name, value, Arena.shape?_of_le hpush hs⟩
    · intro e he name value hs
      obtain ⟨name', value', hs', hw⟩ := hentries e he
      have hsame := (Arena.shape?_of_le hpush hs').symm.trans hs
      cases hsame
      exact hw.mono hpush

end SyntaxTree

end UpdateExpr
