import UpdateExpr.Bound.Expr

/-!
# Parts of bound expressions

A bound expression is a tree. Its parts are the expression itself and the parts of its children.

## Main definitions

* `BoundExpr.PartOf`: an expression is a part of another

## Main results

* `BoundExpr.forall_partOf`: what holds of all parts holds of the whole and of all parts of children
-/

namespace UpdateExpr

namespace BoundExpr

/-- An expression is a part of another. -/
inductive PartOf (c : BoundExpr) : BoundExpr → Prop
  | refl : PartOf c c
  | child {d e : BoundExpr} (h : PartOf c d) (hd : d ∈ e.children) : PartOf c e

variable {c d e : BoundExpr} {i : BoundInfo}

theorem PartOf.trans (h : c.PartOf d) (hd : d.PartOf e) : c.PartOf e := by
  induction hd with
  | refl => exact h
  | child _ hm ih => exact .child ih hm

theorem partOf_iff : c.PartOf e ↔ c = e ∨ ∃ d ∈ e.children, c.PartOf d := by
  constructor
  · rintro (_ | ⟨h, hd⟩)
    · exact .inl rfl
    · exact .inr ⟨_, hd, h⟩
  · rintro (rfl | ⟨d, hd, h⟩)
    · exact .refl
    · exact .child h hd

/-- **What holds of all parts holds of the whole and of all parts of its children.** -/
theorem forall_partOf {p : BoundExpr → Prop} :
    (∀ c : BoundExpr, c.PartOf e → p c) ↔
      p e ∧ ∀ d ∈ e.children, ∀ c : BoundExpr, c.PartOf d → p c := by
  simp only [partOf_iff (e := e)]
  constructor
  · intro h
    exact ⟨h e (.inl rfl), fun d hd c hc => h c (.inr ⟨d, hd, hc⟩)⟩
  · rintro ⟨he, hd⟩ c (rfl | ⟨d, hm, hc⟩)
    · exact he
    · exact hd d hm c hc

@[simp] theorem addErrors_false (e : BoundExpr) : e.addErrors false = e := by
  cases e <;> simp [addErrors, setInfo, info, hasErrors]

end BoundExpr

end UpdateExpr
