import UpdateExpr.Proofs.Bound.UseRun
import UpdateExpr.Syntax.Parser

/-!
# Targets of assignments

The check of a target looks at fields, properties and groups of methods, and objects to some of
them. All other kinds of expressions pass, and so do a group without methods and a property that the
symbols do not know as one. So what passes is a target, or was overlooked: then it comes back as it
is and nothing is reported. Whatever does not pass is reported once and comes back as a bad
expression.

## Main definitions

* `Binder.IsTarget`: what can be assigned to
* `Binder.Overlooked`: what the check does not look at
* `Binder.Objects`: what the check has against an expression

## Main results

* `Binder.IsTarget.isSettable`: a target can be set where it is assigned to
* `Binder.objection?_eq_some_iff`, `Binder.objection?_eq_none_iff`: the check as a judgement
* `Binder.assignable_without_errors_iff`: what passes, and what happens to the rest
-/

namespace UpdateExpr

/-- The setter of a field does not depend on where it is asked for. -/
theorem Member.isSettable_of_isField {m : Member} (h : m.isField = true) (inInitializer : Bool) :
    m.isSettable inInitializer = m.isSettable false := by
  unfold isField at h
  unfold isSettable
  split <;> simp_all

namespace Binder

/-- Local variables can be assigned to, and fields and properties that can be set. Whether a field
can be set is asked as outside of initializers, which is all the same for it
(`Member.isSettable_of_isField`). -/
inductive IsTarget (b : Binder) (inInitializer : Bool) : BoundExpr → Prop
  | localVar (info : BoundInfo) (id : LocalId) : IsTarget b inInitializer (.localVar info id)
  | field {info receiver m member} (hm : b.symbols.member? m = some member)
    (hs : member.isSettable false = true) : IsTarget b inInitializer (.field info receiver m)
  | property {info receiver m member} (hm : b.symbols.member? m = some member)
    (hs : member.isSettable inInitializer = true) :
    IsTarget b inInitializer (.property info receiver m)

/-- What the check passes over, whether or not it can be assigned to. -/
inductive Overlooked (b : Binder) : BoundExpr → Prop
  | literal (info : BoundInfo) (value : Constant) : Overlooked b (.literal info value)
  | call (info : BoundInfo) (receiver : BoundExpr) (m : MemberId) :
    Overlooked b (.call info receiver m)
  | conversion (info : BoundInfo) (operand : BoundExpr) (kind : Conversion) :
    Overlooked b (.conversion info operand kind)
  | placeholder (info : BoundInfo) : Overlooked b (.placeholder info)
  | assignment (info : BoundInfo) (left right : BoundExpr) :
    Overlooked b (.assignment info left right)
  | update (info : BoundInfo) (receiver : BoundExpr) (clone? : Option MemberId)
    (entries : List (Option MemberId × BoundExpr)) (failed : Bool) :
    Overlooked b (.update info receiver clone? entries failed)
  | bad (info : BoundInfo) (candidates : List MemberId) (children : List BoundExpr) :
    Overlooked b (.bad info candidates children)
  | noMethods (info : BoundInfo) (receiver : BoundExpr) :
    Overlooked b (.methodGroup info receiver [])
  /-- A property that is not known as one. -/
  | stray {info receiver m}
    (h : ∀ member ty setter, b.symbols.member? m = some member →
      member.shape ≠ .property ty setter) : Overlooked b (.property info receiver m)

/-- What the check has against an expression, and the member that stands in the way. -/
inductive Objects (b : Binder) (inInitializer : Bool) : BoundExpr → Issue → MemberId → Prop
  | field {info receiver m}
    (h : ∀ member, b.symbols.member? m = some member → member.isSettable false = false) :
    Objects b inInitializer (.field info receiver m) .fieldReadOnly m
  | readOnly {info receiver m member ty} (hm : b.symbols.member? m = some member)
    (hs : member.shape = .property ty .absent) :
    Objects b inInitializer (.property info receiver m) .propertyReadOnly m
  | initOnly {info receiver m member ty} (hm : b.symbols.member? m = some member)
    (hs : member.shape = .property ty .initOnly) (hi : inInitializer = false) :
    Objects b inInitializer (.property info receiver m) .initOnlyProperty m
  | group {info receiver c methods} :
    Objects b inInitializer (.methodGroup info receiver (c :: methods)) .methodGroupAssigned
      c.member

variable {b : Binder} {inInitializer : Bool} {e : BoundExpr} {issue : Issue} {m : MemberId}

/-- A field or property that is a target has a member that can be set where it is assigned to. -/
theorem IsTarget.isSettable (h : b.IsTarget inInitializer e) :
    (∃ info id, e = .localVar info id) ∨
      ∃ m member, e.symbol? = some m ∧ b.symbols.member? m = some member ∧
        member.isSettable inInitializer = true := by
  cases h with
  | localVar info id => exact .inl ⟨info, id, rfl⟩
  | property hm hs => exact .inr ⟨_, _, rfl, hm, hs⟩
  | field hm hs =>
    refine .inr ⟨_, _, rfl, hm, ?_⟩
    cases inInitializer with
    | false => exact hs
    | true => exact Member.isSettable_mono hs

/-! ## What the check objects to -/

theorem setterObjection?_eq_none_iff {ty : TypeId} {setter : Setter} :
    setterObjection? inInitializer (.property ty setter) = none ↔
      setter = .always ∨ setter = .initOnly ∧ inInitializer = true := by
  cases setter <;> simp [setterObjection?]

/-- The check objects to an expression exactly for these reasons. -/
theorem objection?_eq_some_iff :
    b.objection? inInitializer e = some (issue, m) ↔ b.Objects inInitializer e issue m := by
  constructor
  · intro h
    cases e with
    | field info receiver n =>
      by_cases hs : (b.symbols.member? n).any (·.isSettable false) = true
      · simp [objection?, hs] at h
      · rw [objection?, if_neg hs] at h
        cases h
        refine .field fun member hm => ?_
        simpa [hm] using hs
    | property info receiver n =>
      obtain ⟨i, hi, hp⟩ := Option.map_eq_some_iff.1 h
      obtain ⟨member, hm, hs⟩ := Option.bind_eq_some_iff.1 hi
      cases hp
      unfold setterObjection? at hs
      split at hs
      · next ty hshape =>
        cases hs
        exact .readOnly hm hshape
      · next ty hshape =>
        cases hini : inInitializer with
        | true => simp [hini] at hs
        | false =>
          rw [hini, if_neg Bool.false_ne_true] at hs
          cases hs
          exact .initOnly hm hshape rfl
      all_goals cases hs
    | methodGroup info receiver methods =>
      cases methods with
      | nil => cases h
      | cons c methods =>
        cases h
        exact .group
    | _ => cases h
  · intro h
    cases h with
    | @field info receiver _ h =>
      have hs : ¬ (b.symbols.member? m).any (·.isSettable false) = true := by
        cases hm : b.symbols.member? m with
        | none => simp
        | some member => simp [h member hm]
      rw [objection?, if_neg hs]
    | readOnly hm hs => simp [objection?, hm, hs, setterObjection?]
    | initOnly hm hs hi => simp [objection?, hm, hs, hi, setterObjection?]
    | group => rfl

/-- The check has nothing against a target, nor against what it overlooks, and against all else it
has something. -/
theorem objection?_eq_none_iff :
    b.objection? inInitializer e = none ↔ b.IsTarget inInitializer e ∨ b.Overlooked e := by
  constructor
  · intro h
    cases e with
    | localVar info id => exact .inl (.localVar info id)
    | field info receiver n =>
      by_cases hs : (b.symbols.member? n).any (·.isSettable false) = true
      · obtain ⟨member, hm, hs⟩ := (Option.any_eq_true _ _).1 hs
        exact .inl (.field hm hs)
      · rw [objection?, if_neg hs] at h
        cases h
    | property info receiver n =>
      have hn := Option.map_eq_none_iff.1 h
      cases hm : b.symbols.member? n with
      | none => exact .inr (.stray fun member _ _ hk => by simp [hm] at hk)
      | some member =>
        rw [hm, Option.bind_some] at hn
        cases hs : member.shape with
        | property ty setter =>
          rw [hs, setterObjection?_eq_none_iff] at hn
          refine .inl (.property hm ?_)
          rcases hn with rfl | ⟨rfl, rfl⟩ <;> simp [Member.isSettable, hs]
        | field _ _ => exact .inr (.stray fun _ _ _ hk => by cases hm.symm.trans hk; simp [hs])
        | method _ _ _ => exact .inr (.stray fun _ _ _ hk => by cases hm.symm.trans hk; simp [hs])
    | methodGroup info receiver methods =>
      cases methods with
      | nil => exact .inr (.noMethods info receiver)
      | cons c methods => cases h
    | literal info value => exact .inr (.literal info value)
    | call info receiver n => exact .inr (.call info receiver n)
    | conversion info operand kind => exact .inr (.conversion info operand kind)
    | placeholder info => exact .inr (.placeholder info)
    | assignment info left right => exact .inr (.assignment info left right)
    | update info receiver clone? entries failed =>
      exact .inr (.update info receiver clone? entries failed)
    | bad info candidates children => exact .inr (.bad info candidates children)
  · intro h
    refine Option.eq_none_iff_forall_ne_some.2 fun ⟨issue, m⟩ ho => ?_
    have ho := objection?_eq_some_iff.1 ho
    rcases h with ht | hk
    · cases ho with
      | field hn =>
        cases ht with
        | field hm hs => simp [hn _ hm] at hs
      | readOnly hm hs =>
        cases ht with
        | property hm' ht =>
          cases hm.symm.trans hm'
          simp [Member.isSettable, hs] at ht
      | initOnly hm hs hi =>
        cases ht with
        | property hm' ht =>
          cases hm.symm.trans hm'
          simp [Member.isSettable, hs, hi] at ht
      | group => cases ht
    · cases ho with
      | field _ => cases hk
      | readOnly hm hs => cases hk with | stray h => exact h _ _ _ hm hs
      | initOnly hm hs _ => cases hk with | stray h => exact h _ _ _ hm hs
      | group => cases hk

/-! ## What becomes of an expression -/

/-- **Only targets pass, and what is overlooked.** Of an expression without errors nothing is said
where it is a target or of a kind that the check does not look at. Any other is reported by exactly
one diagnostic, about the member that stands in the way, and comes back as a bad expression. -/
theorem assignable_without_errors_iff (he : e.hasErrors = false) (s : BindState) :
    ((b.assignable inInitializer e s).1.hasErrors = false ↔
      b.IsTarget inInitializer e ∨ b.Overlooked e) ∧
    (b.IsTarget inInitializer e ∨ b.Overlooked e → b.assignable inInitializer e s = (e, s)) ∧
    (¬ (b.IsTarget inInitializer e ∨ b.Overlooked e) → ∃ issue m,
      b.Objects inInitializer e issue m ∧
      b.assignable inInitializer e s =
        (.failure e.node [m] [e],
          s.tell issue.code (b.arena.span e.node) [b.symbols.displayMember s.types m])) := by
  rw [← objection?_eq_none_iff]
  have passed (ho : b.objection? inInitializer e = none) :
      b.assignable inInitializer e s = (e, s) := by
    rw [assignable, he, if_neg Bool.false_ne_true, ho]
    rfl
  have refused (ho : b.objection? inInitializer e ≠ none) : ∃ issue m,
      b.Objects inInitializer e issue m ∧
      b.assignable inInitializer e s =
        (.failure e.node [m] [e],
          s.tell issue.code (b.arena.span e.node) [b.symbols.displayMember s.types m]) := by
    obtain ⟨⟨issue, m⟩, ho⟩ := Option.ne_none_iff_exists'.1 ho
    refine ⟨issue, m, objection?_eq_some_iff.1 ho, ?_⟩
    rw [assignable, he, if_neg Bool.false_ne_true, ho]
    rfl
  refine ⟨⟨fun hr => ?_, fun ho => ?_⟩, passed, refused⟩
  · by_contra ho
    obtain ⟨issue, m, -, hr'⟩ := refused ho
    rw [hr'] at hr
    cases hr
  · rw [passed ho]
    exact he

/-- A binder for a text without names. -/
def closedBinder (text : String) : Binder where
  arena := (parse text).arena
  symbols := {}

/-- The number in `1` is such an expression. -/
theorem assignable_without_errors_of_literal :
    ((closedBinder "1").bind (some (parse "1").root) default).1.hasErrors = false ∧
      ((closedBinder "1").assignable false
        ((closedBinder "1").bind (some (parse "1").root) default).1 default).1.hasErrors =
          false := by
  have he : ((closedBinder "1").bind (some (parse "1").root) default).1.hasErrors = false := by
    decide +kernel
  have hl : ∃ info value, ((closedBinder "1").bind (some (parse "1").root) default).1 =
      .literal info value := ⟨_, _, rfl⟩
  refine ⟨he, (assignable_without_errors_iff he default).1.2 (.inr ?_)⟩
  obtain ⟨info, value, hl⟩ := hl
  exact hl ▸ .literal info value

/-- The literal `1` passes as the target of an assignment: without errors, and without a word. -/
theorem literal_passes_as_target :
    ¬ (((closedBinder "1").value .target (some (parse "1").root) default).1.hasErrors = false →
        (closedBinder "1").IsTarget false
          ((closedBinder "1").bind (some (parse "1").root) default).1) ∧
      ((closedBinder "1").value .target (some (parse "1").root) default).2.bag.entries = [] := by
  have hl : ∃ info value, ((closedBinder "1").bind (some (parse "1").root) default).1 =
      .literal info value := ⟨_, _, rfl⟩
  refine ⟨fun h => ?_, by decide +kernel⟩
  obtain ⟨info, value, hl⟩ := hl
  have ht := h (by decide +kernel)
  rw [hl] at ht
  cases ht

end Binder

end UpdateExpr
