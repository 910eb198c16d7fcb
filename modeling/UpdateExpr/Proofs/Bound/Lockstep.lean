import UpdateExpr.Proofs.Bound.Echo
import UpdateExpr.Proofs.Bound.UseRun
import UpdateExpr.Proofs.Symbol.Notes

/-!
# Binding the same source twice

Two binders read matching arenas and know the same symbols and names; the first may report that a
clone method is ambiguous, the second does not. They go on in step: they hold the same types, and
whatever the one reports the other reports as well, but for ambiguities. So what is asked of the
symbols has the same answer on both sides, and what is bound on the second side echoes the first.

The first side may have a mark that the second one lacks. Two rules look at marks, and both look at
targets only: a faulty target is not checked again, and takes any value. What a target is marked for
does not depend on the option, and so it is asked here that both sides of a target have one mark.

## Main definitions

* `BindState.InStep`, `Lockstep`: two states in step, and two computations that keep in step
* `Binder.Twins`: two binders for the same source

## Main results

* `Lockstep.bind`: computations that keep in step, one after another
* `Binder.Twins.readable`, `Binder.Twins.assignable`, `Binder.Twins.convert`, `Binder.Twins.fit`:
  uses of a value
* `Binder.Twins.member`, `Binder.Twins.invoke`: a name behind a receiver, and a call
-/

namespace UpdateExpr

/-! ## In step -/

/-- Two states hold the same types and bags that are related. -/
structure BindState.InStep (R : Bag → Bag → Prop) (s s' : BindState) : Prop where
  types : s.types = s'.types
  bag : R s.bag s'.bag

/-- Two computations give related answers from states in step, and leave states in step. -/
def Lockstep (R : Bag → Bag → Prop) {α β : Type} (r : α → β → Prop) (x : BindM α) (x' : BindM β) :
    Prop :=
  ∀ s s' : BindState, s.InStep R s' → r (x s).1 (x' s').1 ∧ (x s).2.InStep R (x' s').2

namespace Lockstep

variable {R : Bag → Bag → Prop} {α β γ δ : Type} {r : α → β → Prop} {q : γ → δ → Prop}
  {x : BindM α} {x' : BindM β} {f : α → BindM γ} {f' : β → BindM δ}

theorem pure {a : α} {a' : β} (h : r a a') : Lockstep R r (pure a) (pure a') :=
  fun _ _ hs => ⟨h, hs⟩

/-- One after another, computations keep in step. -/
theorem bind (h : Lockstep R r x x') (hf : ∀ a a', r a a' → Lockstep R q (f a) (f' a')) :
    Lockstep R q (x >>= f) (x' >>= f') := by
  intro s s' hs
  obtain ⟨ha, hs₁⟩ := h s s' hs
  exact hf _ _ ha _ _ hs₁

/-- Both sides know the same types. -/
theorem types : Lockstep R Eq BindM.types BindM.types :=
  fun _ _ hs => ⟨hs.types, hs⟩

/-- A question about symbols has the same answer and the same notes on both sides, and these are
about bases. -/
theorem ask {question : QueryM α} (h : question.NotesBases) :
    Lockstep R (fun p p' => p' = p ∧ ∀ note ∈ p.2, note.code = Issue.baseTypeUnresolved.code)
      (BindM.ask question) (BindM.ask question) := by
  intro s s' hs
  rw [Binder.ask_apply, Binder.ask_apply, ← hs.types]
  exact ⟨⟨rfl, h { types := s.types } nofun⟩, rfl, hs.bag⟩

end Lockstep

/-- A target that echoes another and has the same mark. -/
structure EchoTarget (m : NodeRef → NodeRef → Prop) (e e' : BoundExpr) : Prop where
  echo : Echo m e e'
  hasErrors : e.hasErrors = e'.hasErrors

/-- Two binders for the same source. The first one may report ambiguities. What both report keeps
their bags related, and what the first one alone reports does so, too. -/
structure Binder.Twins (b b' : Binder) (m : NodeRef → NodeRef → Prop) (R : Bag → Bag → Prop) :
    Prop where
  arena : b.arena.Matches b'.arena m
  symbols : b'.symbols = b.symbols
  scope : b'.scope = b.scope
  quiet : b'.options.reportAmbiguousClone = false
  both : ∀ {bag bag' : Bag} {code : Nat} {node node' : NodeRef} (args : List String), R bag bag' →
    m node node' → code ≠ Issue.ambiguousClone.code →
    R (bag.add code (b.arena.span node) args) (bag'.add code (b'.arena.span node') args)
  alone : ∀ {bag bag' : Bag} (span : Span) (args : List String), R bag bag' →
    R (bag.add Issue.ambiguousClone.code span args) bag'

namespace Binder.Twins

variable {b b' : Binder} {m : NodeRef → NodeRef → Prop} {R : Bag → Bag → Prop}
  {node node' : NodeRef} {e e' : BoundExpr} {ty : TypeId}

/-! ## Reports -/

theorem report (t : b.Twins b' m R) (hn : m node node') (issue : Issue)
    (hi : issue ≠ .ambiguousClone) (args : List String) :
    Lockstep R Eq (b.report node issue args) (b'.report node' issue args) :=
  fun _ _ hs => ⟨rfl, hs.types, t.both args hs.bag hn (mt Issue.code_eq_iff.1 hi)⟩

theorem tellNotes (t : b.Twins b' m R) (hn : m node node') {notes : List UseSite}
    (hb : ∀ note ∈ notes, note.code = Issue.baseTypeUnresolved.code) {s s' : BindState}
    (hs : s.InStep R s') :
    (s.tellNotes (b.arena.span node) notes).InStep R
      (s'.tellNotes (b'.arena.span node') notes) := by
  induction notes generalizing s s' with
  | nil => exact hs
  | cons note notes ih =>
    rw [List.forall_mem_cons] at hb
    have hcode : note.code ≠ Issue.ambiguousClone.code := hb.1 ▸ by decide
    exact ih hb.2 ⟨hs.types, t.both note.args hs.bag hn hcode⟩

theorem reportNotes (t : b.Twins b' m R) (hn : m node node') {notes : List UseSite}
    (hb : ∀ note ∈ notes, note.code = Issue.baseTypeUnresolved.code) :
    Lockstep R Eq (b.reportNotes node notes) (b'.reportNotes node' notes) := by
  intro s s' hs
  rw [reportNotes_apply, reportNotes_apply]
  exact ⟨rfl, t.tellNotes hn hb hs⟩

theorem typeName (t : b.Twins b' m R) (ty? : Option TypeId) :
    Lockstep R Eq (b.typeName ty?) (b'.typeName ty?) := by
  unfold Binder.typeName
  rw [t.symbols]
  refine Lockstep.types.bind ?_
  rintro types _ rfl
  exact .pure rfl

theorem memberName (t : b.Twins b' m R) (id : MemberId) :
    Lockstep R Eq (b.memberName id) (b'.memberName id) := by
  unfold Binder.memberName
  rw [t.symbols]
  refine Lockstep.types.bind ?_
  rintro types _ rfl
  exact .pure rfl

/-- A message that names the first of some members. -/
theorem named (t : b.Twins b' m R) {α β : Type} {r : α → β → Prop} {f : String → BindM α}
    {f' : String → BindM β} (fallback : String) (members : List Candidate)
    (hf : ∀ name, Lockstep R r (f name) (f' name)) :
    Lockstep R r
      (match members with
        | [] => pure fallback >>= f
        | c :: _ => b.memberName c.member >>= f)
      (match members with
        | [] => pure fallback >>= f'
        | c :: _ => b'.memberName c.member >>= f') := by
  cases members with
  | nil => exact hf fallback
  | cons c members =>
    refine (t.memberName c.member).bind ?_
    rintro name _ rfl
    exact hf name

/-! ## Values -/

theorem readable (t : b.Twins b' m R) (he : Echo m e e') :
    Lockstep R (Echo m) (b.readable e) (b'.readable e') := by
  cases he with
  | @methodGroup i i' r r' methods hi hr =>
    have hgroup : Echo m (.methodGroup i r methods) (.methodGroup i' r' methods) :=
      .methodGroup hi hr
    unfold Binder.readable
    dsimp only
    refine t.named "" methods fun name => ?_
    refine (t.report hi.node .methodGroupAsValue nofun [name]).bind fun _ _ _ => ?_
    exact .pure (echo_failure hi.node _ (.cons hgroup .nil))
  | literal hi => exact .pure (.literal hi)
  | localVar hi => exact .pure (.localVar hi)
  | field hi hr => exact .pure (.field hi hr)
  | property hi hr => exact .pure (.property hi hr)
  | call hi hr => exact .pure (.call hi hr)
  | conversion hi ho => exact .pure (.conversion hi ho)
  | placeholder hi => exact .pure (.placeholder hi)
  | assignment hi hl hr => exact .pure (.assignment hi hl hr)
  | update hi hr hl hm he hf => exact .pure (.update hi hr hl hm he hf)
  | bad hi hl he => exact .pure (.bad hi hl he)

theorem objection?_eq (t : b.Twins b' m R) (he : Echo m e e') (inInitializer : Bool) :
    b'.objection? inInitializer e' = b.objection? inInitializer e := by
  cases he with
  | field | property => simp only [objection?, t.symbols]
  | _ => rfl

/-- A target is checked on both sides, or on neither. -/
theorem assignable (t : b.Twins b' m R) (he : EchoTarget m e e') (inInitializer : Bool) :
    Lockstep R (EchoTarget m) (b.assignable inInitializer e) (b'.assignable inInitializer e') := by
  unfold Binder.assignable
  rw [← he.hasErrors, t.objection?_eq he.echo]
  split
  · exact .pure he
  cases ho : b.objection? inInitializer e with
  | none => exact .pure he
  | some objection =>
    obtain ⟨issue, member⟩ := objection
    have hissue : issue ≠ .ambiguousClone := by
      rintro rfl
      exact absurd (objection?_mem ho) (by decide)
    refine (t.memberName member).bind ?_
    rintro name _ rfl
    refine (t.report he.echo.node issue hissue [name]).bind fun _ _ _ => ?_
    exact .pure ⟨echo_failure he.echo.node [member] (.cons he.echo .nil), rfl⟩

theorem conversionOf (t : b.Twins b' m R) (he : Echo m e e') (ty : TypeId) :
    Lockstep R Eq (b.conversionOf e ty) (b'.conversionOf e' ty) := by
  unfold Binder.conversionOf
  rw [← he.isNull_eq, ← he.ty?_eq, t.symbols]
  split
  · refine Lockstep.types.bind ?_
    rintro types _ rfl
    exact .pure rfl
  cases e.ty? with
  | none => exact .pure rfl
  | some source =>
    refine (Lockstep.ask (b.symbols.notesBases_classify source ty)).bind ?_
    rintro ⟨conversion, notes⟩ _ ⟨rfl, hb⟩
    refine (t.reportNotes he.node hb).bind ?_
    rintro faulty _ rfl
    exact .pure rfl

theorem convert (t : b.Twins b' m R) (he : Echo m e e') (ty : TypeId) :
    Lockstep R (Echo m) (b.convert e ty) (b'.convert e' ty) := by
  refine (t.conversionOf he ty).bind ?_
  rintro ⟨conversion, faulty⟩ _ rfl
  dsimp only
  split
  · exact .pure (he.addErrors faulty)
  split
  · refine .pure (.conversion ⟨he.node, rfl, fun hf => ?_⟩ he)
    rw [Bool.or_eq_true] at hf ⊢
    exact hf.imp_left he.hasErrors
  rw [← he.ty?_eq]
  refine (t.typeName e.ty?).bind ?_
  rintro source _ rfl
  refine (t.typeName (some ty)).bind ?_
  rintro target _ rfl
  refine (t.report he.node _ ?_ [source, target]).bind fun _ _ _ => ?_
  · split <;> exact nofun
  · exact .pure (.conversion ⟨he.node, rfl, id⟩ he)

/-- A value is converted on both sides, or on neither. -/
theorem fit (t : b.Twins b' m R) {l l' : BoundExpr} (hl : EchoTarget m l l') (he : Echo m e e') :
    Lockstep R (Echo m) (b.fit l e) (b'.fit l' e') := by
  unfold Binder.fit
  rw [← hl.hasErrors, ← hl.echo.ty?_eq]
  split
  · exact .pure he
  cases l.ty? with
  | none => exact .pure he
  | some ty =>
    dsimp only
    split
    · exact .pure he
    · exact t.convert he ty

/-! ## Members -/

theorem reportLookup (t : b.Twins b' m R) (hn : m node node') (l : Lookup) (ty : TypeId)
    (name : String) :
    Lockstep R Eq (b.reportLookup node l ty name) (b'.reportLookup node' l ty name) := by
  unfold Binder.reportLookup
  refine t.named name l.candidates fun member => ?_
  have hmissing : Lockstep R Eq
      (b.typeName (some ty) >>= fun receiver => b.report node .memberNotFound [receiver, name])
      (b'.typeName (some ty) >>= fun receiver =>
        b'.report node' .memberNotFound [receiver, name]) := by
    refine (t.typeName (some ty)).bind ?_
    rintro receiver _ rfl
    exact t.report hn .memberNotFound nofun _
  cases l.verdict with
  | notInvocable => exact t.report hn .memberNotInvocable nofun _
  | staticMember => exact t.report hn .staticMember nofun _
  | inaccessible => exact t.report hn .memberInaccessible nofun _
  | absent | wrongArity | viable => exact hmissing

theorem access (t : b.Twins b' m R) (hn : m node node') (he : Echo m e e') {faulty faulty' : Bool}
    (hf : faulty' = true → faulty = true) (methods : List Candidate) :
    Echo m (b.access node e faulty methods) (b'.access node' e' faulty' methods) := by
  unfold Binder.access
  rw [t.symbols]
  cases methods with
  | nil => exact .methodGroup ⟨hn, rfl, hf⟩ he
  | cons c methods =>
    dsimp only
    split
    · exact .field ⟨hn, rfl, hf⟩ he
    · exact .methodGroup ⟨hn, rfl, hf⟩ he
    · exact .property ⟨hn, rfl, hf⟩ he
    · exact .property ⟨hn, rfl, hf⟩ he

/-- **A name behind a receiver.** It has the same mark on both sides if the receiver has. -/
theorem member (t : b.Twins b' m R) (hn : m node node') (he : Echo m e e') (name : String)
    (arity : Nat) (invoked : Bool) :
    Lockstep R (fun r r' => Echo m r r' ∧ (e.hasErrors = e'.hasErrors → r.hasErrors = r'.hasErrors))
      (b.member node e name arity invoked) (b'.member node' e' name arity invoked) := by
  have hfail : ∀ candidates,
      Echo m (.failure node candidates [e]) (.failure node' candidates [e']) :=
    fun candidates => echo_failure hn candidates (.cons he .nil)
  unfold Binder.member
  rw [← he.ty?_eq, t.symbols, t.scope]
  cases e.ty? with
  | none =>
    exact (t.report hn .memberNotFound nofun _).bind fun _ _ _ => .pure ⟨hfail [], fun _ => rfl⟩
  | some ty =>
    dsimp only
    split
    · exact .pure ⟨hfail [], fun _ => rfl⟩
    refine (Lockstep.ask (b.symbols.notesBases_lookup ty _)).bind ?_
    rintro ⟨l, notes⟩ _ ⟨rfl, hb⟩
    refine (t.reportNotes hn hb).bind ?_
    rintro faulty _ rfl
    dsimp only
    split
    · refine .pure ⟨t.access hn he (fun hf => ?_) _, fun hsame => ?_⟩
      · rw [Bool.or_eq_true] at hf ⊢
        exact hf.imp_left he.hasErrors
      · rw [hasErrors_access, hasErrors_access, hsame]
    · exact (t.reportLookup hn l ty name).bind fun _ _ _ => .pure ⟨hfail _, fun _ => rfl⟩

/-- **A call.** -/
theorem invoke (t : b.Twins b' m R) (hn : m node node') (he : Echo m e e') (name : String) :
    Lockstep R (Echo m) (b.invoke node e name) (b'.invoke node' e' name) := by
  have other : ∀ {e e' : BoundExpr}, Echo m e e' →
      Lockstep R (Echo m) (pure (.failure node e.symbol?.toList [e]))
        (pure (.failure node' e'.symbol?.toList [e'])) := by
    intro e e' he
    rw [← he.symbol?_eq]
    exact .pure (echo_failure hn _ (.cons he .nil))
  cases he with
  | @methodGroup i i' r r' methods hi hr =>
    unfold Binder.invoke
    dsimp only
    cases methods.find? (·.params.isEmpty) with
    | none =>
      exact (t.report hn .noParameterlessOverload nofun _).bind fun _ _ _ =>
        .pure (echo_failure hn _ (.cons hr .nil))
    | some c => exact .pure (.call ⟨hn, rfl, hr.hasErrors⟩ hr)
  | literal hi => exact other (.literal hi)
  | localVar hi => exact other (.localVar hi)
  | field hi hr => exact other (.field hi hr)
  | property hi hr => exact other (.property hi hr)
  | call hi hr => exact other (.call hi hr)
  | conversion hi ho => exact other (.conversion hi ho)
  | placeholder hi => exact other (.placeholder hi)
  | assignment hi hl hr => exact other (.assignment hi hl hr)
  | update hi hr hl hm he hf => exact other (.update hi hr hl hm he hf)
  | bad hi hl he => exact other (.bad hi hl he)

end Binder.Twins

end UpdateExpr
