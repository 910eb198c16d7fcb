import UpdateExpr.Proofs.Bound.Alike
import UpdateExpr.Proofs.Bound.Report

/-!
# Uses of like expressions agree

A binder runs twice on the same text, with tables that have grown in different ways. Each rule for
a use of an expression, applied to like expressions, gives like results and reports the same
diagnostics, down to the texts of the messages.

## Main definitions

* `Binder.Shared`: both tables know the types of the symbols and of the scope, under the same
  handles

## Main results

* `agree_reportNotes`, `agree_typeName`, `agree_memberName`: what is reported, and how it is called
* `agree_convert`, `agree_fit`: an expression that is brought to a type
* `agree_member`, `agree_invoke`: a name behind a receiver, and a call
-/

namespace UpdateExpr

instance : HasTypes BindState :=
  ⟨BindState.types⟩

instance : HasRest BindState :=
  ⟨Bag, BindState.bag⟩

/-- The tables of two states of a binder. -/
abbrev BindState.both (s s' : BindState) : Tables :=
  (s.types, s'.types)

/-- Both tables know the types of the symbols and of the visible local variables, under the same
handles. -/
structure Binder.Shared (b : Binder) (w : Tables) : Prop where
  symbols : b.symbols.Shared w
  locals : ∀ name v, b.scope.lookup? name = some v → Alike w v.ty v.ty

section Reports

variable {b : Binder} {s s' : BindState} {w w' : Tables} {ty ty' : TypeId}

theorem Binder.Shared.mono (h : b.Shared w) (hle : w ≤ w') : b.Shared w' :=
  ⟨h.symbols.mono hle, fun name v hv => (h.locals name v hv).mono hle⟩

/-! ## Reports -/

theorem agree_types {α β : Type} {r : Tables → α → β → Prop} {f : TypeTable → BindM α}
    {f' : TypeTable → BindM β} (h : Agree r (f s.types) (f' s'.types) s s') :
    Agree r (BindM.types >>= f) (BindM.types >>= f') s s' :=
  ⟨h.grown, h.rest, h.post⟩

/-- A question about symbols, with the same notes on both sides. -/
theorem agree_ask {α β : Type} {r : Tables → α → β → Prop} {question : QueryM α}
    {question' : QueryM β}
    (h : Agree r question question' { types := s.types } { types := s'.types }) :
    Agree (fun w p p' => r w p.1 p'.1 ∧ p.2 = p'.2) (BindM.ask question) (BindM.ask question')
      s s' where
  grown := h.grown
  rest h := h
  post := ⟨h.post, h.rest rfl⟩

theorem agree_report (node : NodeRef) (issue : Issue) (args : List String) :
    Agree Equal (b.report node issue args) (b.report node issue args) s s' where
  grown := .refl _
  rest h := congrArg (fun bag : Bag => bag.add issue.code (b.arena.span node) args) h
  post := rfl

theorem agree_reportNotes (node : NodeRef) (notes : List UseSite) :
    Agree Equal (b.reportNotes node notes) (b.reportNotes node notes) s s' := by
  have hbag : ∀ s s' : BindState, s.bag = s'.bag →
      (s.tellNotes (b.arena.span node) notes).bag =
        (s'.tellNotes (b.arena.span node) notes).bag := by
    induction notes with
    | nil => exact fun _ _ h => h
    | cons note notes ih =>
      intro s s' h
      exact ih _ _ (congrArg (fun bag : Bag => bag.add note.code (b.arena.span node) note.args) h)
  refine ⟨?_, fun h => ?_, ?_⟩
  · rw [b.reportNotes_apply, b.reportNotes_apply]
    show Grown (s.both s') (BindState.both _ _)
    rw [BindState.both, BindState.both, BindState.types_tellNotes, BindState.types_tellNotes]
    exact .refl _
  · rw [b.reportNotes_apply, b.reportNotes_apply]
    exact hbag s s' h
  · rw [b.reportNotes_apply, b.reportNotes_apply]
    rfl

theorem agree_typeName {ty? ty?' : Option TypeId} (h : Option.Rel (Alike (s.both s')) ty? ty?') :
    Agree Equal (b.typeName ty?) (b.typeName ty?') s s' := by
  refine agree_types (.pure ?_)
  cases h with
  | none => rfl
  | some h => exact h.displayType_eq b.symbols

theorem agree_memberName (hb : b.Shared (s.both s')) (m : MemberId) :
    Agree Equal (b.memberName m) (b.memberName m) s s' := by
  refine agree_types (.pure ?_)
  exact hb.symbols.displayMember_eq m

/-- A message that names the first of some members. -/
theorem agree_named {α β : Type} {r : Tables → α → β → Prop} {f : String → BindM α}
    {f' : String → BindM β} (hb : b.Shared (s.both s')) (fallback : String)
    (hf : ∀ name s₁ s₁', s.both s' ≤ s₁.both s₁' → Agree r (f name) (f' name) s₁ s₁')
    {ms ms' : List Candidate} : List.Forall₂ (LikeCandidates w) ms ms' →
    Agree r (match ms with | [] => pure fallback >>= f | m :: _ => b.memberName m.member >>= f)
      (match ms' with | [] => pure fallback >>= f' | m :: _ => b.memberName m.member >>= f')
      s s' := by
  intro hm
  cases hm with
  | nil => exact hf fallback s s' (le_refl _)
  | cons hc _ =>
    dsimp only
    rw [hc.member]
    refine (agree_memberName hb _).bind ?_
    rintro name _ s₁ s₁' hle rfl
    exact hf name s₁ s₁' hle

end Reports

/-! ## Values -/

section Values

variable {b : Binder} {s s' : BindState} {w w' : Tables} {e e' : BoundExpr} {ty ty' : TypeId}

theorem agree_readable (hb : b.Shared (s.both s')) (he : LikeExprs (s.both s') e e') :
    Agree LikeExprs (b.readable e) (b.readable e') s s' := by
  cases he with
  | methodGroup hi hr hm =>
    have hgroup := LikeExprs.methodGroup hi hr hm
    unfold Binder.readable
    dsimp only
    rw [hi.node, hgroup.symbol?_eq]
    refine agree_named hb "" (fun name s₁ s₁' hle₁ => ?_) hm
    refine (agree_report _ _ _).bind fun _ _ s₂ s₂' hle₂ _ => ?_
    exact .pure (likeExprs_failure _ _ _ (.cons (hgroup.mono (hle₁.trans hle₂)) .nil))
  | literal hi => exact .pure (.literal hi)
  | localVar hi => exact .pure (.localVar hi)
  | field hi hr => exact .pure (.field hi hr)
  | property hi hr => exact .pure (.property hi hr)
  | call hi hr => exact .pure (.call hi hr)
  | conversion hi ho => exact .pure (.conversion hi ho)
  | placeholder hi => exact .pure (.placeholder hi)
  | assignment hi hl hr => exact .pure (.assignment hi hl hr)
  | update hi hr hl hm he => exact .pure (.update hi hr hl hm he)
  | bad hi hl he => exact .pure (.bad hi hl he)

theorem objection?_eq (he : LikeExprs w e e') (inInitializer : Bool) :
    b.objection? inInitializer e = b.objection? inInitializer e' := by
  cases he with
  | methodGroup _ _ hm =>
    cases hm with
    | nil => rfl
    | cons hc _ => exact congrArg (fun m => some (Issue.methodGroupAssigned, m)) hc.member
  | _ => rfl

theorem agree_assignable (hb : b.Shared (s.both s')) (he : LikeExprs (s.both s') e e')
    (inInitializer : Bool) :
    Agree LikeExprs (b.assignable inInitializer e) (b.assignable inInitializer e') s s' := by
  unfold Binder.assignable
  rw [he.hasErrors_eq, objection?_eq he, he.node_eq]
  split
  · exact .pure he
  split
  · exact .pure he
  · next issue m _ =>
    refine (agree_memberName hb m).bind ?_
    rintro name _ s₁ s₁' hle₁ rfl
    refine (agree_report _ _ _).bind fun _ _ s₂ s₂' hle₂ _ => ?_
    exact .pure (likeExprs_failure _ _ _ (.cons (he.mono (hle₁.trans hle₂)) .nil))

theorem agree_conversionOf (hb : b.Shared (s.both s')) (he : LikeExprs (s.both s') e e')
    (hty : Alike (s.both s') ty ty') :
    Agree Equal (b.conversionOf e ty) (b.conversionOf e' ty') s s' := by
  unfold Binder.conversionOf
  rw [he.isNull_eq]
  split
  · refine agree_types (.pure ?_)
    exact congrArg (·, false) hty.ofNull_eq
  · rcases he.ty?_cases with ⟨hn, hn'⟩ | ⟨source, source', hs, hs', hsource⟩
    · rw [hn, hn']
      exact .pure rfl
    · rw [hs, hs', he.node_eq]
      refine (agree_ask (agree_classify hb.symbols hsource hty)).bind ?_
      rintro ⟨conversion, notes⟩ ⟨_, _⟩ s₁ s₁' - ⟨rfl, rfl⟩
      refine (agree_reportNotes _ notes).bind ?_
      rintro faulty _ s₂ s₂' - rfl
      exact .pure rfl

theorem agree_convert (hb : b.Shared (s.both s')) (he : LikeExprs (s.both s') e e')
    (hty : Alike (s.both s') ty ty') :
    Agree LikeExprs (b.convert e ty) (b.convert e' ty') s s' := by
  refine (agree_conversionOf hb he hty).bind ?_
  rintro ⟨conversion, faulty⟩ _ s₁ s₁' hle rfl
  dsimp only
  split
  · exact .pure ((he.mono hle).addErrors faulty)
  rw [he.node_eq, he.hasErrors_eq]
  split
  · exact .pure (.conversion ⟨rfl, .some (hty.mono hle), rfl⟩ (he.mono hle))
  refine (agree_typeName (he.mono hle).info.ty?).bind ?_
  rintro source _ s₂ s₂' hle₂ rfl
  have hle₂ := hle.trans hle₂
  refine (agree_typeName (.some (hty.mono hle₂))).bind ?_
  rintro target _ s₃ s₃' hle₃ rfl
  refine (agree_report _ _ _).bind fun _ _ s₄ s₄' hle₄ _ => ?_
  have hlast := (hle₂.trans hle₃).trans hle₄
  exact .pure (.conversion ⟨rfl, .some (hty.mono hlast), rfl⟩ (he.mono hlast))

/-- **The value of an assignment.** -/
theorem agree_fit (hb : b.Shared (s.both s')) {l l' : BoundExpr} (hl : LikeExprs (s.both s') l l')
    (he : LikeExprs (s.both s') e e') :
    Agree LikeExprs (b.fit l e) (b.fit l' e') s s' := by
  unfold Binder.fit
  rw [hl.hasErrors_eq]
  split
  · exact .pure he
  rcases hl.ty?_cases with ⟨hn, hn'⟩ | ⟨ty, ty', ht, ht', hty⟩
  · rw [hn, hn']
    exact .pure he
  · rw [ht, ht']
    dsimp only
    rw [hty.isError_eq]
    split
    · exact .pure he
    · exact agree_convert hb he hty

end Values

/-! ## Members -/

section Members

variable {b : Binder} {s s' : BindState} {w w' : Tables} {e e' : BoundExpr} {ty ty' : TypeId}

theorem agree_reportLookup (hb : b.Shared (s.both s')) (node : NodeRef) {l l' : Lookup}
    (hl : LikeLookups w l l') (hty : Alike (s.both s') ty ty') (name : String) :
    Agree Equal (b.reportLookup node l ty name) (b.reportLookup node l' ty' name) s s' := by
  unfold Binder.reportLookup
  rw [hl.verdict]
  refine agree_named hb name (fun member s₁ s₁' hle => ?_) hl.candidates
  have hreceiver : Agree Equal
      (b.typeName (some ty) >>= fun receiver => b.report node .memberNotFound [receiver, name])
      (b.typeName (some ty') >>= fun receiver => b.report node .memberNotFound [receiver, name])
      s₁ s₁' := by
    refine (agree_typeName (.some (hty.mono hle))).bind ?_
    rintro receiver _ s₂ s₂' - rfl
    exact agree_report _ _ _
  split
  · exact agree_report _ _ _
  · exact agree_report _ _ _
  · exact agree_report _ _ _
  · exact hreceiver
  · exact hreceiver
  · exact hreceiver

theorem likeExprs_access (node : NodeRef) (he : LikeExprs w e e') (faulty : Bool)
    {ms ms' : List Candidate} (hm : List.Forall₂ (LikeCandidates w) ms ms') :
    LikeExprs w (b.access node e faulty ms) (b.access node e' faulty ms') := by
  have hgroup : LikeExprs w (.methodGroup ⟨node, none, faulty⟩ e ms)
      (.methodGroup ⟨node, none, faulty⟩ e' ms') := .methodGroup ⟨rfl, .none, rfl⟩ he hm
  cases hm with
  | nil => exact hgroup
  | cons hc _ =>
    unfold Binder.access
    dsimp only
    rw [hc.member]
    split
    · exact .field ⟨rfl, .some hc.ty, rfl⟩ he
    · exact hgroup
    · exact .property ⟨rfl, .some hc.ty, rfl⟩ he
    · exact .property ⟨rfl, .some hc.ty, rfl⟩ he

theorem onlyMember_eq {l l' : Lookup}
    (h : List.Forall₂ (LikeCandidates w) l.candidates l'.candidates) :
    l.only?.map (·.member) = l'.only?.map (·.member) := by
  rw [Lookup.only?, Lookup.only?]
  generalize l.candidates = cs, l'.candidates = cs' at h
  cases h with
  | nil => rfl
  | cons hc h =>
    cases h with
    | nil => exact congrArg some hc.member
    | cons _ _ => rfl

/-- **A name behind a receiver.** -/
theorem agree_member (hb : b.Shared (s.both s')) (node : NodeRef)
    (he : LikeExprs (s.both s') e e') (name : String) (arity : Nat) (invoked : Bool) :
    Agree LikeExprs (b.member node e name arity invoked) (b.member node e' name arity invoked)
      s s' := by
  unfold Binder.member
  rcases he.ty?_cases with ⟨hn, hn'⟩ | ⟨ty, ty', ht, ht', hty⟩
  · rw [hn, hn']
    refine (agree_report _ _ _).bind fun _ _ s₁ s₁' hle _ => ?_
    exact .pure (likeExprs_failure _ _ _ (.cons (he.mono hle) .nil))
  · rw [ht, ht']
    dsimp only
    rw [hty.isError_eq]
    split
    · exact .pure (likeExprs_failure _ _ _ (.cons he .nil))
    · refine (agree_ask (agree_lookup hb.symbols hty)).bind ?_
      rintro ⟨l, notes⟩ ⟨l', _⟩ s₁ s₁' hle₁ ⟨hl, rfl⟩
      refine (agree_reportNotes _ notes).bind ?_
      rintro faulty _ s₂ s₂' hle₂ rfl
      have hle := hle₁.trans hle₂
      have hviable : l.isViable = l'.isViable := by
        rw [Lookup.isViable, Lookup.isViable, hl.verdict]
      have hcandidates := lasting_likeCandidates.each hl.candidates hle₂
      rw [hviable, he.hasErrors_eq]
      split
      · exact .pure (likeExprs_access node (he.mono hle) _ hcandidates)
      · refine (agree_reportLookup (hb.mono hle) node hl (hty.mono hle) name).bind ?_
        intro _ _ s₃ s₃' hle₃ _
        rw [onlyMember_eq hl.candidates]
        exact .pure (likeExprs_failure _ _ _ (.cons (he.mono (hle.trans hle₃)) .nil))

theorem LikeCandidates.isEmpty_eq {c c' : Candidate} (h : LikeCandidates w c c') :
    c.params.isEmpty = c'.params.isEmpty := by
  have hparams := h.params
  generalize c.params = params, c'.params = params' at hparams
  cases hparams <;> rfl

/-- **A call.** -/
theorem agree_invoke (node : NodeRef) (he : LikeExprs (s.both s') e e') (name : String) :
    Agree LikeExprs (b.invoke node e name) (b.invoke node e' name) s s' := by
  have other : ∀ {e e' : BoundExpr}, LikeExprs (s.both s') e e' →
      Agree LikeExprs (pure (.failure node e.symbol?.toList [e]))
        (pure (.failure node e'.symbol?.toList [e'])) s s' := by
    intro e e' he
    rw [he.symbol?_eq]
    exact .pure (likeExprs_failure _ _ _ (.cons he .nil))
  cases he with
  | @methodGroup i i' r r' ms ms' hi hr hm =>
    unfold Binder.invoke
    dsimp only
    have hfound : Option.Rel (LikeCandidates (s.both s')) (ms.find? (·.params.isEmpty))
        (ms'.find? (·.params.isEmpty)) :=
      rel_find? hm fun _ _ hc => hc.isEmpty_eq
    generalize ms.find? _ = m?, ms'.find? _ = m?' at hfound
    cases hfound with
    | none =>
      refine (agree_report _ _ _).bind fun _ _ s₁ s₁' hle _ => ?_
      have hhead : ms.head?.map (·.member) = ms'.head?.map (·.member) := by
        cases hm with
        | nil => rfl
        | cons hc _ => exact congrArg some hc.member
      rw [hhead]
      exact .pure (likeExprs_failure _ _ _ (.cons (hr.mono hle) .nil))
    | some hc =>
      dsimp only
      rw [hr.hasErrors_eq, hc.member]
      exact .pure (.call ⟨rfl, .some hc.ty, rfl⟩ hr)
  | literal hi => exact other (.literal hi)
  | localVar hi => exact other (.localVar hi)
  | field hi hr => exact other (.field hi hr)
  | property hi hr => exact other (.property hi hr)
  | call hi hr => exact other (.call hi hr)
  | conversion hi ho => exact other (.conversion hi ho)
  | placeholder hi => exact other (.placeholder hi)
  | assignment hi hl hr => exact other (.assignment hi hl hr)
  | update hi hr hl hm he => exact other (.update hi hr hl hm he)
  | bad hi hl he => exact other (.bad hi hl he)

end Members

end UpdateExpr
