import UpdateExpr.Proofs.Bound.NodeRun
import UpdateExpr.Proofs.Bound.Part
import UpdateExpr.Syntax.Parser

/-!
# Reports and the mark of an expression

An expression that binding had something to report about should be marked as faulty. Every rule
hands the mark on but one: a call takes the mark of its receiver and forgets the one that its
method group got from notes about the type of the receiver. So a report is lost exactly where a
call leaves such a note and nothing else goes wrong.

The invariant is that an expression without the mark accounts for all that was reported while it was
bound: each diagnostic is the note of a call among its parts.

## Main definitions

* `Binder.CallNote`: the diagnostics of notes that a call leaves
* `Binder.Accounts`: an expression is marked, or accounts for every report

## Main results

* `Binder.accounts_expr`: every expression is bound so
* `Binder.marked_iff_no_call_note`: reports lead to a mark, but for the notes of calls
-/

namespace UpdateExpr

namespace Binder

/-- A diagnostic that says what the lookup of the method of a call noted about its receiver. -/
inductive CallNote (b : Binder) (file : String) : BoundExpr → Diagnostic → Prop
  | intro {info receiver m ty target operand nameNode note} (types : TypeTable)
    (hc : b.arena.shape? info.node = some (.call target))
    (ha : b.arena.shape? target = some (.access operand nameNode))
    (ht : receiver.ty? = some ty)
    (hn : note ∈ (b.symbols.lookup ty (b.query (b.arena.name nameNode) 0 true) { types }).2.notes) :
    CallNote b file (.call info receiver m) (note.diagnostic file (b.arena.span nameNode))

/-- A state goes on from another: in the same file, with more diagnostics, each of which has some
property. -/
def Adds (p : Diagnostic → Prop) (s s' : BindState) : Prop :=
  s'.bag.file = s.bag.file ∧ ∃ more, s'.bag.entries = s.bag.entries ++ more ∧ ∀ d ∈ more, p d

/-- The diagnostics of calls that are parts of an expression. -/
def Explained (b : Binder) (file : String) (e : BoundExpr) (d : Diagnostic) : Prop :=
  ∃ c : BoundExpr, c.PartOf e ∧ b.CallNote file c d

/-- An expression is marked as faulty, or accounts for all that was reported from one state to
another. -/
structure Accounts (b : Binder) (e : BoundExpr) (s s' : BindState) : Prop where
  adds : Adds (fun _ => True) s s'
  explained : e.hasErrors = false → Adds (b.Explained s.bag.file e) s s'

/-! ## Adding diagnostics -/

section Adds

variable {p q : Diagnostic → Prop} {s s₁ s' : BindState}

theorem Adds.of_bag_eq (h : s'.bag = s.bag) : Adds p s s' :=
  ⟨by rw [h], [], by simp [h], nofun⟩

theorem Adds.refl : Adds p s s :=
  .of_bag_eq rfl

theorem Adds.mono (h : Adds p s s') (hpq : ∀ d, p d → q d) : Adds q s s' := by
  obtain ⟨hf, more, he, hm⟩ := h
  exact ⟨hf, more, he, fun d hd => hpq d (hm d hd)⟩

theorem Adds.trans (h : Adds p s s₁) (h' : Adds p s₁ s') : Adds p s s' := by
  obtain ⟨hf, more, he, hm⟩ := h
  obtain ⟨hf', more', he', hm'⟩ := h'
  refine ⟨hf'.trans hf, more ++ more', by rw [he', he, List.append_assoc], fun d hd => ?_⟩
  rcases List.mem_append.1 hd with hd | hd
  · exact hm d hd
  · exact hm' d hd

theorem adds_tell (code : Nat) (span : Span) (args : List String) :
    Adds (fun _ => True) s (s.tell code span args) :=
  ⟨rfl, _, rfl, fun _ _ => trivial⟩

theorem adds_tellNotes (types : TypeTable) (span : Span) (notes : List UseSite) :
    Adds (fun d => ∃ note ∈ notes, d = note.diagnostic s.bag.file span) s
      ((s.withTypes types).tellNotes span notes) := by
  refine ⟨by simp, _, by simp; rfl, fun d hd => ?_⟩
  obtain ⟨note, hn, rfl⟩ := List.mem_map.1 hd
  exact ⟨note, hn, rfl⟩

end Adds

/-! ## Values and members -/

section Uses

variable {b : Binder} {nested : NodeRef → BindM BoundExpr} {node target : NodeRef}
  {e e' left right receiver : BoundExpr} {name : String} {arity : Nat} {invoked : Bool}
  {s s₁ s' : BindState}

/-- A marked expression has nothing to account for. -/
theorem Accounts.of_marked (h : e.hasErrors = true) (ha : Adds (fun _ => True) s s') :
    b.Accounts e s s' :=
  ⟨ha, fun hf => by simp [h] at hf⟩

/-- An expression without calls accounts for what was not reported. -/
theorem Accounts.of_bag_eq (h : s'.bag = s.bag) : b.Accounts e s s' :=
  ⟨.of_bag_eq h, fun _ => .of_bag_eq h⟩

/-- What a part accounts for, the whole accounts for. -/
theorem Accounts.whole (h : b.Accounts e s s') (he : e ∈ e'.children)
    (hm : e'.hasErrors = false → e.hasErrors = false) : b.Accounts e' s s' := by
  refine ⟨h.adds, fun hf => (h.explained (hm hf)).mono ?_⟩
  rintro d ⟨c, hc, hn⟩
  exact ⟨c, .child hc he, hn⟩

/-- An expression accounts for one run after another. -/
theorem Accounts.trans (h : b.Accounts e s s₁) (h' : b.Accounts e s₁ s') : b.Accounts e s s' := by
  refine ⟨h.adds.trans h'.adds, fun hf => (h.explained hf).trans ?_⟩
  have hs := h.adds.1
  exact hs ▸ h'.explained hf

/-- What is reported behind a marked expression needs no account. -/
theorem Accounts.then_adds (h : b.Accounts e s s₁) (ha : Adds (fun _ => True) s₁ s')
    (hm : e'.hasErrors = true) : b.Accounts e' s s' :=
  .of_marked hm (h.adds.trans ha)

theorem OperandRun.accounts (hn : ∀ {node s e s'}, nested node s = (e, s') → b.Accounts e s s')
    (h : b.OperandRun nested node s e s') : b.Accounts e s s' := by
  obtain ⟨ho, hr⟩ := h
  cases hr with
  | value _ => exact hn ho
  | group name _ => exact (hn ho).then_adds (adds_tell _ _ _) rfl

/-- Notes make an expression faulty. -/
theorem ConversionRun.adds {ty : TypeId} {conversion : Conversion} {faulty : Bool}
    (h : b.ConversionRun e ty s conversion faulty s') :
    Adds (fun _ => True) s s' ∧ (faulty = false → s'.bag = s.bag) := by
  cases h with
  | null _ => exact ⟨.refl, fun _ => rfl⟩
  | typeless _ _ => exact ⟨.refl, fun _ => rfl⟩
  | @classified _ _ q _ _ _ =>
    refine ⟨(adds_tellNotes q.types _ q.notes).mono fun _ _ => trivial, fun hf => ?_⟩
    rw [Bool.not_eq_false', List.isEmpty_iff] at hf
    rw [hf]
    rfl

/-- A conversion that is not marked reported nothing, and has the operand or is it. -/
theorem ConvertRun.adds {ty : TypeId} (h : b.ConvertRun e ty s e' s') :
    Adds (fun _ => True) s s' ∧
      (e'.hasErrors = false → s'.bag = s.bag ∧ e.hasErrors = false ∧ e.PartOf e') := by
  cases h with
  | same hc =>
    refine ⟨hc.adds.1, fun hf => ?_⟩
    rw [BoundExpr.hasErrors_addErrors, Bool.or_eq_false_iff] at hf
    obtain ⟨he, rfl⟩ := hf
    exact ⟨hc.adds.2 rfl, he, by rw [BoundExpr.addErrors_false]; exact .refl⟩
  | implicit hc _ _ =>
    refine ⟨hc.adds.1, fun hf => ?_⟩
    obtain ⟨he, hfaulty⟩ := Bool.or_eq_false_iff.1 hf
    exact ⟨hc.adds.2 hfaulty, he, .child .refl (by simp [BoundExpr.children])⟩
  | refused issue args hc _ _ =>
    exact ⟨hc.adds.1.trans (adds_tell _ _ _), nofun⟩

theorem FitRun.adds (h : b.FitRun left right s e' s') :
    Adds (fun _ => True) s s' ∧
      (e'.hasErrors = false → s'.bag = s.bag ∧ right.hasErrors = false ∧ right.PartOf e') := by
  cases h with
  | kept _ => exact ⟨.refl, fun hf => ⟨rfl, hf, .refl⟩⟩
  | converted _ _ _ hc => exact hc.adds

/-- Where an assignment is refused, this is reported and marked. -/
theorem AssignRun.adds {inInitializer : Bool} (h : b.AssignRun inInitializer e s e' s') :
    Adds (fun _ => True) s s' ∧
      (e'.hasErrors = false → s'.bag = s.bag ∧ e.hasErrors = false) := by
  cases h with
  | faulty _ => exact ⟨.refl, fun hf => ⟨rfl, hf⟩⟩
  | accepted _ _ => exact ⟨.refl, fun hf => ⟨rfl, hf⟩⟩
  | refused _ _ _ => exact ⟨adds_tell _ _ _, nofun⟩

/-- A member that is not marked reported nothing. -/
theorem MemberRun.adds (h : b.MemberRun node receiver name arity invoked s e s') :
    Adds (fun _ => True) s s' ∧ (e.hasErrors = false → s'.bag = s.bag) := by
  cases h with
  | typeless args _ => exact ⟨adds_tell _ _ _, nofun⟩
  | faulty _ => exact ⟨.refl, nofun⟩
  | @found _ _ q _ _ _ _ =>
    refine ⟨(adds_tellNotes q.types _ q.notes).mono fun _ _ => trivial, fun hf => ?_⟩
    rw [hasErrors_access, Bool.or_eq_false_iff, Bool.not_eq_false', List.isEmpty_iff] at hf
    rw [hf.2]
    rfl
  | @missing _ _ q issue args _ _ _ _ =>
    refine ⟨?_, nofun⟩
    exact ((adds_tellNotes q.types _ q.notes).mono fun _ _ => trivial).trans (adds_tell _ _ _)

theorem AccessRun.accounts (hn : ∀ {node s e s'}, nested node s = (e, s') → b.Accounts e s s')
    (h : b.AccessRun nested node invoked s e s') : b.Accounts e s s' := by
  cases h with
  | other _ => exact .of_marked rfl .refl
  | nameless _ ho _ => exact (ho.accounts hn).then_adds .refl rfl
  | @named _ _ r s₁ e s' _ ho _ hm =>
    obtain ⟨hadds, hq⟩ := hm.adds
    cases hf : e.hasErrors with
    | true => exact (ho.accounts hn).then_adds hadds (by simpa using hf)
    | false =>
      have hr : r ∈ (e.setNode node).children := by
        rw [BoundExpr.setNode, BoundExpr.children_setInfo, hm.children_eq]
        exact List.mem_singleton_self r
      have hw : b.Accounts (e.setNode node) s s₁ :=
        (ho.accounts hn).whole hr fun _ => hm.receiver_hasErrors hf
      exact hw.trans (.of_bag_eq (hq hf))

/-- A member of an expression never is an update. -/
theorem AccessRun.not_update (h : b.AccessRun nested node invoked s e s') (i : BoundInfo)
    (r : BoundExpr) (c : Option MemberId) (es : List (Option MemberId × BoundExpr)) (f : Bool) :
    e ≠ .update i r c es f := by
  cases h with
  | other _ | nameless _ _ _ => exact nofun
  | @named _ _ _ _ m _ _ _ _ hm =>
    cases hm with
    | typeless _ _ | faulty _ | missing _ _ _ _ _ _ => exact nofun
    | found _ _ _ _ =>
      unfold access
      split
      · exact nofun
      · split <;> exact nofun

/-- The one rule that loses marks. Its method group is marked by the notes of the lookup, but the
call takes the mark of the receiver; so the call is what accounts for these notes. -/
theorem CallRun.accounts (hn : ∀ {node s e s'}, nested node s = (e, s') → b.Accounts e s s')
    (hs : b.arena.shape? node = some (.call target))
    (h : b.CallRun nested node target s e s') : b.Accounts e s s' := by
  obtain ⟨ha, hi⟩ := h
  have hall := ha.accounts hn
  cases hi with
  | other _ => exact hall.then_adds .refl rfl
  | overloads name _ => exact hall.then_adds (adds_tell _ _ _) rfl
  | @called info receiver methods m hg _ =>
    cases ha with
    | other _ => cases hg
    | nameless _ _ _ => cases hg
    | @named operand nameNode r s₁ e' _ hsa ho _ hm =>
      obtain ⟨rfl, -⟩ := hm.of_methodGroup hg
      have hw : b.Accounts (.call ⟨node, some m.ty, r.hasErrors⟩ r m.member) s s₁ :=
        (ho.accounts hn).whole (by simp [BoundExpr.children]) id
      refine hw.trans ⟨hm.adds.1, fun _ => ?_⟩
      cases hm with
      | typeless _ _ => cases hg
      | faulty _ => cases hg
      | missing _ _ _ _ _ _ => cases hg
      | @found ty l q ht _ hl _ =>
        refine (adds_tellNotes q.types _ q.notes).mono ?_
        rintro d ⟨note, hnote, rfl⟩
        exact ⟨_, .refl, .intro s₁.types hs hsa ht (by rw [hl]; exact hnote)⟩

end Uses

/-! ## Updates and nodes -/

section Updates

variable {b : Binder} {nested : NodeRef → BindM BoundExpr} {node : NodeRef} {e copy : BoundExpr}
  {ty : TypeId} {choice : CloneChoice} {init : BoundInitializer} {s s' : BindState}

/-- A choice without fault reported nothing. -/
theorem CloneRun.adds (h : b.CloneRun ty s choice s') :
    Adds (fun _ => True) s s' ∧ (choice.failed = false → s'.bag = s.bag) := by
  cases h with
  | faulty _ => exact ⟨.refl, fun _ => rfl⟩
  | absent types _ _ => exact ⟨⟨rfl, _, rfl, fun _ _ => trivial⟩, nofun⟩
  | chosen _ _ _ _ _ => exact ⟨.of_bag_eq rfl, fun _ => rfl⟩
  | doubtful d ds hf he _ => exact ⟨⟨hf, d :: ds, he, fun _ _ => trivial⟩, nofun⟩

theorem ReceiverRun.accounts (hn : ∀ {node s e s'}, nested node s = (e, s') → b.Accounts e s s')
    (h : b.ReceiverRun nested node s e ty s') : b.Accounts e s s' := by
  cases h with
  | typed ho _ _ => exact ho.accounts hn
  | refused ho => exact (ho.accounts hn).then_adds (adds_tell _ _ _) (by simp)

/-- An initializer without fault has a value without the mark, which accounts for its reports. -/
theorem InitializerRun.adds (hn : ∀ {node s e s'}, nested node s = (e, s') → b.Accounts e s s')
    (h : b.InitializerRun nested copy node s init s') :
    Adds (fun _ => True) s s' ∧
      (init.failed = false → Adds (b.Explained s.bag.file init.value) s s') := by
  cases h with
  | other _ => exact ⟨.refl, nofun⟩
  | bare _ _ ho => exact ⟨(ho.accounts hn).adds, (ho.accounts hn).explained⟩
  | @named _ _ t s₁ t' s₂ v s₃ v' _ _ _ hm ha ho hf =>
    have hv := ho.accounts hn
    refine ⟨hm.adds.1.trans (ha.adds.1.trans (hv.adds.trans hf.adds.1)), fun hfail => ?_⟩
    obtain ⟨ht', hv'⟩ := Bool.or_eq_false_iff.1 hfail
    obtain ⟨hbag₂, ht⟩ := ha.adds.2 ht'
    have hbag₁ := hm.adds.2 ht
    obtain ⟨hbag, hr, hpart⟩ := hf.adds.2 hv'
    have hs : s₂.bag.file = s.bag.file := by rw [hbag₂, hbag₁]
    have hx : Adds (b.Explained s.bag.file v') s₂ s₃ := (hs ▸ hv.explained hr).mono (by
      rintro d ⟨c, hc, hnote⟩
      exact ⟨c, hc.trans hpart, hnote⟩)
    exact (Adds.of_bag_eq (hbag₂.trans hbag₁)).trans (hx.trans (.of_bag_eq hbag))

theorem InitializersRun.adds {nodes : List NodeRef} {inits : List BoundInitializer}
    (hn : ∀ {node s e s'}, nested node s = (e, s') → b.Accounts e s s')
    (h : b.InitializersRun nested copy nodes s inits s') :
    Adds (fun _ => True) s s' ∧
      (inits.any (·.failed) = false →
        Adds (fun d => ∃ init ∈ inits, b.Explained s.bag.file init.value d) s s') := by
  induction h with
  | nil => exact ⟨.refl, fun _ => .refl⟩
  | @cons _ _ s s₁ s' init inits hi _ ih =>
    obtain ⟨hadds, hx⟩ := hi.adds hn
    refine ⟨hadds.trans ih.1, fun hf => ?_⟩
    obtain ⟨hi', hrest⟩ := Bool.or_eq_false_iff.1 (List.any_cons ▸ hf)
    have hs := hadds.1
    refine ((hx hi').mono fun d hd => ⟨init, by simp, hd⟩).trans ((ih.2 hrest).mono ?_)
    rintro d ⟨i, him, hd⟩
    exact ⟨i, List.mem_cons_of_mem _ him, hs ▸ hd⟩

/-- An update is marked where its receiver, its clone method or an initializer is faulty. -/
theorem UpdateRun.accounts (hn : ∀ {node s e s'}, nested node s = (e, s') → b.Accounts e s s')
    (h : b.UpdateRun nested node s e s') : b.Accounts e s s' := by
  cases h with
  | other _ => exact .of_marked rfl .refl
  | @intro _ _ _ r ty s₁ clone s₂ inits s' copyTy failed _ hr hc _ hi hf =>
    have hrecv := hr.accounts hn
    obtain ⟨hca, hcq⟩ := hc.adds
    obtain ⟨hia, hix⟩ := hi.adds hn
    refine ⟨hrecv.adds.trans (hca.trans hia), fun hfail => ?_⟩
    have hff : failed = false := hfail
    rw [hf, Bool.or_eq_false_iff, Bool.or_eq_false_iff] at hff
    obtain ⟨⟨hr', hc'⟩, hi'⟩ := hff
    have hs : s₂.bag.file = s.bag.file := by rw [hcq hc', hrecv.adds.1]
    refine Adds.trans ((hrecv.explained hr').mono ?_)
      ((Adds.of_bag_eq (hcq hc')).trans ((hix hi').mono ?_))
    · rintro d ⟨c, hcp, hnote⟩
      exact ⟨c, .child hcp (by simp [BoundExpr.children]), hnote⟩
    · rintro d ⟨i, him, c, hcp, hnote⟩
      refine ⟨c, .child hcp ?_, hs ▸ hnote⟩
      simp only [BoundExpr.children, List.map_map, List.mem_cons, List.mem_map]
      exact .inr ⟨i, him, rfl⟩

theorem NodeRun.accounts (hn : ∀ {node s e s'}, nested node s = (e, s') → b.Accounts e s s')
    (h : b.NodeRun nested node s e s') : b.Accounts e s s' := by
  cases h with
  | lacking _ | stray _ _ _ => exact .of_marked rfl .refl
  | truth _ | null | literal _ | localVar _ => exact .of_bag_eq rfl
  | unknown name => exact .of_marked rfl (adds_tell _ _ _)
  | access _ h => exact h.accounts hn
  | call hs h => exact h.accounts hn hs
  | paren _ h => exact hn h
  | update _ h => exact h.accounts hn

/-- **An expression without the mark accounts for every report**, down to any depth. -/
theorem accounts_expr {depth : Nat} (h : b.expr depth node s = (e, s')) : b.Accounts e s s' := by
  induction depth generalizing node s e s' with
  | zero =>
    obtain ⟨rfl, rfl⟩ := Prod.mk.inj h
    exact .of_marked rfl (adds_tell _ _ _)
  | succ depth ih => exact (node_run h).accounts ih

/-- The flag of an update is its mark. -/
theorem NodeRun.failed_eq
    (hn : ∀ {node s e s'}, nested node s = (e, s') →
      ∀ i r c es f, e = .update i r c es f → f = i.hasErrors)
    (h : b.NodeRun nested node s e s') :
    ∀ i r c es f, e = .update i r c es f → f = i.hasErrors := by
  intro i r c es f he
  cases h with
  | lacking _ | stray _ _ _ | truth _ | null | localVar _ | unknown _ => cases he
  | @literal value _ _ _ => cases value <;> cases he
  | access _ h =>
    have hf := h.not_update i r c es f
    exact absurd he hf
  | call _ h =>
    obtain ⟨-, hi⟩ := h
    cases hi <;> cases he
  | paren _ h => exact hn h i r c es f he
  | update _ h =>
    cases h with
    | other _ => cases he
    | intro _ _ _ _ _ _ => cases he; rfl

theorem failed_expr {depth : Nat} (h : b.expr depth node s = (e, s')) :
    ∀ i r c es f, e = .update i r c es f → f = i.hasErrors := by
  induction depth generalizing node s e s' with
  | zero =>
    obtain ⟨rfl, -⟩ := Prod.mk.inj h
    intro i r c es f he
    cases he
  | succ depth ih => exact (node_run h).failed_eq ih

/-- **Reports lead to a mark, but for the notes of calls.** Binding a node reports only what marks
the expression, or else only notes that calls in it left; so the mark is missing behind a report
exactly where an expression is not marked and a call in it left a note. The flag of an update says
the same as its mark. -/
theorem marked_iff_no_call_note (b : Binder) (depth : Nat) (node : NodeRef) (s : BindState) :
    let e := (b.expr depth node s).1
    let entries := (b.expr depth node s).2.bag.entries
    let reported := entries.drop s.bag.entries.length
    (e.hasErrors = false → ∀ d ∈ reported, b.Explained s.bag.file e d) ∧
      ((entries ≠ s.bag.entries → e.hasErrors = true) ↔
        ¬ (e.hasErrors = false ∧ ∃ d ∈ reported, b.Explained s.bag.file e d)) ∧
      ∀ i r c es f, e = .update i r c es f → f = i.hasErrors := by
  intro e entries reported
  have ha : b.Accounts e s (b.expr depth node s).2 := accounts_expr rfl
  have hsplit : entries = s.bag.entries ++ reported := by
    obtain ⟨-, more, he, -⟩ := ha.adds
    simp only [entries, reported, he, List.drop_left]
  have hall : e.hasErrors = false → ∀ d ∈ reported, b.Explained s.bag.file e d := by
    intro hf d hd
    obtain ⟨-, more, he, hm⟩ := ha.explained hf
    simp only [reported, entries, he, List.drop_left] at hd
    exact hm d hd
  -- A report without a mark is one that a call accounts for, and the other way round.
  refine ⟨hall, ⟨?_, ?_⟩, failed_expr rfl⟩
  · rintro hmark ⟨hf, d, hd, -⟩
    have hne : entries ≠ s.bag.entries := by
      intro he
      rw [hsplit, List.append_right_eq_self] at he
      simp [he] at hd
    simp [hmark hne] at hf
  · intro hno hne
    cases hf : e.hasErrors with
    | true => rfl
    | false =>
      cases hr : reported with
      | nil => exact absurd (by rw [hsplit, hr, List.append_nil]) hne
      | cons d ds =>
        have hd : d ∈ reported := by simp [hr]
        exact absurd ⟨hf, d, hd, hall hf d hd⟩ hno

/-- A receiver of a class whose base could not be loaded. -/
def orphanBinder : Binder where
  arena := (parse "d.M()").arena
  symbols := {
    definitions := #[{ name := "D", members := [⟨0⟩], unresolvedBase? := some "Missing" }]
    members := #[{ owner := ⟨0⟩, name := "M", shape := .method [] Intrinsic.int.id 0 }] }
  scope := { locals := [("d", ⟨⟨0⟩, ⟨Intrinsic.all.length⟩⟩)], declared := 1 }

/-- The types with that class. -/
def orphanState : BindState :=
  ⟨(TypeTable.plain ⟨0⟩ {}).2, { file := "w.wex" }⟩

/-- A call of a method of such a class reports that its base is missing, and is not marked. -/
theorem not_marked_of_orphan :
    ¬ ((orphanBinder.bind (some (parse "d.M()").root) orphanState).2.bag.entries ≠
        orphanState.bag.entries →
      (orphanBinder.bind (some (parse "d.M()").root) orphanState).1.hasErrors = true) := by
  decide +kernel

end Updates

end Binder

end UpdateExpr
