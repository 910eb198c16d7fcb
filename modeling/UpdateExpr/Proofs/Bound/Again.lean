import UpdateExpr.Proofs.Bound.Context

/-!
# Binding again

Binding leaves types and names behind in tables that it shares with others. A second binder for the
same expression asks for what the first one brought, and for nothing else. So it finds the tables
complete: it gives the same expression, under the same handles, reports the same, and adds nothing.

That both get like results is known from two runs on tables that have grown in different ways. Here
the one table has grown from the other, and then likeness is equality.

## Main definitions

* `BindContext.start`: the context of a new binder

## Main results

* `Alike.eq_of_le`: handles of a table and of a later one are alike only if they are equal
* `Grown.eq_of_le`: a table that only gets what an earlier one has stays as it is
* `Binder.bind_again`: an expression that is bound for the second time
* `Binder.ends_again`: the same with the table of names
-/

namespace UpdateExpr

/-! ## Tables that are complete -/

section Tables

variable {t t' t₀ t₁ : TypeTable} {a a' : TypeId} {e e' : BoundExpr}

/-- A table that grows by no handle stays as it is. -/
theorem TypeTable.eq_of_le (hle : t ≤ t')
    (h : ∀ a, (t'.shape? a).isSome → (t.shape? a).isSome) : t' = t := by
  have hshapes : t'.shapes = t.shapes := by
    refine Array.ext_getElem? fun i => ?_
    cases hs : t.shapes[i]? with
    | some shape =>
      have hknown : t.shape? ⟨i⟩ = some shape := hs
      exact TypeTable.shape?_of_le hle hknown
    | none =>
      by_contra hne
      have hsome : (t.shape? ⟨i⟩).isSome := h ⟨i⟩ (Option.isSome_iff_ne_none.2 hne)
      rw [TypeTable.shape?, hs] at hsome
      cases hsome
  cases t
  cases t'
  cases hshapes
  rfl

/-- **Handles of a table and of a later one are alike only if they are equal.** -/
theorem Alike.eq_of_le (hle : t ≤ t') (h : Alike (t, t') a a') : a' = a := by
  have htree : t'.expand a = t.expand a := h.left.expand_eq_of_le hle
  exact (h.right.expand_injective (h.left.mono hle) (h.tree.symm.trans htree.symm))

/-- **A table that only gets what an earlier one has stays as it is.** -/
theorem Grown.eq_of_le (h : Grown (t₀, t) (t, t')) : t' = t := by
  have hle : t ≤ t' := h.le.2
  refine TypeTable.eq_of_le hle fun a ha => ?_
  rcases h.right a ha with hknown | ⟨a₀, hlike⟩
  · exact hknown
  · obtain rfl := hlike.eq_of_le hle
    obtain ⟨shape, hs, -⟩ := hlike.left.shape?
    exact Option.isSome_of_eq_some hs

end Tables

/-! ## Expressions that are the same -/

theorem BoundInfo.rename_id (i : BoundInfo) : i.rename id = i := by
  rw [BoundInfo.rename, Option.map_id, id]

theorem Candidate.rename_id (c : Candidate) : c.rename id = c := by
  rw [Candidate.rename, List.map_id, id]

namespace BoundExpr

mutual

/-- Other types that are the same types. -/
theorem rename_id : ∀ e : BoundExpr, e.rename id = e
  | literal i value => by rw [rename, i.rename_id]
  | localVar i v => by rw [rename, i.rename_id]
  | field i r m => by rw [rename, i.rename_id, rename_id r]
  | property i r m => by rw [rename, i.rename_id, rename_id r]
  | methodGroup i r methods => by
    rw [rename, i.rename_id, rename_id r, List.map_congr_left fun c _ => c.rename_id, List.map_id']
  | call i r m => by rw [rename, i.rename_id, rename_id r]
  | conversion i o kind => by rw [rename, i.rename_id, rename_id o]
  | placeholder i => by rw [rename, i.rename_id]
  | assignment i l r => by rw [rename, i.rename_id, rename_id l, rename_id r]
  | update i r clone? entries failed => by
    rw [rename, i.rename_id, rename_id r, renameEntries_id entries]
  | bad i candidates es => by rw [rename, i.rename_id, renameAll_id es]

theorem renameAll_id : ∀ es : List BoundExpr, renameAll id es = es
  | [] => rfl
  | e :: es => by rw [renameAll, rename_id e, renameAll_id es]

theorem renameEntries_id :
    ∀ entries : List (Option MemberId × BoundExpr), renameEntries id entries = entries
  | [] => rfl
  | (m, e) :: entries => by rw [renameEntries, rename_id e, renameEntries_id entries]

end

end BoundExpr

/-- Expressions over a table and a later one are alike only if they are equal. -/
theorem LikeExprs.eq_of_le {t t' : TypeTable} {e e' : BoundExpr} (hle : t ≤ t')
    (h : LikeExprs (t, t') e e') : e' = e := by
  rw [h.eq_rename (f := id) fun a a' ha => ha.eq_of_le hle, e.rename_id]

/-! ## The second time -/

/-- The context of a new binder. -/
def BindContext.start (names : NameTable) (types : TypeTable) (file : String) : BindContext where
  names := names
  state := { types, bag := { file } }

namespace Binder

section Again

variable {b : Binder} {types : TypeTable} {s : BindState}

/-- **An expression that is bound for the second time**, with the types that the first time has
left, is the same expression, with the same diagnostics and no more types. -/
theorem bind_again (h : b.AllGood TypeTable.Interned s.types) (node : NodeRef) :
    b.bind node { s with types := (b.bind node s).2.types } = b.bind node s := by
  have hle : s.types ≤ (b.bind node s).2.types := (agree_bind (h.shared (le_refl _)) node).le.1
  have hshared : b.Shared (s.both { s with types := (b.bind node s).2.types }) :=
    h.shared ⟨le_refl _, hle⟩
  have hagree := agree_bind hshared node
  have hgrown : Grown (s.types, (b.bind node s).2.types) ((b.bind node s).2.types,
      (b.bind node { s with types := (b.bind node s).2.types }).2.types) := hagree.grown
  refine Prod.ext (hagree.post.eq_of_le hgrown.le.2) ?_
  have htypes := hgrown.eq_of_le
  have hbag := hagree.rest rfl
  exact congrArg₂ BindState.mk htypes hbag.symm

/-- **A second binder gives what the first one gave, and adds nothing**: from the types and the
names that the first one has left it ends with the same expression and in the same context, so with
the same diagnostics, types and names. -/
theorem ends_again (h : b.AllGood TypeTable.Interned types) (node : NodeRef) (names : NameTable)
    (file : String) :
    ∃ e c, b.Ends node (.start names types file) e c ∧
      b.Ends node (.start c.names c.state.types file) e c := by
  have hfirst := b.ends_bind node names { types, bag := { file } }
  have hagain := bind_again (s := { types, bag := { file } }) h node
  generalize b.bind node { types, bag := { file } } = r at hfirst hagain
  refine ⟨_, _, hfirst, ?_⟩
  have hsecond := b.ends_bind node (if r.1.asksClone then names.insert cloneName else names)
    { types := r.2.types, bag := { file } }
  rw [hagain] at hsecond
  have hnames : (if r.1.asksClone then
      (if r.1.asksClone then names.insert cloneName else names).insert cloneName
      else if r.1.asksClone then names.insert cloneName else names) =
        if r.1.asksClone then names.insert cloneName else names := by
    cases r.1.asksClone with
    | true => exact names.insert_insert cloneName
    | false => rfl
  rwa [hnames] at hsecond

/-- A text about the next object of a box, which has no clone method. -/
def boxBinder : Binder :=
  (⟨Compilation.boxSymbols, {}⟩ : Compilation).binder (parse "x.Next with \x7b \x7d")
    (Compilation.boxRequest "x" ⟨11⟩).scope

/-- The first binder brings two types and the name of clone methods, and it reports. -/
theorem ends_again_of_box :
    (let r := boxBinder.bind (some 3) ⟨Compilation.boxTypes, { file := "box.wex" }⟩;
      r.2.types.size = Compilation.boxTypes.size + 2 ∧ r.1.asksClone = true ∧
        r.2.bag.entries.map (·.code) = [Issue.noCloneMethod.code]) ∧
    boxBinder.AllGood TypeTable.Interned Compilation.boxTypes ∧
    ∃ e c, boxBinder.Ends (some 3) (.start .empty Compilation.boxTypes "box.wex") e c ∧
      boxBinder.Ends (some 3) (.start c.names c.state.types "box.wex") e c := by
  have hgood : boxBinder.AllGood TypeTable.Interned Compilation.boxTypes :=
    ⟨Compilation.allGood_boxSymbols, fun hv =>
      Compilation.interned_of_boxRequest (by decide) _ _ hv⟩
  exact ⟨by decide +kernel, hgood, ends_again hgood (some 3) .empty "box.wex"⟩

end Again

end Binder

end UpdateExpr
