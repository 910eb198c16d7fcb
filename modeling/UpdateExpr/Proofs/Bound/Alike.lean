import UpdateExpr.Bound.Expr
import UpdateExpr.Proofs.Symbol.AgreeLookup

/-!
# Bound expressions that mean the same

Two bound expressions are alike when they are built in the same way, from the same nodes, members
and values, with like types. Once the types of two tables are matched by a renaming, the one
expression is the other with its types renamed.

## Main definitions

* `LikeExprs`: two expressions are built in the same way, with like types
* `BoundExpr.rename`: an expression with other types

## Main results

* `LikeExprs.mono`: what is alike stays so while both tables grow
* `LikeExprs.eq_rename`: of two like expressions, the one is the other with its types renamed
-/

namespace UpdateExpr

/-- The same node and mark, with like types. -/
structure LikeInfos (w : Tables) (i i' : BoundInfo) : Prop where
  node : i.node = i'.node
  ty? : Option.Rel (Alike w) i.ty? i'.ty?
  hasErrors : i.hasErrors = i'.hasErrors

/-- Two expressions are built in the same way, with like types. -/
inductive LikeExprs (w : Tables) : BoundExpr → BoundExpr → Prop
  | literal {i i' : BoundInfo} {value : Constant} (hi : LikeInfos w i i') :
    LikeExprs w (.literal i value) (.literal i' value)
  | localVar {i i' : BoundInfo} {id : LocalId} (hi : LikeInfos w i i') :
    LikeExprs w (.localVar i id) (.localVar i' id)
  | field {i i' : BoundInfo} {r r' : BoundExpr} {m : MemberId} (hi : LikeInfos w i i')
    (hr : LikeExprs w r r') : LikeExprs w (.field i r m) (.field i' r' m)
  | property {i i' : BoundInfo} {r r' : BoundExpr} {m : MemberId} (hi : LikeInfos w i i')
    (hr : LikeExprs w r r') : LikeExprs w (.property i r m) (.property i' r' m)
  | methodGroup {i i' : BoundInfo} {r r' : BoundExpr} {methods methods' : List Candidate}
    (hi : LikeInfos w i i') (hr : LikeExprs w r r')
    (hm : List.Forall₂ (LikeCandidates w) methods methods') :
    LikeExprs w (.methodGroup i r methods) (.methodGroup i' r' methods')
  | call {i i' : BoundInfo} {r r' : BoundExpr} {m : MemberId} (hi : LikeInfos w i i')
    (hr : LikeExprs w r r') : LikeExprs w (.call i r m) (.call i' r' m)
  | conversion {i i' : BoundInfo} {o o' : BoundExpr} {kind : Conversion} (hi : LikeInfos w i i')
    (ho : LikeExprs w o o') : LikeExprs w (.conversion i o kind) (.conversion i' o' kind)
  | placeholder {i i' : BoundInfo} (hi : LikeInfos w i i') :
    LikeExprs w (.placeholder i) (.placeholder i')
  | assignment {i i' : BoundInfo} {l l' r r' : BoundExpr} (hi : LikeInfos w i i')
    (hl : LikeExprs w l l') (hr : LikeExprs w r r') :
    LikeExprs w (.assignment i l r) (.assignment i' l' r')
  | update {i i' : BoundInfo} {r r' : BoundExpr} {clone? : Option MemberId}
    {entries entries' : List (Option MemberId × BoundExpr)} {failed : Bool}
    (hi : LikeInfos w i i') (hr : LikeExprs w r r') (hl : entries.length = entries'.length)
    (hm : ∀ p ∈ entries.zip entries', p.1.1 = p.2.1)
    (he : ∀ p ∈ entries.zip entries', LikeExprs w p.1.2 p.2.2) :
    LikeExprs w (.update i r clone? entries failed) (.update i' r' clone? entries' failed)
  | bad {i i' : BoundInfo} {candidates : List MemberId} {es es' : List BoundExpr}
    (hi : LikeInfos w i i') (hl : es.length = es'.length)
    (he : ∀ p ∈ es.zip es', LikeExprs w p.1 p.2) :
    LikeExprs w (.bad i candidates es) (.bad i' candidates es')

section Alike

variable {w w' : Tables} {i i' : BoundInfo} {e e' : BoundExpr}

theorem LikeInfos.mono (h : LikeInfos w i i') (hle : w ≤ w') : LikeInfos w' i i' :=
  ⟨h.node, lasting_alike.maybe h.ty? hle, h.hasErrors⟩

/-- **What is alike stays so while both tables grow.** -/
theorem LikeExprs.mono (h : LikeExprs w e e') (hle : w ≤ w') : LikeExprs w' e e' := by
  induction h with
  | literal hi => exact .literal (hi.mono hle)
  | localVar hi => exact .localVar (hi.mono hle)
  | field hi _ ih => exact .field (hi.mono hle) ih
  | property hi _ ih => exact .property (hi.mono hle) ih
  | methodGroup hi _ hm ih =>
    exact .methodGroup (hi.mono hle) ih (lasting_likeCandidates.each hm hle)
  | call hi _ ih => exact .call (hi.mono hle) ih
  | conversion hi _ ih => exact .conversion (hi.mono hle) ih
  | placeholder hi => exact .placeholder (hi.mono hle)
  | assignment hi _ _ ihl ihr => exact .assignment (hi.mono hle) ihl ihr
  | update hi _ hl hm _ ihr ihe => exact .update (hi.mono hle) ihr hl hm ihe
  | bad hi hl _ ihe => exact .bad (hi.mono hle) hl ihe

/-! ## Parts of like expressions -/

theorem LikeExprs.info (h : LikeExprs w e e') : LikeInfos w e.info e'.info := by
  cases h <;> assumption

theorem LikeExprs.node_eq (h : LikeExprs w e e') : e.node = e'.node :=
  h.info.node

theorem LikeExprs.hasErrors_eq (h : LikeExprs w e e') : e.hasErrors = e'.hasErrors :=
  h.info.hasErrors

/-- Like expressions both have types, which are alike, or neither has one. -/
theorem LikeExprs.ty?_cases (h : LikeExprs w e e') : e.ty? = none ∧ e'.ty? = none ∨
    ∃ ty ty', e.ty? = some ty ∧ e'.ty? = some ty' ∧ Alike w ty ty' := by
  have hty := h.info.ty?
  rw [BoundExpr.ty?, BoundExpr.ty?]
  generalize e.info.ty? = x, e'.info.ty? = x' at hty
  cases hty with
  | none => exact .inl ⟨rfl, rfl⟩
  | some hty => exact .inr ⟨_, _, rfl, rfl, hty⟩

theorem LikeExprs.setInfo (h : LikeExprs w e e') (hi : LikeInfos w i i') :
    LikeExprs w (e.setInfo i) (e'.setInfo i') := by
  cases h with
  | literal => exact .literal hi
  | localVar => exact .localVar hi
  | field _ hr => exact .field hi hr
  | property _ hr => exact .property hi hr
  | methodGroup _ hr hm => exact .methodGroup hi hr hm
  | call _ hr => exact .call hi hr
  | conversion _ ho => exact .conversion hi ho
  | placeholder => exact .placeholder hi
  | assignment _ hl hr => exact .assignment hi hl hr
  | update _ hr hl hm he => exact .update hi hr hl hm he
  | bad _ hl he => exact .bad hi hl he

theorem LikeExprs.setNode (h : LikeExprs w e e') (node : NodeRef) :
    LikeExprs w (e.setNode node) (e'.setNode node) :=
  h.setInfo ⟨rfl, h.info.ty?, h.info.hasErrors⟩

theorem LikeExprs.addErrors (h : LikeExprs w e e') (faulty : Bool) :
    LikeExprs w (e.addErrors faulty) (e'.addErrors faulty) := by
  refine h.setInfo ⟨h.info.node, h.info.ty?, ?_⟩
  dsimp only
  rw [h.hasErrors_eq]

theorem LikeExprs.isNull_eq (h : LikeExprs w e e') : e.isNull = e'.isNull := by
  cases h with
  | @literal _ _ value _ => cases value <;> rfl
  | _ => rfl

theorem LikeExprs.symbol?_eq (h : LikeExprs w e e') : e.symbol? = e'.symbol? := by
  cases h with
  | methodGroup _ _ hm =>
    rw [BoundExpr.symbol?, BoundExpr.symbol?]
    cases hm with
    | nil => rfl
    | cons hc hm =>
      cases hm with
      | nil => exact congrArg some hc.member
      | cons _ _ => rfl
  | _ => rfl

/-- What could not be bound, with like parts. -/
theorem likeExprs_failure (w : Tables) (node : NodeRef) (candidates : List MemberId)
    {es es' : List BoundExpr} (h : List.Forall₂ (LikeExprs w) es es') :
    LikeExprs w (.failure node candidates es) (.failure node candidates es') :=
  .bad ⟨rfl, .some (alike_id w .error), rfl⟩ h.length_eq
    fun _ hp => (List.forall₂_iff_zip.1 h).2 hp

end Alike

/-! ## Renaming -/

/-- A candidate with other types. -/
def Candidate.rename (f : TypeId → TypeId) (c : Candidate) : Candidate where
  member := c.member
  ty := f c.ty
  params := c.params.map f

/-- Information with another type. -/
def BoundInfo.rename (f : TypeId → TypeId) (i : BoundInfo) : BoundInfo where
  node := i.node
  ty? := i.ty?.map f
  hasErrors := i.hasErrors

namespace BoundExpr

variable (f : TypeId → TypeId)

mutual

/-- An expression with other types. -/
def rename : BoundExpr → BoundExpr
  | literal i value => literal (i.rename f) value
  | localVar i id => localVar (i.rename f) id
  | field i r m => field (i.rename f) (rename r) m
  | property i r m => property (i.rename f) (rename r) m
  | methodGroup i r methods => methodGroup (i.rename f) (rename r) (methods.map (·.rename f))
  | call i r m => call (i.rename f) (rename r) m
  | conversion i o kind => conversion (i.rename f) (rename o) kind
  | placeholder i => placeholder (i.rename f)
  | assignment i l r => assignment (i.rename f) (rename l) (rename r)
  | update i r clone? entries failed =>
    update (i.rename f) (rename r) clone? (renameEntries entries) failed
  | bad i candidates es => bad (i.rename f) candidates (renameAll es)

/-- Some expressions with other types. -/
def renameAll : List BoundExpr → List BoundExpr
  | [] => []
  | e :: es => rename e :: renameAll es

/-- The entries of an update with other types. -/
def renameEntries : List (Option MemberId × BoundExpr) → List (Option MemberId × BoundExpr)
  | [] => []
  | (m, e) :: entries => (m, rename e) :: renameEntries entries

end

theorem renameAll_eq_map (es : List BoundExpr) : renameAll f es = es.map (rename f) := by
  induction es with
  | nil => rfl
  | cons e es ih => rw [renameAll, ih, List.map_cons]

theorem renameEntries_eq_map (entries : List (Option MemberId × BoundExpr)) :
    renameEntries f entries = entries.map fun entry => (entry.1, rename f entry.2) := by
  induction entries with
  | nil => rfl
  | cons entry entries ih => rw [renameEntries, ih, List.map_cons]

end BoundExpr

section Rename

variable {w : Tables} {f : TypeId → TypeId} {e e' : BoundExpr} {i i' : BoundInfo}

theorem LikeInfos.eq_rename (hf : ∀ a a', Alike w a a' → a' = f a) (h : LikeInfos w i i') :
    i' = i.rename f := by
  obtain ⟨node, ty?, hasErrors⟩ := i
  obtain ⟨node', ty?', hasErrors'⟩ := i'
  obtain rfl : node = node' := h.node
  obtain rfl : hasErrors = hasErrors' := h.hasErrors
  have hty : Option.Rel (Alike w) ty? ty?' := h.ty?
  cases hty with
  | none => rfl
  | some hty => rw [hf _ _ hty]; rfl

theorem LikeCandidates.eq_rename (hf : ∀ a a', Alike w a a' → a' = f a) {c c' : Candidate}
    (h : LikeCandidates w c c') : c' = c.rename f := by
  obtain ⟨member, ty, params⟩ := c
  obtain ⟨member', ty', params'⟩ := c'
  obtain rfl : member = member' := h.member
  obtain rfl : ty' = f ty := hf _ _ h.ty
  obtain rfl : params' = params.map f := eq_map_of_rel h.params hf
  rfl

/-- **Of two like expressions, the one is the other with its types renamed.** -/
theorem LikeExprs.eq_rename (hf : ∀ a a', Alike w a a' → a' = f a) (h : LikeExprs w e e') :
    e' = e.rename f := by
  induction h with
  | literal hi => rw [hi.eq_rename hf]; rfl
  | localVar hi => rw [hi.eq_rename hf]; rfl
  | field hi _ ih => rw [hi.eq_rename hf, ih]; rfl
  | property hi _ ih => rw [hi.eq_rename hf, ih]; rfl
  | methodGroup hi _ hm ih =>
    rw [hi.eq_rename hf, ih, eq_map_of_rel hm fun _ _ hc => hc.eq_rename hf]
    rfl
  | call hi _ ih => rw [hi.eq_rename hf, ih]; rfl
  | conversion hi _ ih => rw [hi.eq_rename hf, ih]; rfl
  | placeholder hi => rw [hi.eq_rename hf]; rfl
  | assignment hi _ _ ihl ihr => rw [hi.eq_rename hf, ihl, ihr]; rfl
  | @update _ _ _ _ _ entries entries' _ hi _ hl hm _ ihr ihe =>
    have hentries : entries' = BoundExpr.renameEntries f entries := by
      have hrel : List.Forall₂ (fun p p' => p.1 = p'.1 ∧ p'.2 = p.2.rename f) entries entries' :=
        List.forall₂_iff_zip.2 ⟨hl, fun hp => ⟨hm _ hp, ihe _ hp⟩⟩
      rw [BoundExpr.renameEntries_eq_map]
      refine eq_map_of_rel hrel ?_
      rintro ⟨m, e⟩ ⟨m', e'⟩ ⟨rfl, he⟩
      exact Prod.ext rfl he
    rw [hi.eq_rename hf, ihr, hentries]
    rfl
  | @bad _ _ _ es es' hi hl _ ihe =>
    have hes : es' = BoundExpr.renameAll f es := by
      have hrel : List.Forall₂ (fun e e' => e' = e.rename f) es es' :=
        List.forall₂_iff_zip.2 ⟨hl, fun hp => ihe _ hp⟩
      rw [BoundExpr.renameAll_eq_map]
      exact eq_map_of_rel hrel fun _ _ he => he
    rw [hi.eq_rename hf, hes]
    rfl

end Rename

end UpdateExpr
