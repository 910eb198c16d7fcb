import UpdateExpr.Proofs.Ty.Alike

/-!
# Types in normal form

Where types are asked for one after another, each built from types that are there already, all of
them are in normal form. The tree of such a type ends in intrinsic types, definitions and
parameters. A definition is applied to arguments only where there are some, and `null` is added at
most once at each place, and never to the error type.

## Main definitions

* `Ty.addNull`: a tree with `null` added, where it can be
* `Ty.Normal`, `TypeTable.Normal`: a tree, and a type, in normal form
* `TypeTable.Made`: a table that was made by asking for types

## Main results

* `Ty.ind`: induction on trees
* `TypeTable.Normal.interned`: a type in normal form is built from known handles
* `TypeTable.Normal.mono`: a type stays in normal form while the table grows
* `TypeTable.Made.normal`: all types of a table that was made so are in normal form
-/

namespace UpdateExpr

namespace Ty

/-- What holds of a tree wherever it holds of its parts holds of all trees. -/
@[elab_as_elim]
theorem ind {P : Ty → Prop} (unknown : ∀ ty, P (.unknown ty)) (intrinsic : ∀ k, P (.intrinsic k))
    (plain : ∀ d, P (.plain d)) (applied : ∀ d args, (∀ arg ∈ args, P arg) → P (.applied d args))
    (parameter : ∀ owner index, P (.parameter owner index))
    (nullable : ∀ inner, P inner → P (.nullable inner)) (ty : Ty) : P ty :=
  @Ty.rec P (fun args => ∀ arg ∈ args, P arg) unknown intrinsic plain applied parameter nullable
    nofun (fun _ _ h hs => List.forall_mem_cons.2 ⟨h, hs⟩) ty

/-- Whether `null` can be added to a tree: not to the error type, and not a second time. -/
def takesNull : Ty → Bool
  | .intrinsic .error | .nullable _ => false
  | _ => true

/-- A tree with `null` added, where it can be. -/
def addNull (ty : Ty) : Ty :=
  if ty.takesNull then .nullable ty else ty

/-- A tree in normal form. -/
inductive Normal : Ty → Prop
  | intrinsic (k : Intrinsic) : Normal (.intrinsic k)
  | plain (d : DefId) : Normal (.plain d)
  | applied (d : DefId) {args : List Ty} (hne : args ≠ []) (h : ∀ arg ∈ args, Normal arg) :
    Normal (.applied d args)
  | parameter (owner : DefId) (index : Nat) : Normal (.parameter owner index)
  | nullable {inner : Ty} (h : Normal inner) (hn : inner.takesNull = true) :
    Normal (.nullable inner)

theorem addNull_of_takesNull {ty : Ty} (h : ty.takesNull = true) : ty.addNull = .nullable ty :=
  if_pos h

/-- To add `null` twice is to add it once. -/
@[simp] theorem addNull_addNull (ty : Ty) : ty.addNull.addNull = ty.addNull := by
  cases h : ty.takesNull with
  | true =>
    rw [addNull_of_takesNull h]
    rfl
  | false =>
    have hsame : ty.addNull = ty := if_neg (ne_true_of_eq_false h)
    rw [hsame, hsame]

theorem Normal.addNull {ty : Ty} (h : ty.Normal) : ty.addNull.Normal := by
  unfold Ty.addNull
  split
  · next hn => exact .nullable h hn
  · exact h

end Ty

namespace TypeTable

/-- The tree of a type is in normal form. -/
def Normal (t : TypeTable) (ty : TypeId) : Prop :=
  (t.expand ty).Normal

/-- A table that was made by asking for types, each of them built from types that it held then. -/
inductive Made : TypeTable → Prop
  | empty : Made {}
  | plain {t : TypeTable} (ht : Made t) (d : DefId) : Made (plain d t).2
  | applied {t : TypeTable} (ht : Made t) (d : DefId) {args : List TypeId}
    (h : ∀ arg ∈ args, arg.index < t.size) : Made (applied d args t).2
  | parameter {t : TypeTable} (ht : Made t) (owner : DefId) (index : Nat) :
    Made (parameter owner index t).2
  | nullable {t : TypeTable} (ht : Made t) {ty : TypeId} (h : ty.index < t.size) :
    Made (nullable ty t).2

variable {t t' : TypeTable} {ty : TypeId} {shape : TypeShape}

/-! ## Parts -/

theorem normal_of_normal_tree {f : TypeId → Ty} (h : (shape.tree f).Normal) :
    ∀ part ∈ shape.parts, (f part).Normal := by
  cases shape with
  | applied d args =>
    cases h with
    | applied _ _ h => exact fun part hp => h _ (List.mem_map_of_mem hp)
  | nullable inner =>
    cases h with
    | nullable h _ => exact List.forall_mem_singleton.2 h
  | _ => exact nofun

theorem within_of_normal {n : Nat} (h : (t.expandTo n ty).Normal) : t.Within n ty := by
  induction n generalizing ty with
  | zero => cases h
  | succ n ih =>
    cases hs : t.shape? ty with
    | none =>
      rw [expandTo, hs] at h
      cases h
    | some shape =>
      rw [expandTo_succ hs] at h
      exact ⟨shape, hs, fun part hp => ih (normal_of_normal_tree h part hp)⟩

/-- **A type in normal form is built from known handles.** -/
theorem Normal.interned (h : t.Normal ty) : t.Interned ty :=
  (within_of_normal h).interned

theorem Normal.parts (h : t.Normal ty) (hs : t.shape? ty = some shape) :
    ∀ part ∈ shape.parts, t.Normal part := by
  have htree : (t.expand ty).Normal := h
  rw [h.interned.expand_eq hs] at htree
  exact normal_of_normal_tree htree

/-- **A type stays in normal form while the table grows.** -/
theorem Normal.mono (h : t.Normal ty) (hle : t ≤ t') : t'.Normal ty := by
  unfold Normal
  rw [h.interned.expand_eq_of_le hle]
  exact h

theorem expand_id (t : TypeTable) (k : Intrinsic) : t.expand k.id = .intrinsic k := by
  have hs := t.shape?_id k
  have hk : t.Interned k.id := .intro hs nofun
  exact hk.expand_eq hs

theorem normal_id (t : TypeTable) (k : Intrinsic) : t.Normal k.id := by
  unfold Normal
  rw [expand_id]
  exact .intrinsic k

theorem expand_of_plain {d : DefId} (hs : t.shape? ty = some (.plain d)) :
    t.expand ty = .plain d := by
  have hinterned : t.Interned ty := .intro hs nofun
  exact hinterned.expand_eq hs

/-! ## Asking for types -/

/-- The tree of the handle of a shape is that of the shape. -/
theorem expand_intern (shape : TypeShape) (hp : ∀ part ∈ shape.parts, t.Interned part) :
    (intern shape t).2.Interned (intern shape t).1 ∧
      (intern shape t).2.expand (intern shape t).1 = shape.tree t.expand := by
  have hle := le_intern t shape
  have hi : (intern shape t).2.Interned (intern shape t).1 :=
    .intro (shape?_intern t shape) fun part hpart => (hp part hpart).mono hle
  refine ⟨hi, ?_⟩
  rw [hi.expand_eq (shape?_intern t shape)]
  exact TypeShape.tree_congr fun part hpart => (hp part hpart).expand_eq_of_le hle

theorem expand_applied (d : DefId) {args : List TypeId} (hne : args ≠ [])
    (h : ∀ arg ∈ args, t.Interned arg) :
    (applied d args t).2.expand (applied d args t).1 = .applied d (args.map t.expand) := by
  cases args with
  | nil => exact absurd rfl hne
  | cons arg args => exact (expand_intern (.applied d (arg :: args)) h).2

/-- Whether `null` can be added shows in the table just as in the tree. -/
theorem takesNull_expand (h : t.Normal ty) :
    (ty.isError || (t.nullableInner? ty).isSome) = !(t.expand ty).takesNull := by
  obtain ⟨shape, hs, -⟩ := h.interned.shape?
  have herror : ty.isError = true ↔ shape = .intrinsic .error := by
    rw [TypeId.isError, beq_iff_eq]
    constructor
    · rintro rfl
      exact Option.some.inj (hs.symm.trans (t.shape?_id .error))
    · rintro rfl
      exact shape?_injective hs (t.shape?_id .error)
  rw [Bool.eq_iff_iff, Bool.or_eq_true, herror, h.interned.expand_eq hs, nullableInner?, hs]
  cases shape with
  | intrinsic k => cases k <;> simp [TypeShape.tree, Ty.takesNull]
  | _ => simp [TypeShape.tree, Ty.takesNull]

theorem expand_nullable (h : t.Normal ty) :
    (nullable ty t).2.expand (nullable ty t).1 = (t.expand ty).addNull := by
  unfold nullable Ty.addNull
  rw [takesNull_expand h]
  cases (t.expand ty).takesNull with
  | true =>
    exact (expand_intern (.nullable ty) (List.forall_mem_singleton.2 h.interned)).2
  | false => rfl

/-! ## Tables that were made -/

/-- A table whose types are in normal form keeps this with a shape whose tree is in normal form. -/
theorem normal_intern (h : ∀ ty : TypeId, ty.index < t.size → t.Normal ty)
    (hs : (shape.tree t.expand).Normal) :
    ∀ ty : TypeId, ty.index < (intern shape t).2.size → (intern shape t).2.Normal ty := by
  intro ty hlt
  have hnew : (intern shape t).2.Normal (intern shape t).1 := by
    have hparts : ∀ part ∈ shape.parts, t.Normal part := normal_of_normal_tree hs
    unfold Normal
    rw [(expand_intern shape fun part hp => (hparts part hp).interned).2]
    exact hs
  have hle := le_intern t shape
  rcases intern_cases t shape with ⟨ty', -, he⟩ | ⟨hnot, he⟩
  · rw [he] at hlt ⊢
    exact h ty hlt
  · rw [he] at hlt hnew hle ⊢
    by_cases hold : ty.index < t.size
    · exact (h ty hold).mono hle
    · have hsize : (t.push shape hnot).size = t.size + 1 := Array.size_push _
      have hlast : ty.index = t.size := by
        dsimp only at hlt
        omega
      obtain rfl : ty = ⟨t.size⟩ := congrArg TypeId.mk hlast
      exact hnew

/-- **All types of a table that was made by asking for types are in normal form.** -/
theorem Made.normal (ht : t.Made) : ∀ ty : TypeId, ty.index < t.size → t.Normal ty := by
  induction ht with
  | empty =>
    intro ty hlt
    obtain ⟨k, rfl⟩ := isIntrinsic_iff.1 (decide_eq_true hlt)
    exact normal_id _ k
  | plain _ d ih => exact normal_intern ih (.plain d)
  | @applied t _ d args h ih =>
    cases args with
    | nil => exact normal_intern ih (.plain d)
    | cons arg args =>
      refine normal_intern ih (.applied d (List.cons_ne_nil _ _) ?_)
      exact List.forall_mem_map.2 fun x hx => ih x (h x hx)
  | parameter _ owner index ih => exact normal_intern ih (.parameter owner index)
  | @nullable t _ ty h ih =>
    have htakes := takesNull_expand (ih ty h)
    unfold TypeTable.nullable
    split
    · exact ih
    · next hno =>
      refine normal_intern ih (.nullable (ih ty h) ?_)
      rw [htakes, Bool.not_eq_true', Bool.not_eq_false] at hno
      exact hno

end TypeTable

end UpdateExpr
