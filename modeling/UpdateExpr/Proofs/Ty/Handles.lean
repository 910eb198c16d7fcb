import UpdateExpr.Proofs.Ty.Normal

/-!
# Handles are canonical

Types are asked for one after another, each built from intrinsic types and from handles that were
got before. A handle is then as good as the type itself: the handles are numbered in the order of
first use, none is given a second meaning, and two of them are equal exactly if the types are that
they stand for, with all their parts written out. `null` is added at most once and not to the error
type, and nothing is applied to no arguments.

## Main definitions

* `TypeRequest`: a request for a type
* `TypeRequest.runAll`: some requests, one after another, from the intrinsic types on
* `TypeRequest.Grounded`: requests that are built from what was got before
* `TypeTable.Stores`: what a table may hold

## Main results

* `TypeRequest.run_cases`: a request gets a handle that is there, or the next one
* `TypeRequest.eraseDups_runAll`: handles are numbered in the order of first use
* `handles_canonical`: what handles tell of types
-/

namespace UpdateExpr

/-- A request for a type. -/
inductive TypeRequest where
  | plain (definition : DefId)
  | applied (definition : DefId) (args : List TypeId)
  | parameter (owner : DefId) (index : Nat)
  | nullable (inner : TypeId)
  deriving DecidableEq, Repr

namespace TypeRequest

/-- The handles that a request is built from. -/
def parts : TypeRequest → List TypeId
  | applied _ args => args
  | nullable inner => [inner]
  | plain _ | parameter _ _ => []

/-- The handle that a request gets. -/
def run : TypeRequest → TypeM TypeId
  | plain d => TypeTable.plain d
  | applied d args => TypeTable.applied d args
  | parameter owner index => TypeTable.parameter owner index
  | nullable inner => TypeTable.nullable inner

/-- The tree of the type that is asked for, from the trees of its parts. -/
def tree (f : TypeId → Ty) : TypeRequest → Ty
  | plain d => .plain d
  | applied d args => if args = [] then .plain d else .applied d (args.map f)
  | parameter owner index => .parameter owner index
  | nullable inner => (f inner).addNull

/-- The handles that some requests get, one after another, and the table that they leave; it holds
the intrinsic types at first. -/
def runAll (requests : List TypeRequest) : List TypeId × TypeTable :=
  requests.mapM run {}

/-- Each request is built from intrinsic types and from handles that requests before it got. -/
inductive Grounded : List TypeRequest → Prop
  | nil : Grounded []
  | snoc {requests : List TypeRequest} {request : TypeRequest} (h : Grounded requests)
    (hp : ∀ part ∈ request.parts, part.isIntrinsic = true ∨ part ∈ (runAll requests).1) :
    Grounded (requests ++ [request])

end TypeRequest

/-- A table may hold a shape: `null` is added to a type that takes it, and a definition is applied
to some arguments. -/
def TypeTable.Stores (t : TypeTable) : TypeShape → Prop
  | .nullable inner => inner ≠ .error ∧ t.nullableInner? inner = none
  | .applied _ args => args ≠ []
  | .intrinsic _ | .plain _ | .parameter _ _ => True

section Handles

variable {t t' : TypeTable} {a b ty : TypeId} {shape : TypeShape} {f g : TypeId → Ty}
  {request : TypeRequest} {requests : List TypeRequest}

/-! ## Shapes and handles -/

/-- **To ask for a shape gets the handle that leads to it**, if there is one, and adds nothing. -/
theorem intern_eq_iff : TypeTable.intern shape t = (ty, t) ↔ t.shape? ty = some shape := by
  constructor
  · intro h
    have hshape := TypeTable.shape?_intern t shape
    rwa [h] at hshape
  · exact TypeTable.intern_of_shape?

theorem isSome_shape?_iff : (t.shape? ty).isSome ↔ ty.index < t.size := by
  constructor
  · intro h
    obtain ⟨shape, hs⟩ := Option.isSome_iff_exists.1 h
    exact TypeTable.index_lt_size hs
  · intro h
    rw [TypeTable.shape?, Array.getElem?_eq_getElem h]
    rfl

theorem index_lt_size_of_isIntrinsic (h : a.isIntrinsic = true) : a.index < t.size := by
  have hlt : a.index < 8 := of_decide_eq_true h
  exact hlt.trans_le t.eight_le_size

/-- What is built from handles that were there before has a larger one. -/
theorem index_lt_of_intern (hp : ∀ part ∈ shape.parts, part.index < t.size)
    (h : ∀ {ty s}, t.shape? ty = some s → ∀ part ∈ s.parts, part.index < ty.index)
    {s : TypeShape} (hs : (TypeTable.intern shape t).2.shape? ty = some s) :
    ∀ part ∈ s.parts, part.index < ty.index := by
  by_cases hold : ty.index < t.size
  · rw [TypeTable.shape?_intern_of_lt hold] at hs
    exact h hs
  · rcases TypeTable.shape?_intern_cases hs with hs' | rfl
    · exact absurd (TypeTable.index_lt_size hs') hold
    · intro part hpart
      exact (hp part hpart).trans_le (Nat.le_of_not_lt hold)

/-- **The parts of a type were there before it.** -/
theorem TypeTable.Made.index_lt_of_mem_parts (ht : t.Made) (hs : t.shape? ty = some shape) :
    ∀ part ∈ shape.parts, part.index < ty.index := by
  induction ht generalizing ty shape with
  | empty =>
    obtain ⟨k, rfl⟩ := isIntrinsic_iff.1 (decide_eq_true (TypeTable.index_lt_size hs))
    rw [TypeTable.shape?_id] at hs
    cases hs
    exact List.forall_mem_nil _
  | plain _ d ih => exact index_lt_of_intern (List.forall_mem_nil _) (fun h => ih h) hs
  | @applied t _ d args h ih =>
    cases args with
    | nil => exact index_lt_of_intern (List.forall_mem_nil _) (fun h => ih h) hs
    | cons arg args =>
      have hparts : ∀ part ∈ (TypeShape.applied d (arg :: args)).parts, part.index < t.size := h
      exact index_lt_of_intern hparts (fun h => ih h) hs
  | parameter _ owner index ih =>
    exact index_lt_of_intern (List.forall_mem_nil _) (fun h => ih h) hs
  | @nullable t _ inner h ih =>
    unfold TypeTable.nullable at hs
    split at hs
    · exact ih hs
    · refine index_lt_of_intern ?_ (fun h => ih h) hs
      exact List.forall_mem_singleton.2 h

/-- **What a table holds that was made by asking for types.** -/
theorem TypeTable.Made.stores (ht : t.Made) (hs : t.shape? ty = some shape) : t.Stores shape := by
  have hnormal := ht.normal ty (TypeTable.index_lt_size hs)
  have htree : (t.expand ty).Normal := hnormal
  rw [hnormal.interned.expand_eq hs] at htree
  cases shape with
  | applied d args =>
    cases htree with
    | applied _ hne _ =>
      rintro rfl
      exact hne rfl
  | nullable inner =>
    cases htree with
    | nullable hinner htakes =>
      have hno := TypeTable.takesNull_expand hinner
      rw [htakes, Bool.not_true, Bool.or_eq_false_iff] at hno
      refine ⟨?_, Option.not_isSome_iff_eq_none.1 (by simp [hno.2])⟩
      rintro rfl
      simp at hno
  | _ => trivial

/-! ## One request -/

namespace TypeRequest

/-- **A request gets a handle that is there, or the next one.** -/
theorem run_cases (hp : ∀ part ∈ request.parts, part.index < t.size) :
    (request.run t).2 = t ∧ (request.run t).1.index < t.size ∨
      (request.run t).1 = ⟨t.size⟩ ∧ (request.run t).2.size = t.size + 1 := by
  have hintern : ∀ shape, (TypeTable.intern shape t).2 = t ∧
      (TypeTable.intern shape t).1.index < t.size ∨ (TypeTable.intern shape t).1 = ⟨t.size⟩ ∧
        (TypeTable.intern shape t).2.size = t.size + 1 := by
    intro shape
    rcases TypeTable.intern_cases t shape with ⟨ty, hs, he⟩ | ⟨hnew, he⟩
    · rw [he]
      exact .inl ⟨rfl, TypeTable.index_lt_size hs⟩
    · rw [he]
      exact .inr ⟨rfl, Array.size_push _⟩
  cases request with
  | plain d => exact hintern _
  | applied d args => cases args <;> exact hintern _
  | parameter owner index => exact hintern _
  | nullable inner =>
    show (TypeTable.nullable inner t).2 = t ∧ (TypeTable.nullable inner t).1.index < t.size ∨
      (TypeTable.nullable inner t).1 = ⟨t.size⟩ ∧ (TypeTable.nullable inner t).2.size = t.size + 1
    unfold TypeTable.nullable
    split
    · exact .inl ⟨rfl, hp inner (List.mem_singleton_self _)⟩
    · exact hintern _

theorem le_run (request : TypeRequest) (t : TypeTable) : t ≤ (request.run t).2 := by
  cases request with
  | plain d => exact TypeTable.le_intern t _
  | applied d args => cases args <;> exact TypeTable.le_intern t _
  | parameter owner index => exact TypeTable.le_intern t _
  | nullable inner =>
    show t ≤ (TypeTable.nullable inner t).2
    unfold TypeTable.nullable
    split
    · exact le_refl t
    · exact TypeTable.le_intern t _

theorem made_run (ht : t.Made) (hp : ∀ part ∈ request.parts, part.index < t.size) :
    (request.run t).2.Made := by
  cases request with
  | plain d => exact ht.plain d
  | applied d args => exact ht.applied d hp
  | parameter owner index => exact ht.parameter owner index
  | nullable inner => exact ht.nullable (hp inner (List.mem_singleton_self _))

theorem tree_congr (h : ∀ part ∈ request.parts, f part = g part) :
    request.tree f = request.tree g := by
  cases request with
  | applied d args =>
    have hargs : args.map f = args.map g := List.map_congr_left h
    simp only [tree, hargs]
  | nullable inner => exact congrArg Ty.addNull (h inner (List.mem_singleton_self _))
  | _ => rfl

/-- **A request gets the handle of the type that is asked for.** -/
theorem expand_run (hp : ∀ part ∈ request.parts, t.Normal part) :
    (request.run t).2.expand (request.run t).1 = request.tree t.expand := by
  cases request with
  | plain d => exact (TypeTable.expand_intern (.plain d) nofun).2
  | applied d args =>
    by_cases hnil : args = []
    · subst hnil
      exact (TypeTable.expand_intern (.plain d) nofun).2
    · rw [tree, if_neg hnil]
      exact TypeTable.expand_applied d hnil fun arg harg => (hp arg harg).interned
  | parameter owner index => exact (TypeTable.expand_intern (.parameter owner index) nofun).2
  | nullable inner => exact TypeTable.expand_nullable (hp inner (List.mem_singleton_self _))

/-! ## Requests one after another -/

theorem runAll_append (requests more : List TypeRequest) :
    runAll (requests ++ more) = ((runAll requests).1 ++ (more.mapM run (runAll requests).2).1,
      (more.mapM run (runAll requests).2).2) := by
  unfold runAll
  rw [List.mapM_append]
  rfl

theorem runAll_snoc (requests : List TypeRequest) (request : TypeRequest) :
    runAll (requests ++ [request]) = ((runAll requests).1 ++ [(request.run (runAll requests).2).1],
      (request.run (runAll requests).2).2) := by
  rw [runAll_append]
  rfl

theorem le_mapM_run (requests : List TypeRequest) (t : TypeTable) :
    t ≤ (requests.mapM run t).2 := by
  induction requests generalizing t with
  | nil => exact le_refl t
  | cons request requests ih =>
    rw [List.mapM_cons]
    exact (le_run request t).trans (ih _)

theorem length_runAll (requests : List TypeRequest) :
    (runAll requests).1.length = requests.length := by
  induction requests using List.reverseRecOn with
  | nil => rfl
  | append_singleton requests request ih =>
    rw [runAll_snoc, List.length_append, List.length_append, ih]
    rfl

/-- Whatever is asked for later, the handles that were got stay, and so does their meaning. -/
theorem runAll_take (requests : List TypeRequest) (n : Nat) :
    (runAll (requests.take n)).1 = (runAll requests).1.take n ∧
      (runAll (requests.take n)).2 ≤ (runAll requests).2 := by
  have hsplit := runAll_append (requests.take n) (requests.drop n)
  rw [List.take_append_drop] at hsplit
  rw [hsplit]
  refine ⟨?_, le_mapM_run _ _⟩
  by_cases hn : n ≤ requests.length
  · have hlength : (runAll (requests.take n)).1.length = n := by
      rw [length_runAll, List.length_take, Nat.min_eq_left hn]
    exact (List.take_left' hlength).symm
  · have hall := Nat.le_of_not_le hn
    rw [List.drop_eq_nil_of_le hall, List.take_of_length_le hall]
    show _ = ((runAll requests).1 ++ []).take n
    rw [List.append_nil, List.take_of_length_le ((length_runAll requests).trans_le hall)]

/-- All handles that grounded requests get, and all that they are built from, are there. -/
theorem Grounded.index_lt (h : Grounded requests) :
    (∀ ty ∈ (runAll requests).1, ty.index < (runAll requests).2.size) ∧
      (runAll requests).2.Made := by
  induction h with
  | nil => exact ⟨nofun, .empty⟩
  | @snoc requests request _ hp ih =>
    obtain ⟨hgiven, hmade⟩ := ih
    have hparts : ∀ part ∈ request.parts, part.index < (runAll requests).2.size := by
      intro part hpart
      rcases hp part hpart with hi | hg
      · exact index_lt_size_of_isIntrinsic hi
      · exact hgiven part hg
    rw [runAll_snoc]
    refine ⟨?_, made_run hmade hparts⟩
    have hsize := TypeTable.size_le_of_le (le_run request (runAll requests).2)
    rw [List.forall_mem_append, List.forall_mem_singleton]
    refine ⟨fun ty hty => (hgiven ty hty).trans_le hsize, ?_⟩
    rcases run_cases hparts with ⟨-, hlt⟩ | ⟨hnext, hmore⟩
    · exact hlt.trans_le hsize
    · rw [hnext, hmore]
      exact Nat.lt_succ_self _

theorem Grounded.parts_lt (h : Grounded requests)
    (hp : ∀ part ∈ request.parts, part.isIntrinsic = true ∨ part ∈ (runAll requests).1) :
    ∀ part ∈ request.parts, part.index < (runAll requests).2.size := by
  intro part hpart
  rcases hp part hpart with hi | hg
  · exact index_lt_size_of_isIntrinsic hi
  · exact h.index_lt.1 part hg

/-- What some requests are built from is there when they were made. -/
theorem Grounded.index_lt_of_mem_parts (h : Grounded requests) :
    ∀ request ∈ requests, ∀ part ∈ request.parts, part.index < (runAll requests).2.size := by
  induction h with
  | nil => exact nofun
  | @snoc requests request h hp ih =>
    have hsize := TypeTable.size_le_of_le (le_run request (runAll requests).2)
    rw [runAll_snoc, List.forall_mem_append, List.forall_mem_singleton]
    exact ⟨fun earlier hmem part hpart => (ih earlier hmem part hpart).trans_le hsize,
      fun part hpart => (h.parts_lt hp part hpart).trans_le hsize⟩

/-- **Handles are numbered in the order of first use**, on from those of the intrinsic types. -/
theorem Grounded.eraseDups_runAll (h : Grounded requests) :
    ((runAll requests).1.filter (!·.isIntrinsic)).eraseDups =
      (List.range' 8 ((runAll requests).2.size - 8)).map TypeId.mk := by
  induction h with
  | nil => rfl
  | @snoc requests request h hp ih =>
    have hsize := (runAll requests).2.eight_le_size
    rw [runAll_snoc, List.filter_append, List.eraseDups_append]
    rcases run_cases (h.parts_lt hp) with ⟨hsame, hlt⟩ | ⟨hnext, hmore⟩
    · have hgot : (request.run (runAll requests).2).1.isIntrinsic = false →
          (request.run (runAll requests).2).1 ∈ (runAll requests).1.filter (!·.isIntrinsic) := by
        intro hno
        have h8 : 8 ≤ (request.run (runAll requests).2).1.index :=
          Nat.le_of_not_lt (of_decide_eq_false hno)
        rw [← List.mem_eraseDups, ih]
        refine List.mem_map.2 ⟨_, List.mem_range'_1.2 ⟨h8, ?_⟩, rfl⟩
        omega
      rw [hsame, ih]
      cases hi : (request.run (runAll requests).2).1.isIntrinsic with
      | true => simp [hi]
      | false => simp [hi, List.removeAll, List.mem_filter.1 (hgot hi)]
    · have hno : (⟨(runAll requests).2.size⟩ : TypeId).isIntrinsic = false :=
        decide_eq_false (Nat.not_lt.2 hsize)
      have hfresh : (⟨(runAll requests).2.size⟩ : TypeId) ∉ (runAll requests).1 := fun hmem =>
        Nat.lt_irrefl _ (h.index_lt.1 _ hmem)
      have hlength : (runAll requests).2.size + 1 - 8 = (runAll requests).2.size - 8 + 1 := by omega
      have hlast : 8 + ((runAll requests).2.size - 8) = (runAll requests).2.size := by omega
      rw [hnext, hmore, ih, hlength, List.range'_1_concat, List.map_append, hlast]
      simp [hno, List.removeAll, hfresh, List.eraseDups_cons]

/-- **The handles that are got are those of the types that are asked for**, each with all its parts
written out. -/
theorem Grounded.map_expand_runAll (h : Grounded requests) :
    (runAll requests).1.map (runAll requests).2.expand =
      requests.map (tree (runAll requests).2.expand) := by
  induction h with
  | nil => rfl
  | @snoc requests request h hp ih =>
    have hnormal := h.index_lt.2.normal
    have hle := le_run request (runAll requests).2
    have hkeep : ∀ ty : TypeId, ty.index < (runAll requests).2.size →
        (request.run (runAll requests).2).2.expand ty = (runAll requests).2.expand ty :=
      fun ty hlt => (hnormal ty hlt).interned.expand_eq_of_le hle
    have hold : (runAll requests).1.map (request.run (runAll requests).2).2.expand =
        requests.map (tree (request.run (runAll requests).2).2.expand) := by
      rw [List.map_congr_left fun ty hty => hkeep ty (h.index_lt.1 ty hty), ih]
      refine List.map_congr_left fun earlier hmem => tree_congr fun part hpart => ?_
      exact (hkeep part (h.index_lt_of_mem_parts earlier hmem part hpart)).symm
    have hnew : (request.run (runAll requests).2).2.expand (request.run (runAll requests).2).1 =
        request.tree (request.run (runAll requests).2).2.expand := by
      rw [expand_run fun part hpart => hnormal part (h.parts_lt hp part hpart)]
      exact tree_congr fun part hpart => (hkeep part (h.parts_lt hp part hpart)).symm
    rw [runAll_snoc, List.map_append, List.map_append, hold, List.map_singleton, hnew]
    rfl

end TypeRequest

end Handles

/-- **Handles are canonical.** After any requests, each built from intrinsic types and from handles
got before: to ask for a shape gets the handle that leads to it, and all handles below the size of
the table lead to one. Those that are not intrinsic are numbered from the eighth on in the order of
first use, each stands for the type that was asked for, and what was got before some of the requests
stays as it was. A shape has parts that are older than its handle, `null` is added only to a type
that takes it, nothing is applied to no arguments, and two handles are equal exactly if their types
are, written out in full. -/
theorem handles_canonical {requests : List TypeRequest} (h : TypeRequest.Grounded requests) :
    let given := (TypeRequest.runAll requests).1
    let t := (TypeRequest.runAll requests).2
    (∀ shape ty, TypeTable.intern shape t = (ty, t) ↔ t.shape? ty = some shape) ∧
    (∀ ty, (t.shape? ty).isSome ↔ ty.index < t.size) ∧
    8 ≤ t.size ∧
    (given.filter (!·.isIntrinsic)).eraseDups = (List.range' 8 (t.size - 8)).map TypeId.mk ∧
    given.map t.expand = requests.map (TypeRequest.tree t.expand) ∧
    (∀ n, (TypeRequest.runAll (requests.take n)).1 = given.take n ∧
      (TypeRequest.runAll (requests.take n)).2 ≤ t) ∧
    (∀ ty shape, t.shape? ty = some shape → t.Stores shape ∧
      t.expand ty = shape.tree t.expand ∧ ∀ part ∈ shape.parts, part.index < ty.index) ∧
    ∀ a b : TypeId, a.index < t.size → b.index < t.size → (a = b ↔ t.expand a = t.expand b) := by
  intro given t
  have hmade : t.Made := h.index_lt.2
  have hnormal := hmade.normal
  refine ⟨fun _ _ => intern_eq_iff, fun _ => isSome_shape?_iff, t.eight_le_size, h.eraseDups_runAll,
    h.map_expand_runAll, TypeRequest.runAll_take requests, fun ty shape hs => ?_,
    fun a b ha hb => ?_⟩
  · have hty := hnormal ty (TypeTable.index_lt_size hs)
    exact ⟨hmade.stores hs, hty.interned.expand_eq hs, hmade.index_lt_of_mem_parts hs⟩
  · constructor
    · exact congrArg t.expand
    · exact (hnormal a ha).interned.expand_injective (hnormal b hb).interned

/-- A parameter, a definition that is applied to it, `null` added to this and added once more, the
application again, `null` added to the error type, and a definition that is applied to nothing after
it was asked for as such. -/
def canonicalRequests : List TypeRequest :=
  [.parameter ⟨0⟩ 0, .applied ⟨1⟩ [⟨8⟩, .string], .nullable ⟨9⟩, .nullable ⟨10⟩,
    .applied ⟨1⟩ [⟨8⟩, .string], .nullable .error, .plain ⟨2⟩, .applied ⟨2⟩ []]

theorem grounded_canonicalRequests : TypeRequest.Grounded canonicalRequests := by
  show TypeRequest.Grounded ([] ++ [_] ++ [_] ++ [_] ++ [_] ++ [_] ++ [_] ++ [_] ++ [_])
  refine .snoc (.snoc (.snoc (.snoc (.snoc (.snoc (.snoc (.snoc .nil ?_) ?_) ?_) ?_) ?_) ?_) ?_) ?_
  all_goals decide +kernel

/-- Eight requests get four new handles; the error type is what it was with `null` added. -/
theorem handles_canonical_of_repeats :
    TypeRequest.Grounded canonicalRequests ∧
      (TypeRequest.runAll canonicalRequests).1 =
        [⟨8⟩, ⟨9⟩, ⟨10⟩, ⟨10⟩, ⟨9⟩, .error, ⟨11⟩, ⟨11⟩] ∧
      (((TypeRequest.runAll canonicalRequests).1.filter (!·.isIntrinsic)).eraseDups =
        (List.range' 8 ((TypeRequest.runAll canonicalRequests).2.size - 8)).map TypeId.mk) :=
  ⟨grounded_canonicalRequests, by decide +kernel,
    (handles_canonical grounded_canonicalRequests).2.2.2.1⟩

end UpdateExpr
