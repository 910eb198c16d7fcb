import UpdateExpr.Compilation.Batch
import UpdateExpr.Proofs.Bound.AgreeNode
import UpdateExpr.Proofs.Bound.Checked
import UpdateExpr.Proofs.Diagnostic.Arrival
import UpdateExpr.Proofs.Text.Numbering

/-!
# Binding does not depend on the order of requests

The requests of a batch share a table of types and a table of names, and each request finds what
those before it have left there. So the handle of a type that is new depends on the order of the
requests, as does the number of a new name. Nothing else does: a request has the same result in any
order, up to one renaming of the new handles for the whole batch, and the batch reports the same
diagnostics.

## Main definitions

* `RequestResult.rename`: a result with other handles
* `Request.mentions`: the names that a request brings to the shared table of names
* `Compilation.namesAfter`: the shared table of names in the end
* `Compilation.RenamesBatch`: two orders give the same up to renamings

## Main results

* `Compilation.agree_bindRequest`: a request has like results, whatever the tables have grown to
* `Compilation.exists_renamesBatch_of_perm`: two orders of the same requests
-/

namespace UpdateExpr

/-! ## Results -/

/-- Results of one request that are the same but for the handles of types. -/
structure LikeResults (w : Tables) (x x' : RequestResult) : Prop where
  file : x.file = x'.file
  arena : x.arena = x'.arena
  expr : LikeExprs w x.expr x'.expr
  bag : x.bag = x'.bag

/-- A result with other handles. -/
def RequestResult.rename (f : TypeId → TypeId) (x : RequestResult) : RequestResult :=
  { x with expr := x.expr.rename f }

section Results

variable {c : Compilation} {r : Request} {w w' : Tables} {t t' types : TypeTable}
  {x x' : RequestResult}

theorem LikeResults.mono (h : LikeResults w x x') (hle : w ≤ w') : LikeResults w' x x' :=
  ⟨h.file, h.arena, h.expr.mono hle, h.bag⟩

theorem LikeResults.eq_rename {f : TypeId → TypeId} (hf : ∀ a a', Alike w a a' → a' = f a)
    (h : LikeResults w x x') : x' = x.rename f := by
  obtain ⟨file, arena, expr, bag⟩ := x
  obtain ⟨file', arena', expr', bag'⟩ := x'
  obtain rfl : file = file' := h.file
  obtain rfl : arena = arena' := h.arena
  obtain rfl : bag = bag' := h.bag
  obtain rfl : expr' = expr.rename f := h.expr.eq_rename hf
  rfl

/-- The symbols and the scope of a request mention interned types only. -/
def Compilation.Knows (c : Compilation) (types : TypeTable) (r : Request) : Prop :=
  (c.binder (parse r.text) r.scope).AllGood TypeTable.Interned types

/-- Two tables that have grown from one know its types under the same handles. -/
theorem Binder.AllGood.shared {b : Binder} (h : b.AllGood TypeTable.Interned types)
    (hle : (types, types) ≤ w) : b.Shared w where
  symbols ty hty := alike_of_interned (h.symbols ty hty) hle
  locals _ _ hv := alike_of_interned (h.locals hv) hle

/-- **A request has like results, whatever the tables have grown to.** -/
theorem Compilation.agree_bindRequest (h : c.Knows types r) (hle : (types, types) ≤ (t, t')) :
    Agree LikeResults (c.bindRequest r) (c.bindRequest r) t t' := by
  have hbind : Agree LikeExprs _ _ (⟨t, { file := r.file }⟩ : BindState) ⟨t', { file := r.file }⟩ :=
    agree_bind (Binder.AllGood.shared h hle) (some (parse r.text).root)
  exact {
    grown := hbind.grown
    rest _ := rfl
    post := ⟨rfl, rfl, hbind.post, congrArg (Bag.extend _) (hbind.rest rfl)⟩ }

end Results

/-! ## Batches -/

namespace Compilation

/-- A result comes from a request that was bound at some time between two tables. -/
def Ran (c : Compilation) (types last : TypeTable) (r : Request) (x? : Option RequestResult) :
    Prop :=
  ∃ t, types ≤ t ∧ (c.bindRequest r t).2 ≤ last ∧ x? = some (c.bindRequest r t).1

section Batches

variable {c : Compilation} {types last last' : TypeTable} {requests requests' : List Request}
  {r : Request} {x? x?' : Option RequestResult} {results results' : List (Option RequestResult)}

theorem le_bindRequest (h : c.Knows types r) {t : TypeTable} (hle : types ≤ t) :
    t ≤ (c.bindRequest r t).2 :=
  (agree_bindRequest h ⟨hle, hle⟩).le.1

theorem le_bindFrom (h : ∀ r ∈ requests, c.Knows types r) {t : TypeTable} (hle : types ≤ t)
    (n : Nat) : t ≤ (c.bindFrom .never n requests t).2 := by
  induction requests generalizing t n with
  | nil => exact le_refl t
  | cons r rest ih =>
    rw [List.forall_mem_cons] at h
    have hr := le_bindRequest h.1 hle
    exact hr.trans (ih h.2 (hle.trans hr) (n + 1))

/-- Each result of a batch comes from its request. -/
theorem ran_bindFrom (h : ∀ r ∈ requests, c.Knows types r) {t : TypeTable} (hle : types ≤ t)
    (n : Nat) : List.Forall₂ (c.Ran types (c.bindFrom .never n requests t).2) requests
      (c.bindFrom .never n requests t).1 := by
  induction requests generalizing t n with
  | nil => exact .nil
  | cons r rest ih =>
    rw [List.forall_mem_cons] at h
    have hr := le_bindRequest h.1 hle
    refine .cons ⟨t, hle, ?_, rfl⟩ (ih h.2 (hle.trans hr) (n + 1))
    exact le_bindFrom h.2 (hle.trans hr) (n + 1)

/-- A type that is new in the end was new to a request. -/
theorem new_of_bindFrom (h : ∀ r ∈ requests, c.Knows types r) {t : TypeTable} (hle : types ≤ t)
    (n : Nat) {a : TypeId} (ha : ((c.bindFrom .never n requests t).2.shape? a).isSome) :
    (t.shape? a).isSome ∨ ∃ r ∈ requests, ∃ t₁, types ≤ t₁ ∧
      (c.bindRequest r t₁).2 ≤ (c.bindFrom .never n requests t).2 ∧
      ((c.bindRequest r t₁).2.shape? a).isSome ∧ t₁.shape? a = none := by
  induction requests generalizing t n with
  | nil => exact .inl ha
  | cons r rest ih =>
    rw [List.forall_mem_cons] at h
    have hr := le_bindRequest h.1 hle
    rcases ih h.2 (hle.trans hr) (n + 1) ha with ha' | ⟨r', hr', t₁, ht₁⟩
    · cases hs : t.shape? a with
      | some shape => exact .inl rfl
      | none =>
        refine .inr ⟨r, by simp, t, hle, ?_, ha', hs⟩
        exact le_bindFrom h.2 (hle.trans hr) (n + 1)
    · exact .inr ⟨r', List.mem_cons_of_mem _ hr', t₁, ht₁⟩

/-- One request has like results in two batches. -/
theorem Ran.like (h : c.Knows types r) (hx : c.Ran types last r x?)
    (hx' : c.Ran types last' r x?') :
    ∃ x x', x? = some x ∧ x?' = some x' ∧ LikeResults (last, last') x x' := by
  obtain ⟨t, hle, hlast, rfl⟩ := hx
  obtain ⟨t', hle', hlast', rfl⟩ := hx'
  exact ⟨_, _, rfl, rfl, (agree_bindRequest h ⟨hle, hle'⟩).post.mono ⟨hlast, hlast'⟩⟩

/-- What is new in the end of one batch is like a type of another batch of the same requests. -/
theorem new_alike (h : ∀ r ∈ requests, c.Knows types r) (hmem : ∀ r ∈ requests, r ∈ requests')
    (hran : List.Forall₂ (c.Ran types last') requests' results) {a : TypeId}
    (ha : ((c.bindFrom .never 0 requests types).2.shape? a).isSome) :
    (types.shape? a).isSome ∨ ∃ a', Alike ((c.bindFrom .never 0 requests types).2, last') a a' := by
  rcases new_of_bindFrom h (le_refl types) 0 ha with hknown | ⟨r, hr, t, hle, hlast, ha', hnew⟩
  · exact .inl hknown
  · obtain ⟨x?, -, t', hle', hlast', -⟩ := exists_of_forall₂ hran r (hmem r hr)
    rcases (agree_bindRequest (h r hr) ⟨hle, hle'⟩).grown.left a ha' with hold | ⟨a', hlike⟩
    · have hold : (t.shape? a).isSome := hold
      rw [hnew] at hold
      cases hold
    · exact .inr ⟨a', hlike.mono ⟨hlast, hlast'⟩⟩

end Batches

end Compilation

/-! ## Renaming of types -/

/-- A renaming takes the types of one table to those of another. It leaves the types that both have
from a common past, and takes every type that is new to the one that has the same tree. -/
structure TypeTable.Renames (e : TypeId ≃ TypeId) (past t t' : TypeTable) : Prop where
  fixed : ∀ a, past.Interned a → e a = a
  left : ∀ a, (t.shape? a).isSome → (past.shape? a).isSome ∨ Alike (t, t') a (e a)
  right : ∀ a', (t'.shape? a').isSome → (past.shape? a').isSome ∨ Alike (t, t') (e.symm a') a'

instance : Infinite TypeId :=
  Infinite.of_injective TypeId.mk fun _ _ h => TypeId.mk.inj h

theorem finite_alike (w : Tables) : {a | ∃ a', Alike w a a'}.Finite := by
  have hindex : Set.InjOn TypeId.index (Set.preimage TypeId.index {n | n < w.1.size}) :=
    fun a _ b _ h => congrArg TypeId.mk h
  refine ((Set.finite_lt_nat w.1.size).preimage hindex).subset ?_
  rintro a ⟨a', h⟩
  exact h.left.within_size.index_lt

/-- **Two tables differ by a renaming** where each new type of the one has a like type in the
other. -/
theorem exists_renaming {past t t' : TypeTable} (hle : (past, past) ≤ (t, t'))
    (hl : ∀ a, (t.shape? a).isSome → (past.shape? a).isSome ∨ ∃ a', Alike (t, t') a a')
    (hr : ∀ a', (t'.shape? a').isSome → (past.shape? a').isSome ∨ ∃ a, Alike (t, t') a a') :
    ∃ e : TypeId ≃ TypeId, (∀ a a', Alike (t, t') a a' → e a = a') ∧
      TypeTable.Renames e past t t' := by
  obtain ⟨e, he⟩ := exists_equiv_of_biUnique (biUnique_alike (t, t')) (finite_alike (t, t'))
  refine ⟨e, he, fun a ha => he a a (alike_of_interned ha hle), fun a ha => ?_, fun a' ha => ?_⟩
  · refine (hl a ha).imp id ?_
    rintro ⟨a', hlike⟩
    rwa [he a a' hlike]
  · refine (hr a' ha).imp id ?_
    rintro ⟨a, hlike⟩
    rwa [← he a a' hlike, Equiv.symm_apply_apply, he a a' hlike]

/-! ## Names -/

namespace BoundExpr

mutual

/-- Whether a clone method was looked for: some update has a receiver of a usable type. -/
def asksClone : BoundExpr → Bool
  | literal _ _ | localVar _ _ | placeholder _ => false
  | field _ r _ | property _ r _ | methodGroup _ r _ | call _ r _ | conversion _ r _ =>
    r.asksClone
  | assignment _ l r => l.asksClone || r.asksClone
  | update _ r _ entries _ =>
    r.ty?.any (fun ty => !ty.isError && ty != .void) || r.asksClone || anyEntryAsksClone entries
  | bad _ _ es => anyAsksClone es

/-- Whether a clone method was looked for in one of some expressions. -/
def anyAsksClone : List BoundExpr → Bool
  | [] => false
  | e :: es => e.asksClone || anyAsksClone es

/-- Whether a clone method was looked for in one of the entries of an update. -/
def anyEntryAsksClone : List (Option MemberId × BoundExpr) → Bool
  | [] => false
  | (_, e) :: entries => e.asksClone || anyEntryAsksClone entries

end

theorem anyAsksClone_eq_any (es : List BoundExpr) : anyAsksClone es = es.any asksClone := by
  induction es with
  | nil => rfl
  | cons e es ih => rw [anyAsksClone, ih, List.any_cons]

theorem anyEntryAsksClone_eq_any (entries : List (Option MemberId × BoundExpr)) :
    anyEntryAsksClone entries = entries.any (·.2.asksClone) := by
  induction entries with
  | nil => rfl
  | cons entry entries ih => rw [anyEntryAsksClone, ih, List.any_cons]

end BoundExpr

/-- Like expressions look for the same names. -/
theorem LikeExprs.asksClone_eq {w : Tables} {e e' : BoundExpr} (h : LikeExprs w e e') :
    e.asksClone = e'.asksClone := by
  induction h with
  | literal => rfl
  | localVar => rfl
  | field _ _ ih => exact ih
  | property _ _ ih => exact ih
  | methodGroup _ _ _ ih => exact ih
  | call _ _ ih => exact ih
  | conversion _ _ ih => exact ih
  | placeholder => rfl
  | assignment _ _ _ ihl ihr =>
    rw [BoundExpr.asksClone, BoundExpr.asksClone, ihl, ihr]
  | @update _ _ r r' _ entries entries' _ _ hr hl _ _ ihr ihe =>
    have hentries : entries.any (·.2.asksClone) = entries'.any (·.2.asksClone) :=
      rel_any (List.forall₂_iff_zip.2 ⟨hl, fun hp => ihe _ hp⟩) fun _ _ he => he
    have husable : (r.ty?.any fun ty => !ty.isError && ty != .void) =
        r'.ty?.any fun ty => !ty.isError && ty != .void := by
      rcases hr.ty?_cases with ⟨ht, ht'⟩ | ⟨ty, ty', ht, ht', hty⟩
      · rw [ht, ht']
      · have hvoid : (ty == .void) = (ty' == .void) := hty.beq_eq (alike_id w .void)
        rw [ht, ht', Option.any_some, Option.any_some, hty.isError_eq, bne, bne, hvoid]
    rw [BoundExpr.asksClone, BoundExpr.asksClone, husable, ihr,
      BoundExpr.anyEntryAsksClone_eq_any, BoundExpr.anyEntryAsksClone_eq_any, hentries]
  | @bad _ _ _ es es' _ hl _ ihe =>
    have hes : es.any BoundExpr.asksClone = es'.any BoundExpr.asksClone :=
      rel_any (List.forall₂_iff_zip.2 ⟨hl, fun hp => ihe _ hp⟩) fun _ _ he => he
    rw [BoundExpr.asksClone, BoundExpr.asksClone, BoundExpr.anyAsksClone_eq_any,
      BoundExpr.anyAsksClone_eq_any, hes]

/-- The names that a request brings to the shared table: those that are read, and then the name of
clone methods, if one was looked for. -/
def Request.mentions (r : Request) (e : BoundExpr) : List String :=
  (parse r.text).names.names ++ if e.asksClone then [cloneName] else []

namespace Compilation

/-- The shared table of names after some requests were bound, one after another. -/
def namesAfter (names : NameTable) (requests : List Request) (b : Batch) : NameTable :=
  names.insertAll <| (requests.zip b.results).flatMap fun
    | (r, some x) => r.mentions x.expr
    | (_, none) => []

section Order

variable {c : Compilation} {types last : TypeTable} {requests requests' : List Request}
  {r : Request} {x? : Option RequestResult} {results : List (Option RequestResult)}

/-- What a request reports, and the names it brings, are what they are when it comes first. -/
theorem Ran.first (h : c.Knows types r) (hx : c.Ran types last r x?) :
    ∃ x, x? = some x ∧ x.bag = (c.bindRequest r types).1.bag ∧
      x.expr.asksClone = (c.bindRequest r types).1.expr.asksClone := by
  obtain ⟨t, hle, -, rfl⟩ := hx
  have hle : (types, types) ≤ (t, types) := ⟨hle, le_refl types⟩
  have hlike := (agree_bindRequest h hle).post
  exact ⟨_, rfl, hlike.bag, hlike.expr.asksClone_eq⟩

theorem bags_of_ran (h : ∀ r ∈ requests, c.Knows types r)
    (hran : List.Forall₂ (c.Ran types last) requests results) :
    (Batch.bound ⟨results⟩).map (·.bag) = requests.map fun r => (c.bindRequest r types).1.bag := by
  induction hran with
  | nil => rfl
  | cons hx _ ih =>
    rw [List.forall_mem_cons] at h
    obtain ⟨x, rfl, hbag, -⟩ := hx.first h.1
    rw [List.map_cons, ← hbag, ← ih h.2]
    rfl

theorem namesAfter_of_ran (h : ∀ r ∈ requests, c.Knows types r) (names : NameTable)
    (hran : List.Forall₂ (c.Ran types last) requests results) :
    namesAfter names requests ⟨results⟩ = names.insertAll
      (requests.flatMap fun r => r.mentions (c.bindRequest r types).1.expr) := by
  refine congrArg names.insertAll ?_
  dsimp only
  induction hran with
  | nil => rfl
  | cons hx _ ih =>
    rw [List.forall_mem_cons] at h
    obtain ⟨x, rfl, -, hasks⟩ := hx.first h.1
    rw [List.zip_cons_cons, List.flatMap_cons, List.flatMap_cons, ih h.2]
    dsimp only
    rw [Request.mentions, Request.mentions, hasks]

theorem diagnostics_eq (b : Batch) :
    b.diagnostics = (Sink.ofBags (b.bound.map (·.bag))).sorted := by
  rw [Batch.diagnostics, Sink.ofBags, List.foldl_map]

theorem diagnostics_perm {b b' : Batch} (h : (b'.bound.map (·.bag)).Perm (b.bound.map (·.bag))) :
    b'.diagnostics.Perm b.diagnostics := by
  rw [diagnostics_eq, diagnostics_eq]
  exact (Sink.sorted_perm _).trans ((Sink.entries_ofBags_perm h).trans (Sink.sorted_perm _).symm)

end Order

/-- Two orders of the requests of a batch give the same, up to one renaming `e` of the handles of
types and one renaming `f` of the numbers of names. -/
structure RenamesBatch (c : Compilation) (types : TypeTable) (names : NameTable)
    (requests requests' : List Request) (e : TypeId ≃ TypeId) (f : Nat ≃ Nat) : Prop where
  /-- The renaming leaves the types that were known, and takes every new type to the one with the
  same tree. -/
  handles : TypeTable.Renames e types (c.bindAll .never requests types).2
    (c.bindAll .never requests' types).2
  /-- Each request has the same result in both orders: its nodes, its expression but for the handles
  of types, and all that was reported. -/
  results : ∀ (i j : Nat) (r : Request), requests[i]? = some r → requests'[j]? = some r →
    ∃ x : RequestResult, (c.bindAll .never requests types).1.results[i]? = some (some x) ∧
      (c.bindAll .never requests' types).1.results[j]? = some (some (x.rename e))
  /-- The diagnostics are the same, messages included, in some order. -/
  diagnostics : (c.bindAll .never requests' types).1.diagnostics.Perm
    (c.bindAll .never requests types).1.diagnostics
  /-- The numbers of the names that were known stay. -/
  known : ∀ n < names.size, f n = n
  /-- The number of every name in the one table is that in the other, renamed. -/
  numbers : ∀ text,
    (namesAfter names requests' (c.bindAll .never requests' types).1).find? text =
      ((namesAfter names requests (c.bindAll .never requests types).1).find? text).map f

/-- **Binding does not depend on the order of requests**, up to a renaming of the handles and
numbers that are new, where the symbols and the visible local variables mention interned types
only. -/
theorem exists_renamesBatch_of_perm (c : Compilation) {types : TypeTable} (names : NameTable)
    {requests requests' : List Request} (hs : c.symbols.AllGood TypeTable.Interned types)
    (hl : ∀ r ∈ requests, ∀ name v, r.scope.lookup? name = some v → types.Interned v.ty)
    (hperm : requests'.Perm requests) :
    ∃ e f, c.RenamesBatch types names requests requests' e f := by
  have hknows : ∀ r ∈ requests, c.Knows types r := fun r hr => ⟨hs, fun hv => hl r hr _ _ hv⟩
  have hknows' : ∀ r ∈ requests', c.Knows types r := fun r hr => hknows r (hperm.mem_iff.1 hr)
  have hran := ran_bindFrom hknows (le_refl types) 0
  have hran' := ran_bindFrom hknows' (le_refl types) 0
  obtain ⟨e, he, hrenames⟩ := exists_renaming
    ⟨le_bindFrom hknows (le_refl types) 0, le_bindFrom hknows' (le_refl types) 0⟩
    (fun _ ha => new_alike hknows (fun _ => hperm.mem_iff.2) hran' ha)
    (fun _ ha => (new_alike hknows' (fun _ => hperm.mem_iff.1) hran ha).imp id
      fun ⟨a, hlike⟩ => ⟨a, hlike.symm⟩)
  obtain ⟨f, hf, hnames⟩ := names.exists_renumbering fun text =>
    (hperm.symm.flatMap_right fun r => r.mentions (c.bindRequest r types).1.expr).mem_iff
  refine ⟨e, f, ⟨hrenames, fun i j r hi hj => ?_, ?_, hf, fun text => ?_⟩⟩
  · obtain ⟨x?, hx, hxr⟩ := exists_getElem?_of_forall₂ hran hi
    obtain ⟨x?', hx', hxr'⟩ := exists_getElem?_of_forall₂ hran' hj
    obtain ⟨x, x', rfl, rfl, hlike⟩ := hxr.like (hknows r (List.mem_of_getElem? hi)) hxr'
    obtain rfl : x' = x.rename e := hlike.eq_rename fun a a' ha => (he a a' ha).symm
    exact ⟨x, hx, hx'⟩
  · refine diagnostics_perm ?_
    show ((Batch.bound ⟨_⟩).map _).Perm ((Batch.bound ⟨_⟩).map _)
    rw [bags_of_ran hknows hran, bags_of_ran hknows' hran']
    exact hperm.map _
  · show (namesAfter names requests' ⟨_⟩).find? text =
      ((namesAfter names requests ⟨_⟩).find? text).map f
    rw [namesAfter_of_ran hknows names hran, namesAfter_of_ran hknows' names hran']
    exact hnames text

/-- A class with a type parameter, whose next object has a type argument with `null`. -/
def boxSymbols : SymbolTable where
  definitions := #[{ name := "Box", typeParams := ["T"], members := [⟨0⟩] }]
  members := #[{ owner := ⟨0⟩, name := "Next", shape := .property ⟨10⟩ .always }]

/-- The types of its declaration, and two applications of it. -/
def boxTypes : TypeTable where
  shapes := #[.intrinsic .error, .intrinsic .void, .intrinsic .object, .intrinsic .int,
    .intrinsic .long, .intrinsic .double, .intrinsic .bool, .intrinsic .string,
    .parameter ⟨0⟩ 0, .nullable ⟨8⟩, .applied ⟨0⟩ [⟨9⟩], .applied ⟨0⟩ [⟨3⟩], .applied ⟨0⟩ [⟨4⟩]]
  getElem?_id := by intro k; cases k <;> rfl
  nodup := by decide

/-- A request for the next object of a variable. -/
def boxRequest (name : String) (ty : TypeId) : Request where
  file := "box.wex"
  text := name ++ ".Next"
  scope := { locals := [(name, ⟨⟨0⟩, ty⟩)], declared := 1 }

theorem interned_boxTypes {ty : TypeId} (h : ty.index < boxTypes.size) : boxTypes.Interned ty := by
  have hordered : ∀ i < boxTypes.size, ∀ shape ∈ boxTypes.shape? ⟨i⟩, ∀ part ∈ shape.parts,
      part.index < i := by
    decide +kernel
  exact TypeTable.interned_of_ordered
    (fun ty shape hs => hordered ty.index (TypeTable.index_lt_size hs) shape hs) h

theorem allGood_boxSymbols : boxSymbols.AllGood TypeTable.Interned boxTypes := by
  intro ty hty
  cases hty with
  | @base d c _ h hb =>
    obtain ⟨_ | n⟩ := d
    · cases h
      cases hb
    · cases h
  | @interface d c _ h hi =>
    obtain ⟨_ | n⟩ := d
    · cases h
      cases hi
    · cases h
  | @value m member h =>
    obtain ⟨_ | n⟩ := m
    · cases h
      exact interned_boxTypes (by decide)
    · cases h
  | @parameter m member _ h hp =>
    obtain ⟨_ | n⟩ := m
    · cases h
      cases hp
    · cases h

theorem interned_of_boxRequest {name : String} {ty : TypeId} (h : ty.index < boxTypes.size) :
    ∀ other v, (boxRequest name ty).scope.lookup? other = some v → boxTypes.Interned v.ty := by
  intro other v hv
  obtain ⟨p, hp, rfl⟩ := Option.map_eq_some_iff.1 hv
  rw [List.mem_singleton.1 (List.mem_of_find?_eq_some hp)]
  exact interned_boxTypes h

/-- Two requests for new types, in both orders: each gets the handle that the other one gets in the
other order. -/
theorem exists_renamesBatch_of_swap :
    let c : Compilation := ⟨boxSymbols, {}⟩
    let x := boxRequest "x" ⟨11⟩
    let y := boxRequest "y" ⟨12⟩
    ((c.bindAll .never [x, y] boxTypes).1.results.map (·.bind (·.expr.ty?)) =
        [some ⟨14⟩, some ⟨16⟩] ∧
      (c.bindAll .never [y, x] boxTypes).1.results.map (·.bind (·.expr.ty?)) =
        [some ⟨14⟩, some ⟨16⟩]) ∧
    c.symbols.AllGood TypeTable.Interned boxTypes ∧
    (∀ r ∈ [x, y], ∀ name v, r.scope.lookup? name = some v → boxTypes.Interned v.ty) ∧
    [y, x].Perm [x, y] ∧
    ∃ e f, c.RenamesBatch boxTypes .empty [x, y] [y, x] e f := by
  have hlocals : ∀ r ∈ [boxRequest "x" ⟨11⟩, boxRequest "y" ⟨12⟩], ∀ name v,
      r.scope.lookup? name = some v → boxTypes.Interned v.ty := by
    refine List.forall_mem_cons.2 ⟨?_, List.forall_mem_singleton.2 ?_⟩
    · exact interned_of_boxRequest (by decide)
    · exact interned_of_boxRequest (by decide)
  have hperm : [boxRequest "y" ⟨12⟩, boxRequest "x" ⟨11⟩].Perm
      [boxRequest "x" ⟨11⟩, boxRequest "y" ⟨12⟩] := .swap _ _ _
  exact ⟨by decide +kernel, allGood_boxSymbols, hlocals, hperm,
    exists_renamesBatch_of_perm ⟨boxSymbols, {}⟩ .empty allGood_boxSymbols hlocals hperm⟩

end Compilation

end UpdateExpr
