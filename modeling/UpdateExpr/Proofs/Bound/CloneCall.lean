import UpdateExpr.Proofs.Bound.Assembly
import UpdateExpr.Proofs.Bound.LockstepNode
import UpdateExpr.Proofs.Syntax.Holds

/-!
# A copy by call and a copy by update

A receiver can be copied in two ways: its clone method is called by name, or it stands before a
`with`. The rules for the two share nothing but lookup. The one makes a group of all methods that
are usable and calls the first without parameters; the other keeps those without parameters and
takes the first. They come to the same method and the same type, whatever the receiver is.

The receiver is written twice, so the two expressions need not share a node, nor an arena.

## Main definitions

* `Arena.SameSource`: two nodes with the same source
* `BoundExpr.call?`, `BoundExpr.copy?`: the method and the type of a call, and of an update
* `Binder.cloneOf?`: the method that copies a receiver of a type

## Main results

* `Arena.sameSource_of_holds`: two nodes that hold one tree have the same source
* `Binder.call?_callNode`, `Binder.copy?_update`: which method a call and an update take
* `Binder.clone_call_eq_update`: they take the same method
-/

namespace UpdateExpr

/-! ## The same source -/

namespace Arena

variable {a a' : Arena} {t : SyntaxTree} {r r' : NodeRef}

/-- Two nodes, of one arena or of two, have the same source: they match, and so does all that they
refer to. -/
def SameSource (a a' : Arena) (r r' : NodeRef) : Prop :=
  ∃ m, a.Matches a' m ∧ m r r'

/-- Two nodes hold the same tree, or the same name or entry of one. -/
inductive HeldTwice (a a' : Arena) : NodeRef → NodeRef → Prop
  | tree {t : SyntaxTree} {r r' : NodeRef} (h : a.Holds t r) (h' : a'.Holds t r') :
    HeldTwice a a' r r'
  | name {id : Option Identifier} {r r' : NodeRef} (h : a.HoldsName id r)
    (h' : a'.HoldsName id r') : HeldTwice a a' r r'
  | entry {n n' v v' r r' : NodeRef} {span : Span}
    (h : a.get? r = some ⟨.initializer n v, span, false⟩)
    (h' : a'.get? r' = some ⟨.initializer n' v', span, false⟩) (hn : HeldTwice a a' n n')
    (hv : HeldTwice a a' v v') : HeldTwice a a' r r'

theorem heldTwice_entries {entries : List (Initializer SyntaxTree)} {es es' : List NodeRef}
    (h : a.HoldsEntries entries es) (h' : a'.HoldsEntries entries es') :
    List.Forall₂ (HeldTwice a a') es es' := by
  induction entries generalizing es es' with
  | nil =>
    rw [HoldsEntries] at h h'
    rw [h, h']
    exact .nil
  | cons entry entries ih =>
    obtain ⟨name, value, span⟩ := entry
    obtain ⟨e, rest, n, v, rfl, hg, hn, hv, hrest⟩ := h
    obtain ⟨e', rest', n', v', rfl, hg', hn', hv', hrest'⟩ := h'
    exact .cons (.entry hg hg' (.name hn hn') (.tree hv hv')) (ih hrest hrest')

/-- Nodes that hold the same say the same. -/
theorem matches_heldTwice (a a' : Arena) : a.Matches a' (HeldTwice a a') := by
  have hname : ∀ id : Identifier, Option.Rel (Node.Matched (HeldTwice a a')) (some id.node)
      (some id.node) := fun _ => .some ⟨.identifier, rfl⟩
  intro r r' hr
  cases hr with
  | @tree t _ _ h h' =>
    cases t with
    | identifier id =>
      rw [h, h']
      exact hname id
    | literal value text flags span =>
      rw [h, h']
      exact .some ⟨.literal, rfl⟩
    | keyword kind span =>
      rw [h, h']
      exact .some ⟨.token, rfl⟩
    | access target member span =>
      obtain ⟨t, m, hg, ht, hm⟩ := h
      obtain ⟨t', m', hg', ht', hm'⟩ := h'
      rw [hg, hg']
      have hname : HeldTwice a a' m m' := .name (show a.HoldsName (some member) m from hm) hm'
      exact .some ⟨.access (.tree ht ht') hname, rfl⟩
    | call target span =>
      obtain ⟨t, hg, ht⟩ := h
      obtain ⟨t', hg', ht'⟩ := h'
      rw [hg, hg']
      exact .some ⟨.call (.tree ht ht'), rfl⟩
    | paren inner span =>
      obtain ⟨i, hg, hi⟩ := h
      obtain ⟨i', hg', hi'⟩ := h'
      rw [hg, hg']
      exact .some ⟨.paren (.tree hi hi'), rfl⟩
    | update receiver entries list span =>
      obtain ⟨n, es, hg, hn, hes⟩ := h
      obtain ⟨n', es', hg', hn', hes'⟩ := h'
      rw [hg, hg']
      exact .some ⟨.update (.tree hn hn') (heldTwice_entries hes hes'), rfl⟩
  | @name id _ _ h h' =>
    cases id with
    | none =>
      rw [show r = none from h, show r' = none from h']
      exact .none
    | some id =>
      rw [h, h']
      exact hname id
  | entry h h' hn hv =>
    rw [h, h']
    exact .some ⟨.initializer hn hv, rfl⟩

/-- **Two nodes that hold one tree have the same source.** -/
theorem sameSource_of_holds (h : a.Holds t r) (h' : a'.Holds t r') : a.SameSource a' r r' :=
  ⟨_, matches_heldTwice a a', .tree h h'⟩

end Arena

/-! ## Calls and copies -/

namespace BoundExpr

/-- The method that a call calls, and the type of the call. -/
def call? : BoundExpr → Option (MemberId × TypeId)
  | .call info _ method => info.ty?.map (method, ·)
  | _ => none

/-- The method by which an update copies its receiver, and the type of the update. -/
def copy? : BoundExpr → Option (MemberId × TypeId)
  | .update info _ (some method) _ _ => info.ty?.map (method, ·)
  | _ => none

end BoundExpr

/-- A member and its type. -/
def Candidate.typed (c : Candidate) : MemberId × TypeId :=
  (c.member, c.ty)

namespace Binder

open BindState BoundExpr

variable {b : Binder} {nested : NodeRef → BindM BoundExpr} {node place target nameNode : NodeRef}
  {r : BoundExpr} {methods : List Candidate} {types : TypeTable} {ty : TypeId}
  {s s₁ : BindState}

/-- The method that copies a receiver of a type: the first one without parameters, if lookup finds
usable methods at all. -/
def cloneOf? (b : Binder) (types : TypeTable) (ty : TypeId) : Option Candidate :=
  let found := (b.symbols.lookup ty (b.query cloneName 0 true) { types }).1
  if ty ≠ .error ∧ found.isViable = true then found.parameterless.head? else none

theorem cloneOf?_error (b : Binder) (types : TypeTable) : b.cloneOf? types .error = none := by
  rw [cloneOf?, if_neg fun h => h.1 rfl]

/-- A type without values applies no definition, so nothing is found there. -/
theorem cloneOf?_void (b : Binder) (types : TypeTable) : b.cloneOf? types .void = none := by
  have hshape : types.shape? .void = some (.intrinsic .void) := types.shape?_id .void
  have hstrip : types.strip .void = .void := by
    rw [TypeTable.strip, TypeTable.nullableInner?, hshape]
    rfl
  have hnone : types.defAndArgs? (types.strip .void) = none := by
    rw [hstrip, TypeTable.defAndArgs?, hshape]
  have hlookup : b.symbols.lookup .void (b.query cloneName 0 true) { types } = ({}, { types }) :=
    lookup_of_none hnone
  rw [cloneOf?, hlookup, if_neg fun h => Bool.false_ne_true h.2]

/-- It is the same method for the type of an expression and for its type as a receiver, since what
is no value has none. -/
theorem cloneOf?_receiverType (b : Binder) (types : TypeTable) (e : BoundExpr) :
    b.cloneOf? types e.receiverType = e.ty?.bind (b.cloneOf? types) := by
  cases ht : e.ty? with
  | none => rw [receiverType, ht]; exact cloneOf?_error b types
  | some ty =>
    by_cases hv : ty = .void
    · subst hv
      rw [receiverType, ht]
      exact (cloneOf?_error b types).trans (cloneOf?_void b types).symm
    · rw [receiverType_of_ne_void ht hv]
      rfl

/-! ## The call -/

/-- Members that are found to be called are methods. -/
theorem isMethod_of_mem_candidates {name : String} {arity : Nat} {l : Lookup} {q : QueryState}
    (hl : b.symbols.lookup ty (b.query name arity true) { types } = (l, q))
    (hv : l.isViable = true) :
    ∀ c ∈ l.candidates, ∃ m, b.symbols.member? c.member = some m ∧ m.isMethod = true := by
  have hsteady : Steady (fun _ _ => True) (b.symbols.lookup ty (b.query name arity true))
      (b.symbols.lookup ty (b.query name arity true)) ({ types } : QueryState) _ :=
    steady_lookup TypeTable.hereditary_true (fun _ _ => trivial) trivial
  have hpost := hsteady.post
  rw [hl] at hpost
  intro c hc
  obtain ⟨m, hm⟩ := (hpost hv).2 c hc
  exact ⟨m, hm.found, hm.admits.isMethod rfl⟩

/-- Methods are accessed as a group. -/
theorem access_methods {faulty : Bool}
    (h : ∀ c ∈ methods, ∃ m, b.symbols.member? c.member = some m ∧ m.isMethod = true) :
    b.access node r faulty methods = .methodGroup ⟨node, none, faulty⟩ r methods := by
  cases methods with
  | nil => rfl
  | cons c methods =>
    obtain ⟨m, hm, hmethod⟩ := h c List.mem_cons_self
    unfold Member.isMethod at hmethod
    unfold access
    dsimp only
    rw [hm, Option.map_some]
    split at hmethod
    · next hs => rw [hs]
    · cases hmethod

/-- **The name of the clone, called behind a receiver**, stands for a group of methods whose first
one without parameters copies the receiver, or for nothing, and then none does. -/
theorem member_clone (b : Binder) (node : NodeRef) (r : BoundExpr) (s : BindState) :
    (∃ info methods, (b.member node r cloneName 0 true s).1 = .methodGroup info r methods ∧
      methods.find? (·.params.isEmpty) = r.ty?.bind (b.cloneOf? s.types)) ∨
    (∃ candidates, (b.member node r cloneName 0 true s).1 = .failure node candidates [r] ∧
      r.ty?.bind (b.cloneOf? s.types) = none) := by
  unfold Binder.member
  cases ht : r.ty? with
  | none => exact .inr ⟨[], rfl, rfl⟩
  | some ty =>
    by_cases he : ty = .error
    · subst he
      exact .inr ⟨[], rfl, cloneOf?_error b s.types⟩
    · rcases hl : b.symbols.lookup ty (b.query cloneName 0 true) { types := s.types } with ⟨l, q⟩
      have hclone : b.cloneOf? s.types ty = if l.isViable then l.parameterless.head? else none := by
        simp only [cloneOf?, hl, he, ne_eq, not_false_eq_true, true_and]
      have herr : ty.isError = false := beq_eq_false_iff_ne.2 he
      unfold query at hl
      simp only [herr, Bool.false_eq_true, if_false, bind_apply, ask_apply, hl, Option.bind_some,
        hclone]
      cases hv : l.isViable with
      | true =>
        rw [if_pos rfl, if_pos rfl]
        exact .inl ⟨_, l.candidates, access_methods (isMethod_of_mem_candidates hl hv),
          List.head?_filter.symm⟩
      | false => exact .inr ⟨_, rfl, rfl⟩

theorem call?_invoke_methodGroup (info : BoundInfo) (name : String) :
    (b.invoke node (.methodGroup info r methods) name s).1.call? =
      (methods.find? (·.params.isEmpty)).map Candidate.typed := by
  unfold Binder.invoke
  dsimp only
  cases methods.find? (·.params.isEmpty) with
  | none => rfl
  | some c => rfl

/-- **A call of the clone calls the method that copies its receiver.** -/
theorem call?_callNode (h : b.arena.shape? place = some (.access target nameNode))
    (hn : b.arena.name nameNode = cloneName) (ho : (nested target >>= b.readable) s = (r, s₁)) :
    (b.callNode nested node place s).1.call? =
      (r.ty?.bind (b.cloneOf? s₁.types)).map Candidate.typed := by
  have hname : cloneName ≠ "" := by decide
  rw [callNode, bind_apply, memberNode_apply h ho, hn, if_neg hname]
  rcases member_clone b nameNode r s₁ with ⟨info, methods, hm, hfind⟩ | ⟨candidates, hm, hnone⟩
  · rw [hm, ← hfind]
    exact call?_invoke_methodGroup _ _
  · rw [hm, hnone]
    rfl

/-! ## The update -/

theorem CopyRun.head?_eq {receiver : TypeId} {copies : List Candidate} {fits : Bool}
    {s' : BindState} (h : b.CopyRun node receiver s copies fits s') :
    copies.head? = b.cloneOf? s.types receiver := by
  by_cases he : receiver = .error
  · subst he
    rw [cloneOf?_error]
    cases h with
    | faulty _ => rfl
    | absent _ he _ _ => exact absurd rfl he
    | present _ _ he _ _ _ _ => exact absurd rfl he
  · rcases hl : b.symbols.lookup receiver (b.query cloneName 0 true) { types := s.types }
      with ⟨l, q⟩
    rw [h.copies_eq he hl, cloneOf?, hl]
    cases l.isViable with
    | true => rw [if_pos rfl, if_pos ⟨he, rfl⟩]
    | false => rw [if_neg nofun, if_neg nofun, List.head?_nil]

/-- **An update copies its receiver by the method that copies it**, whatever its list holds. -/
theorem copy?_update {nodes : List NodeRef} {list : ListSpan}
    (h : b.arena.shape? node = some (.update target nodes list))
    (ho : (nested target >>= b.readable) s = (r, s₁)) :
    (b.update nested node s).1.copy? =
      (b.cloneOf? s₁.types r.receiverType).map Candidate.typed := by
  obtain ⟨p, s', hp, hupdate⟩ := update_parts nested s h
  obtain ⟨hr, hc, -⟩ := hp
  obtain ⟨rfl, rfl⟩ := Prod.mk.inj (ho.symm.trans hr)
  have hclone : p.clone? = b.cloneOf? s₁.types p.receiver.receiverType := by
    rw [UpdateParts.clone?, hc.head?_eq, types_tellIf]
  rw [hupdate, ← hclone, assemble, UpdateParts.ty]
  cases p.clone? with
  | none => rfl
  | some c => rfl

/-! ## Both -/

/-- The binder of another source in the same scope. -/
def onArena (b : Binder) (a : Arena) : Binder :=
  { b with arena := a }

section Both

variable {a' : Arena} {node' target' : NodeRef} {nodes : List NodeRef} {list : ListSpan}
  {s' : BindState}

/-- A call of the clone and an update, of receivers of the same source, take the same method. -/
theorem call?_eq_copy? (hoption : b.options.reportAmbiguousClone = false)
    (hcall : b.arena.HasShape node (.call place))
    (hplace : b.arena.shape? place = some (.access target nameNode))
    (hname : b.arena.name nameNode = cloneName)
    (hupdate : a'.HasShape node' (.update target' nodes list))
    (hsame : b.arena.SameSource a' target target') (hs : s.types = s'.types) (depth : Nat) :
    (b.expr depth node s).1.call? = ((b.onArena a').expr depth node' s').1.copy? := by
  cases depth with
  | zero => rfl
  | succ depth =>
    obtain ⟨m, hmatches, hm⟩ := hsame
    have t : b.Twins (b.onArena a') m fun _ _ => True :=
      ⟨hmatches, rfl, rfl, hoption, fun _ _ _ _ => trivial, fun _ _ _ => trivial⟩
    rcases ho : (b.expr depth target >>= b.readable) s with ⟨r, s₁⟩
    rcases ho' : ((b.onArena a').expr depth target' >>= (b.onArena a').readable) s' with ⟨r', s₁'⟩
    obtain ⟨he, hs₁⟩ := t.operand (t.expr depth) hm s s' ⟨hs, trivial⟩
    rw [ho, ho'] at he hs₁
    rw [expr, node_call hcall, call?_callNode hplace hname ho, expr, node_update hupdate,
      copy?_update hupdate.1 ho', cloneOf?_receiverType, ← he.ty?_eq, ← hs₁.types]
    rfl

end Both

/-- **A call of the clone and an update take the same method.** In every world and scope, in states
that hold the same types, down to any depth: `receiver.Clone()` is bound to a call of a method, of a
type, exactly if `receiver with { … }` copies its receiver by that method and has that type. It does
not matter whether the receivers are nodes of one arena or of two, as long as they have the same
source, nor whether nodes lead back to themselves. Nodes that hold trees with one receiver are such
nodes. The method is the first one without parameters that lookup finds usable for the type with
which the receiver is read, and the type is that which it gives there. -/
theorem clone_call_eq_update (b : Binder) (hoption : b.options.reportAmbiguousClone = false)
    (a' : Arena) {s s' : BindState} (hs : s.types = s'.types) (depth : Nat) (node node' : NodeRef) :
    (∀ place target nameNode target' nodes list, b.arena.HasShape node (.call place) →
      b.arena.shape? place = some (.access target nameNode) →
      b.arena.name nameNode = cloneName →
      a'.HasShape node' (.update target' nodes list) →
      b.arena.SameSource a' target target' →
      (b.expr depth node s).1.call? = ((b.onArena a').expr depth node' s').1.copy?) ∧
    (∀ (receiver : SyntaxTree) (clone : Identifier) (place whole whole' : Span) entries list,
      clone.name = cloneName →
      b.arena.Holds (.call (.access receiver clone place) whole) node →
      a'.Holds (.update receiver entries list whole') node' →
      (b.expr depth node s).1.call? = ((b.onArena a').expr depth node' s').1.copy?) ∧
    (∀ place target nameNode r s₁, b.arena.HasShape node (.call place) →
      b.arena.shape? place = some (.access target nameNode) →
      b.arena.name nameNode = cloneName →
      (b.expr depth target >>= b.readable) s = (r, s₁) →
      (b.expr (depth + 1) node s).1.call? =
        (r.ty?.bind (b.cloneOf? s₁.types)).map Candidate.typed) := by
  refine ⟨?_, ?_, ?_⟩
  · intro place target nameNode target' nodes list hcall hplace hname hupdate hsame
    exact call?_eq_copy? hoption hcall hplace hname hupdate hsame hs depth
  · rintro receiver clone place whole whole' entries list hname
      ⟨t, hcall, target, nameNode, haccess, htarget, hnode⟩ ⟨target', es, hupdate, htarget', -⟩
    refine call?_eq_copy? hoption (.of_get? hcall) (Arena.HasShape.of_get? haccess).1 ?_
      (.of_get? hupdate) (Arena.sameSource_of_holds htarget htarget') hs depth
    rw [Arena.name, Arena.shape?, hnode, ← hname]
    rfl
  · intro place target nameNode r s₁ hcall hplace hname ho
    rw [expr, node_call hcall]
    exact call?_callNode hplace hname ho

/-- A variable is copied by the clone method of its class, either way. -/
theorem clone_call_eq_update_of_variable :
    ((copyBinder "d.Clone()").expr 3 (some 3) copyState).1.call? =
      some (⟨1⟩, (TypeTable.plain ⟨0⟩ {}).1) ∧
    ((copyBinder "d with { }").expr 3 (some 1) copyState).1.copy? =
      some (⟨1⟩, (TypeTable.plain ⟨0⟩ {}).1) := by
  have hcall : ((copyBinder "d.Clone()").expr 3 (some 3) copyState).1.call? =
      some (⟨1⟩, (TypeTable.plain ⟨0⟩ {}).1) := by
    decide +kernel
  obtain ⟨-, htrees, -⟩ := clone_call_eq_update (copyBinder "d.Clone()") rfl
    (parse "d with { }").arena (s := copyState) rfl 3 (some 3) (some 1)
  have h := htrees (.identifier ⟨"d", ⟨0, 1⟩, false⟩) ⟨cloneName, ⟨2, 7⟩, false⟩ ⟨0, 7⟩ ⟨0, 9⟩
    ⟨0, 10⟩ [] ⟨⟨8, 9⟩, false⟩ rfl (parse "d.Clone()").holds_root (parse "d with { }").holds_root
  exact ⟨hcall, h.symm.trans hcall⟩

end Binder

end UpdateExpr
