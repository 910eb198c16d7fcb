import Mathlib.Data.List.Perm.Basic
import UpdateExpr.Proofs.Bound.Again
import UpdateExpr.Proofs.Bound.Frame
import UpdateExpr.Proofs.Bound.Typing

/-!
# The order of initializers

Initializers share the binder, its bag and its tables. Still, none of them sees what another one
leaves behind: diagnostics are only added, the copy is the same for all, and where the types are
known that binding asks for, no table changes. So each initializer is bound as if it stood alone,
and an update with its initializers in another order is bound to the same update with its entries in
that order, with the same diagnostics, those of each initializer moving with it.

The other update may be a node of the same arena, or stand in another one that has the same parts.

## Main definitions

* `Arena.Within`: the nodes that some references lead to
* `BindState.quiet`, `BindState.adding`: a state before any reports, and after some more

## Main results

* `Framed.alone`: a computation puts what it reports alone behind what was reported before
* `Binder.initializers_settled`: initializers are bound one by one, where no types are added
* `Binder.update_permuted`: an update with its initializers in another order
-/

namespace UpdateExpr

/-! ## Nodes and states -/

/-- The nodes that some references lead to. -/
inductive Arena.Within (a : Arena) (roots : List NodeRef) : NodeRef → Prop
  | root {r} (h : r ∈ roots) : Within a roots r
  | part {r shape r'} (h : Within a roots r) (hs : a.shape? r = some shape)
    (hp : r' ∈ shape.parts) : Within a roots r'

/-- Arenas coincide as far as references lead if they hold the same nodes there. -/
theorem Arena.coincides_within {a a' : Arena} {roots : List NodeRef}
    (h : ∀ r, a.Within roots r → a'.get? r = a.get? r) : a.Coincides a' (a.Within roots) :=
  ⟨fun hr => h _ hr, fun hr hs _ hp => .part hr hs hp⟩

namespace BindState

/-- The state with nothing reported yet. -/
def quiet (s : BindState) : BindState :=
  { s with bag := { s.bag with entries := [] } }

/-- The state with more reported. -/
def adding (s : BindState) (more : List Diagnostic) : BindState :=
  { s with bag := { s.bag with entries := s.bag.entries ++ more } }

variable (s : BindState) (more more' : List Diagnostic)

@[simp] theorem adding_nil : s.adding [] = s := by
  rw [adding, List.append_nil]

theorem adding_append : s.adding (more ++ more') = (s.adding more).adding more' := by
  rw [adding, ← List.append_assoc]
  rfl

end BindState

/-- Tables that have both grown from each other are one table. -/
theorem TypeTable.eq_of_le_of_le {t t' : TypeTable} (hle : t ≤ t') (hle' : t' ≤ t) : t' = t := by
  refine TypeTable.eq_of_le hle fun a ha => ?_
  obtain ⟨shape, hs⟩ := Option.isSome_iff_exists.1 ha
  exact Option.isSome_of_eq_some (hle' a shape hs)

/-! ## Alone, and behind others -/

namespace Framed

variable {α : Type} {kind : α → Prop} {x x' : BindM α}

theorem le (h : Framed kind x x') (s : BindState) : s.types ≤ (x s).2.types := by
  obtain ⟨a, types, more, -, hle, hx⟩ := h s.types s.bag.file
  rw [show x s = _ from (hx s.bag.entries).1]
  exact hle

/-- The other computation does the same. -/
theorem apply_eq (h : Framed kind x x') (s : BindState) : x' s = x s := by
  obtain ⟨a, types, more, -, -, hx⟩ := h s.types s.bag.file
  exact (hx s.bag.entries).2.trans (hx s.bag.entries).1.symm

/-- What was reported before does not matter to the answer and the types. -/
theorem quiet_eq (h : Framed kind x x') (s : BindState) :
    (x s.quiet).1 = (x s).1 ∧ (x s.quiet).2.types = (x s).2.types := by
  obtain ⟨a, types, more, -, -, hx⟩ := h s.types s.bag.file
  rw [show x s = _ from (hx s.bag.entries).1, show x s.quiet = _ from (hx []).1]
  exact ⟨rfl, rfl⟩

/-- **A computation that adds no types puts what it reports alone behind what was reported
before.** -/
theorem alone (h : Framed kind x x') {s : BindState} (ht : (x s.quiet).2.types = s.types) :
    x s = ((x s.quiet).1, s.adding (x s.quiet).2.bag.entries) := by
  obtain ⟨a, types, more, -, -, hx⟩ := h s.types s.bag.file
  have hquiet : x s.quiet = _ := (hx []).1
  rw [hquiet] at ht ⊢
  obtain rfl : types = s.types := ht
  exact (hx s.bag.entries).1

end Framed

namespace Binder

variable {b : Binder} {a' : Arena} {p : NodeRef → Prop} {nested nested' : NodeRef → BindM BoundExpr}

/-! ## Initializers one by one -/

section Initializers

variable (h : b.arena.Coincides a' p) (hk : FramedNested p nested nested') (copy : BoundExpr)
  {nodes : List NodeRef} {s : BindState}
include h hk

/-- If some initializers add no types, then none of them adds any. -/
theorem initializer_types_eq (hn : ∀ node ∈ nodes, p node)
    (ht : (b.initializers nested copy nodes s).2.types = s.types) :
    ∀ node ∈ nodes, (b.initializer nested copy node s.quiet).2.types = s.types := by
  induction nodes generalizing s with
  | nil => exact nofun
  | cons node rest ih =>
    rw [List.forall_mem_cons] at hn
    have hfirst := framed_initializer h hk copy hn.1
    have hrest := framed_initializers h hk copy hn.2
    have hle := hrest.le (b.initializer nested copy node s).2
    have hsame : (b.initializer nested copy node s).2.types = s.types :=
      TypeTable.eq_of_le_of_le (hfirst.le s) (hle.trans (le_of_eq ht))
    have halone : (b.initializer nested copy node s.quiet).2.types = s.types :=
      (hfirst.quiet_eq s).2.trans hsame
    refine List.forall_mem_cons.2 ⟨halone, ?_⟩
    have hstate : (b.initializer nested copy node s).2 = s.adding _ :=
      congrArg Prod.snd (hfirst.alone halone)
    have ht' : (b.initializers nested copy rest (b.initializer nested copy node s).2).2.types =
        s.types := ht
    rw [hstate] at ht'
    exact ih (s := s.adding _) hn.2 ht'

/-- **Initializers are bound one by one.** Where none of them adds types, each one gives what it
gives alone, and its diagnostics follow those of the ones before it. -/
theorem initializers_settled (hn : ∀ node ∈ nodes, p node)
    (ht : ∀ node ∈ nodes, (b.initializer nested copy node s.quiet).2.types = s.types) :
    b.initializers nested copy nodes s =
      (nodes.map fun node => (b.initializer nested copy node s.quiet).1,
        s.adding (nodes.flatMap fun node =>
          (b.initializer nested copy node s.quiet).2.bag.entries)) := by
  induction nodes generalizing s with
  | nil =>
    rw [List.flatMap_nil, BindState.adding_nil]
    rfl
  | cons node rest ih =>
    rw [List.forall_mem_cons] at hn ht
    have hfirst := (framed_initializer h hk copy hn.1).alone ht.1
    rw [initializers, bind_apply, bind_apply, hfirst, ih (s := s.adding _) hn.2 ht.2, List.map_cons,
      List.flatMap_cons, BindState.adding_append]
    rfl

end Initializers

/-! ## Updates -/

/-- What an update has before its initializers: the receiver, its type, and the clone method. -/
structure UpdateFront where
  receiver : BoundExpr
  receiverType : TypeId
  clone : CloneChoice

namespace UpdateFront

/-- The type of the copy: that which the clone method returns, or else that of the receiver. -/
def ty (f : UpdateFront) : TypeId :=
  (f.clone.method?.map (·.ty)).getD f.receiverType

/-- The method that makes the copy. -/
def clone? (f : UpdateFront) : Option MemberId :=
  f.clone.method?.map (·.member)

/-- Whether the receiver or the clone method is faulty. -/
def failed (f : UpdateFront) : Bool :=
  f.receiver.hasErrors || f.clone.failed

/-- The copy that the initializers change. -/
def copy (f : UpdateFront) (receiver : NodeRef) : BoundExpr :=
  .placeholder ⟨receiver, some f.ty, false⟩

/-- The update with some entries and a mark. -/
def update (f : UpdateFront) (node : NodeRef) (failed : Bool) (entries : List BoundInitializer) :
    BoundExpr :=
  .update ⟨node, some f.ty, failed⟩ f.receiver f.clone? (entries.map fun i => (i.member?, i.value))
    failed

/-- Whether names are asked for does not depend on the order of the entries. -/
theorem asksClone_update (f : UpdateFront) (node node' : NodeRef) (failed : Bool)
    {entries entries' : List BoundInitializer} (hp : entries.Perm entries') :
    (f.update node' failed entries').asksClone = (f.update node failed entries).asksClone := by
  rw [update, update, BoundExpr.asksClone, BoundExpr.asksClone, BoundExpr.anyEntryAsksClone_eq_any,
    BoundExpr.anyEntryAsksClone_eq_any, (hp.map _).any_eq]

end UpdateFront

/-- The receiver of an update is bound, and its clone method is chosen. -/
def front (b : Binder) (nested : NodeRef → BindM BoundExpr) (receiver : NodeRef) :
    BindM UpdateFront := do
  let (e, ty) ← b.receiver nested receiver
  let clone ← b.chooseClone receiver ty
  return ⟨e, ty, clone⟩

section Updates

variable {node node' receiver : NodeRef} {entries entries' : List NodeRef} {list list' : ListSpan}
  {s : BindState}

theorem framed_front (h : b.arena.Coincides a' p) (hk : FramedNested p nested nested')
    (hr : p receiver) :
    Framed Whatever (b.front nested receiver) ((b.over a').front nested' receiver) := by
  refine (framed_receiver h hk hr).bind fun e _ => ?_
  exact (framed_chooseClone h hr e.2).bind fun clone _ => .pure trivial

/-- An update is bound front first. -/
theorem update_of_front (hs : b.arena.shape? node = some (.update receiver entries list))
    {f : UpdateFront} {s₁ : BindState} (hf : b.front nested receiver s = (f, s₁))
    {is : List BoundInitializer} {s' : BindState}
    (hi : b.initializers nested (f.copy receiver) entries s₁ = (is, s')) :
    b.update nested node s = (f.update node (f.failed || is.any (·.failed)) is, s') := by
  obtain ⟨rfl, rfl⟩ := Prod.mk.inj hf
  obtain ⟨rfl, rfl⟩ := Prod.mk.inj hi
  simp only [update, hs]
  rfl

/-- **An update that adds no types**: its front is bound as in a state without reports, and each of
its initializers as if it stood alone. -/
theorem update_settled (h : b.arena.Coincides a' p) (hk : FramedNested p nested nested')
    (hs : b.arena.shape? node = some (.update receiver entries list)) (hr : p receiver)
    (he : ∀ entry ∈ entries, p entry) (ht : (b.update nested node s).2.types = s.types) :
    b.front nested receiver s =
        ((b.front nested receiver s.quiet).1,
          s.adding (b.front nested receiver s.quiet).2.bag.entries) ∧
      ∀ entry ∈ entries, (b.initializer nested ((b.front nested receiver s.quiet).1.copy receiver)
        entry s.quiet).2.types = s.types := by
  have hfront := framed_front h hk hr
  rcases hf : b.front nested receiver s with ⟨f, s₁⟩
  rcases hi : b.initializers nested (f.copy receiver) entries s₁ with ⟨is, s'⟩
  rw [update_of_front hs hf hi] at ht
  have hle : s.types ≤ s₁.types := by simpa [hf] using hfront.le s
  have hle' : s₁.types ≤ s'.types := by
    simpa [hi] using (framed_initializers h hk (f.copy receiver) he).le s₁
  have hsame : s₁.types = s.types := TypeTable.eq_of_le_of_le hle (hle'.trans (le_of_eq ht))
  have hquiet : (b.front nested receiver s.quiet).2.types = s.types := by
    rw [(hfront.quiet_eq s).2, hf, hsame]
  have halone := hfront.alone hquiet
  rw [hf] at halone
  refine ⟨halone, ?_⟩
  obtain ⟨rfl, rfl⟩ := Prod.mk.inj halone
  refine initializer_types_eq h hk _ (s := s.adding (b.front nested receiver s.quiet).2.bag.entries)
    he ?_
  rw [hi]
  exact ht

/-- An update with a front and initializers that add no types, with the initializers in any
order. -/
theorem update_of_settled (h : b.arena.Coincides a' p) (hk : FramedNested p nested nested')
    (hs : a'.shape? node' = some (.update receiver entries' list')) (hr : p receiver)
    (he : ∀ entry ∈ entries', p entry) {f : UpdateFront} {reported : List Diagnostic}
    (hf : b.front nested receiver s = (f, s.adding reported))
    {own : NodeRef → BoundInitializer × BindState}
    (hown : ∀ entry, b.initializer nested (f.copy receiver) entry s.quiet = own entry)
    (ht : ∀ entry ∈ entries', (own entry).2.types = s.types) :
    (b.over a').update nested' node' s =
      (f.update node' (f.failed || (entries'.map fun entry => (own entry).1).any (·.failed))
        (entries'.map fun entry => (own entry).1),
        s.adding (reported ++ entries'.flatMap fun entry => (own entry).2.bag.entries)) := by
  obtain rfl : (fun entry => b.initializer nested (f.copy receiver) entry s.quiet) = own :=
    funext hown
  have hf' : (b.over a').front nested' receiver s = (f, s.adding reported) :=
    ((framed_front h hk hr).apply_eq s).trans hf
  have hi := ((framed_initializers h hk _ he).apply_eq (s.adding reported)).trans
    (initializers_settled h hk _ he ht)
  rw [update_of_front hs hf' hi, BindState.adding_append]
  rfl

/-- **An update with its initializers in another order.** Two nodes, of arenas that hold the same
nodes where the parts of the update lead to, list the same initializers in two orders. Where binding
the one adds no types, both have the same receiver, clone method, type and mark, and the same
diagnostics before the first initializer; and each initializer brings the entry and the diagnostics
that it brings when it is bound alone, at whatever place it stands.

The same holds in any context of the binder. Both leave the same depth, mark for targets and table
of names behind. -/
theorem update_permuted (hs : b.arena.HasShape node (.update receiver entries list))
    (hs' : a'.HasShape node' (.update receiver entries' list')) (hp : entries.Perm entries')
    (hsame : ∀ r, b.arena.Within (receiver :: entries) r → a'.get? r = b.arena.get? r)
    (depth : Nat) (ht : (b.update (b.expr depth) node s).2.types = s.types) :
    ∃ (front : UpdateFront) (failed : Bool) (reported : List Diagnostic),
      let own (entry : NodeRef) : BoundInitializer × BindState :=
        b.initializer (b.expr depth) (front.copy receiver) entry s.quiet
      let bound (node : NodeRef) (entries : List NodeRef) : BoundExpr :=
        front.update node failed (entries.map fun entry => (own entry).1)
      let after (entries : List NodeRef) : BindState :=
        s.adding (reported ++ entries.flatMap fun entry => (own entry).2.bag.entries)
      (b.update (b.expr depth) node s = (bound node entries, after entries) ∧
        (b.over a').update ((b.over a').expr depth) node' s =
          (bound node' entries', after entries')) ∧
      ∀ c : BindContext, c.state = s → b.options.maxDepth - c.depth = depth + 1 →
        ∃ asked, b.Ends node c (bound node entries) (c.after (after entries) asked) ∧
          (b.over a').Ends node' c (bound node' entries') (c.after (after entries') asked) := by
  have h := Arena.coincides_within hsame
  have hr : b.arena.Within (receiver :: entries) receiver := .root (by simp)
  have he : ∀ entry ∈ entries, b.arena.Within (receiver :: entries) entry :=
    fun entry hentry => .root (by simp [hentry])
  have hk := framed_expr h depth
  obtain ⟨hfront, hown⟩ := update_settled h hk hs.1 hr he ht
  generalize (b.front (b.expr depth) receiver s.quiet).1 = front at hfront hown
  generalize (b.front (b.expr depth) receiver s.quiet).2.bag.entries = reported at hfront
  refine ⟨front, front.failed || (entries.map fun entry =>
    (b.initializer (b.expr depth) (front.copy receiver) entry s.quiet).1).any (·.failed),
    reported, ?_⟩
  intro own bound after
  -- The arena coincides with itself, so both orders are cases of one lemma.
  have hself : b.arena.Coincides b.arena (b.arena.Within (receiver :: entries)) :=
    Arena.coincides_within fun _ _ => rfl
  have hbound : b.update (b.expr depth) node s = (bound node entries, after entries) :=
    update_of_settled hself (framed_expr hself depth) hs.1 hr he hfront (fun _ => rfl) hown
  have hmem : ∀ entry ∈ entries', entry ∈ entries := fun entry hentry => hp.mem_iff.2 hentry
  have hbound' : (b.over a').update ((b.over a').expr depth) node' s =
      (bound node' entries', after entries') := by
    have hsettled := update_of_settled h hk hs'.1 hr
      (fun entry hentry => he entry (hmem entry hentry)) hfront (fun _ => rfl)
      fun entry hentry => hown entry (hmem entry hentry)
    rwa [(hp.symm.map _).any_eq] at hsettled
  refine ⟨⟨hbound, hbound'⟩, fun c hc hd => ?_⟩
  subst hc
  refine ⟨(bound node entries).asksClone, ?_, ?_⟩
  · have hends := b.ends_expr node c
    rwa [hd, expr, node_update hs, hbound] at hends
  · have hends := (b.over a').ends_expr node' c
    rw [options_over, hd, expr, node_update hs', hbound'] at hends
    rwa [← front.asksClone_update node node' _ (hp.map _)]

/-- The nodes of `d with { X = d, y }`, with the initializers of the update in the other order. -/
def swappedArena : Arena :=
  ⟨(parse "d with { X = d, y }").arena.nodes.set! 6
    ⟨.update (some 0) [some 5, some 3] ⟨⟨8, 18⟩, false⟩, ⟨0, 19⟩, false⟩⟩

/-- A value that does not fit, and an unknown name: each diagnostic moves with its initializer. -/
theorem update_permuted_of_swapped :
    ∃ (front : UpdateFront) (failed : Bool) (reported : List Diagnostic),
      let b := copyBinder "d with { X = d, y }"
      let own (entry : NodeRef) : BoundInitializer × BindState :=
        b.initializer (b.expr 2) (front.copy (some 0)) entry copyState.quiet
      (b.update (b.expr 2) (some 6) copyState =
          (front.update (some 6) failed [(own (some 3)).1, (own (some 5)).1],
            copyState.adding (reported ++
              [(own (some 3)).2.bag.entries, (own (some 5)).2.bag.entries].flatten)) ∧
        (b.over swappedArena).update ((b.over swappedArena).expr 2) (some 6) copyState =
          (front.update (some 6) failed [(own (some 5)).1, (own (some 3)).1],
            copyState.adding (reported ++
              [(own (some 5)).2.bag.entries, (own (some 3)).2.bag.entries].flatten))) ∧
      (b.update (b.expr 2) (some 6) copyState).2.bag.entries.map (·.code) =
        [Issue.noConversion.code, Issue.unknownName.code] ∧
      ((b.over swappedArena).update ((b.over swappedArena).expr 2) (some 6)
        copyState).2.bag.entries.map (·.code) =
          [Issue.unknownName.code, Issue.noConversion.code] := by
  have hshape : (copyBinder "d with { X = d, y }").arena.HasShape (some 6)
      (.update (some 0) [some 3, some 5] ⟨⟨8, 18⟩, false⟩) := by
    decide +kernel
  have hshape' : swappedArena.HasShape (some 6)
      (.update (some 0) [some 5, some 3] ⟨⟨8, 18⟩, false⟩) := by
    decide +kernel
  have hwithin : ∀ r, (copyBinder "d with { X = d, y }").arena.Within [some 0, some 3, some 5] r →
      r ∈ [none, some 0, some 1, some 2, some 3, some 4, some 5] := by
    have hclosed : ∀ r ∈ [none, some 0, some 1, some 2, some 3, some 4, some 5],
        ∀ shape ∈ (copyBinder "d with { X = d, y }").arena.shape? r, ∀ part ∈ shape.parts,
          part ∈ [none, some 0, some 1, some 2, some 3, some 4, some 5] := by
      decide +kernel
    intro r hr
    induction hr with
    | root h =>
      revert h
      simp only [List.mem_cons, List.not_mem_nil, or_false]
      rintro (rfl | rfl | rfl) <;> simp
    | part _ hs hp ih => exact hclosed _ ih _ hs _ hp
  have hsame : ∀ r ∈ [none, some 0, some 1, some 2, some 3, some 4, some 5],
      swappedArena.get? r = (copyBinder "d with { X = d, y }").arena.get? r := by
    decide +kernel
  obtain ⟨front, failed, reported, h, -⟩ := update_permuted hshape hshape' (.swap _ _ _)
    (fun r hr => hsame r (hwithin r hr)) 2 (s := copyState) (by decide +kernel)
  refine ⟨front, failed, reported, ?_, by decide +kernel, by decide +kernel⟩
  simpa using h

end Updates

end Binder

end UpdateExpr
