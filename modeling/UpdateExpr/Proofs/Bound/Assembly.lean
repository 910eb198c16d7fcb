import UpdateExpr.Proofs.Bound.Typing

/-!
# What an update is put together from

An update is bound to what its syntax lists, whatever goes wrong on the way. Each of its parts may
fail on its own, and the next one is bound with what is known: where there is no receiver type no
method is looked for, where there is no method the type of the receiver stands in, and each node of
the list gives one entry. So the parts are a record, and the update is a function of it.

## Main definitions

* `UpdateParts`: the receiver, the methods that could copy it, and the entries
* `UpdateParts.Flawed`: what makes an update faulty
* `Binder.CopyRun`: what is looked for to copy a receiver, and what is reported
* `Binder.PartsRun`: the parts of an update are bound one after another

## Main results

* `Binder.copy_run`: the clone method is the first one without parameters
* `Binder.CopyRun.copies_eq`: which methods could copy a receiver
* `Binder.InitializersRun.at_place`: each entry comes from the node at its place
* `Binder.update_assembled`: an update is put together from its parts, and has the mark exactly if
  they are flawed
-/

namespace UpdateExpr

/-! ## Parts -/

/-- Whether an expression is no value: it has no type, or the one without values. -/
def BoundExpr.lacksValue (e : BoundExpr) : Bool :=
  e.ty?.all (· == .void)

/-- The type of an expression as a receiver, which is the error type where it is no value. -/
def BoundExpr.receiverType (e : BoundExpr) : TypeId :=
  (e.ty?.filter (· ≠ .void)).getD .error

namespace BoundExpr

variable {e : BoundExpr} {ty : TypeId}

theorem lacksValue_of_ne_void (h : e.ty? = some ty) (hv : ty ≠ .void) : e.lacksValue = false := by
  rw [lacksValue, h]
  exact beq_eq_false_iff_ne.2 hv

theorem receiverType_of_ne_void (h : e.ty? = some ty) (hv : ty ≠ .void) : e.receiverType = ty := by
  rw [receiverType, h, Option.filter_some, if_pos (decide_eq_true hv)]
  rfl

theorem receiverType_of_lacksValue (h : e.lacksValue = true) : e.receiverType = .error := by
  unfold lacksValue at h
  unfold receiverType
  cases ht : e.ty? with
  | none => rfl
  | some ty =>
    rw [ht, Option.all_some, beq_iff_eq] at h
    rw [h]
    rfl

end BoundExpr

/-- What an update is put together from: the receiver as it was read, the methods that could copy
it, whether its type fits what the first of them returns, and the entries. -/
structure UpdateParts where
  receiver : BoundExpr
  copies : List Candidate
  fits : Bool
  entries : List BoundInitializer

namespace UpdateParts

/-- The method that copies the receiver. -/
def clone? (p : UpdateParts) : Option Candidate :=
  p.copies.head?

/-- The type of the copy: that which the method returns, or else that of the receiver. -/
def ty (p : UpdateParts) : TypeId :=
  (p.clone?.map (·.ty)).getD p.receiver.receiverType

/-- What makes an update faulty. Whether more than one method to copy the receiver is a flaw is an
option. -/
inductive Flawed (options : BindOptions) (p : UpdateParts) : Prop
  | receiver (h : p.receiver.hasErrors = true)
  | noValue (h : p.receiver.lacksValue = true)
  | noClone (h : p.receiver.receiverType ≠ .error) (hc : p.clone? = none)
  | ambiguous (h : options.reportAmbiguousClone = true) (hc : 2 ≤ p.copies.length)
  | misfit (hc : p.clone? ≠ none) (h : p.fits = false)
  | entry {i} (hi : i ∈ p.entries) (h : i.failed = true)

end UpdateParts

/-- The state with a diagnostic reported if there is a reason for it. -/
def BindState.tellIf (s : BindState) (reason : Bool) (code : Nat) (span : Span)
    (args : List String) : BindState :=
  if reason then s.tell code span args else s

namespace BindState

variable (s : BindState) (reason : Bool) (code : Nat) (span : Span) (args : List String)

@[simp] theorem tellIf_true : s.tellIf true code span args = s.tell code span args := rfl

@[simp] theorem tellIf_false : s.tellIf false code span args = s := rfl

@[simp] theorem types_tellIf : (s.tellIf reason code span args).types = s.types := by
  cases reason <;> rfl

end BindState

namespace Binder

open BindState

variable {b : Binder}

/-! ## The method that copies a receiver -/

section Copies

variable {node : NodeRef} {receiver returned : TypeId} {m : Candidate} {others : List Candidate}
  {choice : CloneChoice} {s s' : BindState}

/-- Whether more than one method could copy a receiver, and this counts. -/
def isAmbiguous (b : Binder) (copies : List Candidate) : Bool :=
  b.options.reportAmbiguousClone && decide (2 ≤ copies.length)

/-- A method is looked for that copies a receiver of a type. It is looked for by name, unless the
type is the error type; it counts if the lookup is not in vain and it has no parameters; and the
type of the receiver is, or derives from, what the first of these methods returns. -/
inductive CopyRun (b : Binder) (node : NodeRef) (receiver : TypeId) (s : BindState) :
    List Candidate → Bool → BindState → Prop
  | faulty (h : receiver = .error) : CopyRun b node receiver s [] true s
  | absent {l q} (args : List String) (h : receiver ≠ .error)
    (hl : b.symbols.lookup receiver (b.query cloneName 0 true) { types := s.types } = (l, q))
    (hn : l.isViable = true → l.parameterless = []) :
    CopyRun b node receiver s [] true
      ((s.withTypes q.types).tell Issue.noCloneMethod.code (b.arena.span node) args)
  | present {l q m others fits q'} (args args' : List String) (h : receiver ≠ .error)
    (hl : b.symbols.lookup receiver (b.query cloneName 0 true) { types := s.types } = (l, q))
    (hv : l.isViable = true) (hp : l.parameterless = m :: others)
    (hf : b.symbols.derivesFrom .ignoreNull receiver m.ty { types := q.types } = (fits, q')) :
    CopyRun b node receiver s (m :: others) fits
      ((((s.withTypes q.types).tellIf (b.isAmbiguous (m :: others)) Issue.ambiguousClone.code
        (b.arena.span node) args).withTypes q'.types).tellIf (!fits) Issue.cloneReturnType.code
        (b.arena.span node) args')

theorem checkCloneChoice_eq (node : NodeRef) (receiver : TypeId) (m : Candidate)
    (others : List Candidate) (s : BindState) :
    ∃ args, b.checkCloneChoice node receiver m others s =
      (!b.isAmbiguous (m :: others), s.tellIf (b.isAmbiguous (m :: others))
        Issue.ambiguousClone.code (b.arena.span node) args) := by
  unfold checkCloneChoice isAmbiguous
  cases b.options.reportAmbiguousClone with
  | false => exact ⟨[], rfl⟩
  | true =>
    cases others with
    | nil => exact ⟨[], rfl⟩
    | cons other others => exact ⟨_, by simp; rfl⟩

theorem checkCloneType_eq (node : NodeRef) (receiver returned : TypeId) (s : BindState) :
    ∃ args, b.checkCloneType node receiver returned s =
      ((b.symbols.derivesFrom .ignoreNull receiver returned { types := s.types }).1,
        (s.withTypes (b.symbols.derivesFrom .ignoreNull receiver returned
          { types := s.types }).2.types).tellIf
            (!(b.symbols.derivesFrom .ignoreNull receiver returned { types := s.types }).1)
            Issue.cloneReturnType.code (b.arena.span node) args) := by
  rcases hd : b.symbols.derivesFrom .ignoreNull receiver returned { types := s.types } with ⟨d, q⟩
  simp only [checkCloneType, bind_apply, ask_apply, hd]
  cases d with
  | true => exact ⟨[], rfl⟩
  | false => exact ⟨_, rfl⟩

/-- **The clone method is the first one without parameters.** Its choice has failed if there is no
such method, though there is a receiver type, or if a check objects to it. -/
theorem copy_run (h : b.chooseClone node receiver s = (choice, s')) :
    ∃ copies fits, b.CopyRun node receiver s copies fits s' ∧ choice.method? = copies.head? ∧
      choice.failed = (!receiver.isError && copies.isEmpty || b.isAmbiguous copies ||
        !copies.isEmpty && !fits) := by
  unfold chooseClone at h
  cases he : receiver.isError with
  | true =>
    rw [he, if_pos rfl] at h
    obtain ⟨rfl, rfl⟩ := Prod.mk.inj h
    exact ⟨[], true, .faulty (eq_of_beq he), rfl, by simp [isAmbiguous]⟩
  | false =>
    have he' : receiver ≠ .error := by simpa [TypeId.isError] using he
    rcases hl : b.symbols.lookup receiver (b.query cloneName 0 true) { types := s.types }
      with ⟨l, q⟩
    have hl' := hl
    unfold query at hl'
    simp only [he, Bool.false_eq_true, if_false, bind_apply, ask_apply, hl'] at h
    cases hp : if l.isViable then l.parameterless else [] with
    | nil =>
      simp only [hp, bind_apply, typeName_apply, report_apply, pure_apply] at h
      obtain ⟨rfl, rfl⟩ := Prod.mk.inj h
      refine ⟨[], true, .absent _ he' hl fun hv => ?_, rfl, by simp [isAmbiguous]⟩
      rwa [if_pos hv] at hp
    | cons m others =>
      have hv : l.isViable = true := by
        by_contra hv
        rw [if_neg hv] at hp
        cases hp
      rw [if_pos hv] at hp
      obtain ⟨args, hc⟩ := checkCloneChoice_eq (b := b) node receiver m others (s.withTypes q.types)
      obtain ⟨args', ht⟩ := checkCloneType_eq (b := b) node receiver m.ty
        ((s.withTypes q.types).tellIf (b.isAmbiguous (m :: others)) Issue.ambiguousClone.code
          (b.arena.span node) args)
      rw [types_tellIf, types_withTypes] at ht
      simp only [hv, if_true, hp, bind_apply, hc, ht, pure_apply] at h
      obtain ⟨rfl, rfl⟩ := Prod.mk.inj h
      exact ⟨m :: others, _, .present args args' he' hl hv hp rfl, rfl, by simp⟩

/-- The methods that could copy a receiver are the usable ones without parameters that are found. -/
theorem CopyRun.copies_eq {copies : List Candidate} {fits : Bool} {l : Lookup} {q : QueryState}
    (h : b.CopyRun node receiver s copies fits s') (he : receiver ≠ .error)
    (hl : b.symbols.lookup receiver (b.query cloneName 0 true) { types := s.types } = (l, q)) :
    copies = if l.isViable then l.parameterless else [] := by
  cases h with
  | faulty h => exact absurd h he
  | absent _ _ hl' hn =>
    obtain ⟨rfl, rfl⟩ := Prod.mk.inj (hl.symm.trans hl')
    split
    · next hv => exact (hn hv).symm
    · rfl
  | present _ _ _ hl' hv hp _ =>
    obtain ⟨rfl, rfl⟩ := Prod.mk.inj (hl.symm.trans hl')
    rw [if_pos hv, hp]

end Copies

/-! ## The receiver -/

section Receiver

variable {nested : NodeRef → BindM BoundExpr} {node : NodeRef} {r : BoundExpr} {s s₁ : BindState}

/-- **The receiver is the expression that is read.** One that is no value is faulty and reported. -/
theorem receiver_eq (h : (nested node >>= b.readable) s = (r, s₁)) :
    b.receiver nested node s =
      ((r.addErrors r.lacksValue, r.receiverType),
        s₁.tellIf r.lacksValue Issue.invalidUpdateReceiver.code (b.arena.span node) []) := by
  rw [bind_apply] at h
  simp only [Binder.receiver, bind_apply, h]
  unfold BoundExpr.lacksValue BoundExpr.receiverType
  cases ht : r.ty? with
  | none => rfl
  | some ty =>
    by_cases hv : ty = .void
    · subst hv
      rfl
    · have hkept : (some ty).filter (· ≠ TypeId.void) = some ty := by simp [hv]
      have hno : (ty == TypeId.void) = false := beq_eq_false_iff_ne.2 hv
      simp only [hkept, hno, Option.all_some, Option.getD_some, BoundExpr.addErrors_false]
      rfl

end Receiver

/-! ## The entries -/

section Entries

variable {nested : NodeRef → BindM BoundExpr} {copy : BoundExpr} {node : NodeRef}
  {nodes : List NodeRef} {init : BoundInitializer} {inits : List BoundInitializer}
  {s s' : BindState} {i : Nat}

/-- The name of the member that a node of the list sets. A node that is no initializer has none, and
neither has one whose name is missing. -/
def entryName? (b : Binder) (node : NodeRef) : Option String :=
  match b.arena.shape? node with
  | some (.initializer nameNode _) =>
    if b.arena.name nameNode = "" then none else some (b.arena.name nameNode)
  | _ => none

theorem InitializerRun.member?_eq_none (h : b.InitializerRun nested copy node s init s')
    (hn : b.entryName? node = none) : init.member? = none := by
  cases h with
  | other _ => rfl
  | bare _ _ _ => rfl
  | named hs hname _ _ _ _ =>
    rw [entryName?, hs] at hn
    exact absurd hn (by simp [hname])

theorem InitializersRun.length_eq (h : b.InitializersRun nested copy nodes s inits s') :
    inits.length = nodes.length := by
  induction h with
  | nil => rfl
  | cons _ _ ih => exact congrArg Nat.succ ih

/-- **Each entry comes from the node at its place**, bound after the entries before it. -/
theorem InitializersRun.at_place (h : b.InitializersRun nested copy nodes s inits s')
    (hn : nodes[i]? = some node) (hi : inits[i]? = some init) :
    ∃ s₁ s₂, b.InitializersRun nested copy (nodes.take i) s (inits.take i) s₁ ∧
      b.InitializerRun nested copy node s₁ init s₂ := by
  induction h generalizing i with
  | nil => cases hn
  | cons h hr ih =>
    cases i with
    | zero =>
      cases hn
      cases hi
      exact ⟨_, _, .nil, h⟩
    | succ i =>
      obtain ⟨s₁, s₂, hbefore, hhere⟩ := ih hn hi
      exact ⟨s₁, s₂, .cons h hbefore, hhere⟩

end Entries

/-! ## The update -/

section Updates

variable {nested : NodeRef → BindM BoundExpr} {node receiverNode : NodeRef} {nodes : List NodeRef}
  {list : ListSpan} {p : UpdateParts} {s s' : BindState}

/-- What stands for the copy while the entries are bound. -/
def copyOf (receiverNode : NodeRef) (p : UpdateParts) : BoundExpr :=
  .placeholder ⟨receiverNode, some p.ty, false⟩

/-- **The parts of an update are bound one after another**: the receiver is read, then it is looked
for what copies it, and then the nodes of the list are bound. -/
inductive PartsRun (b : Binder) (nested : NodeRef → BindM BoundExpr) (receiverNode : NodeRef)
    (nodes : List NodeRef) (s : BindState) (p : UpdateParts) : BindState → Prop
  | intro {s₁ s₂ s'} (hr : (nested receiverNode >>= b.readable) s = (p.receiver, s₁))
    (hc : b.CopyRun receiverNode p.receiver.receiverType
      (s₁.tellIf p.receiver.lacksValue Issue.invalidUpdateReceiver.code
        (b.arena.span receiverNode) []) p.copies p.fits s₂)
    (he : b.InitializersRun nested (copyOf receiverNode p) nodes s₂ p.entries s') :
    PartsRun b nested receiverNode nodes s p s'

/-- What an update is marked for. -/
def failed (b : Binder) (p : UpdateParts) : Bool :=
  p.receiver.hasErrors || p.receiver.lacksValue ||
    (!p.receiver.receiverType.isError && p.copies.isEmpty || b.isAmbiguous p.copies ||
      !p.copies.isEmpty && !p.fits) ||
    p.entries.any (·.failed)

/-- **An update has the mark exactly if its parts are flawed.** -/
theorem failed_iff_flawed : b.failed p = true ↔ p.Flawed b.options := by
  have hclone : p.copies.isEmpty = true ↔ p.clone? = none := by
    simp [UpdateParts.clone?]
  simp only [failed, isAmbiguous, Bool.or_eq_true, Bool.and_eq_true, Bool.not_eq_true',
    List.any_eq_true, decide_eq_true_eq, TypeId.isError, beq_eq_false_iff_ne]
  constructor
  · rintro (((h | h) | ((⟨he, hc⟩ | ⟨ho, hc⟩) | ⟨hc, hf⟩)) | ⟨i, hi, h⟩)
    · exact .receiver h
    · exact .noValue h
    · exact .noClone he (hclone.1 hc)
    · exact .ambiguous ho hc
    · exact .misfit (fun hno => by simp [hclone.2 hno] at hc) hf
    · exact .entry hi h
  · rintro (h | h | ⟨he, hc⟩ | ⟨ho, hc⟩ | ⟨hc, hf⟩ | ⟨hi, h⟩)
    · exact .inl (.inl (.inl h))
    · exact .inl (.inl (.inr h))
    · exact .inl (.inr (.inl (.inl ⟨he, hclone.2 hc⟩)))
    · exact .inl (.inr (.inl (.inr ⟨ho, hc⟩)))
    · refine .inl (.inr (.inr ⟨?_, hf⟩))
      rw [← Bool.not_eq_true, hclone]
      exact hc
    · exact .inr ⟨_, hi, h⟩

/-- The update that is put together from parts. -/
def assemble (b : Binder) (node : NodeRef) (p : UpdateParts) : BoundExpr :=
  .update ⟨node, some p.ty, b.failed p⟩ (p.receiver.addErrors p.receiver.lacksValue)
    (p.clone?.map (·.member)) (p.entries.map fun i => (i.member?, i.value)) (b.failed p)

theorem update_parts (nested : NodeRef → BindM BoundExpr) (s : BindState)
    (h : b.arena.shape? node = some (.update receiverNode nodes list)) :
    ∃ p s', b.PartsRun nested receiverNode nodes s p s' ∧
      b.update nested node s = (b.assemble node p, s') := by
  rcases hr : (nested receiverNode >>= b.readable) s with ⟨r, s₁⟩
  rcases hc : b.chooseClone receiverNode r.receiverType
    (s₁.tellIf r.lacksValue Issue.invalidUpdateReceiver.code (b.arena.span receiverNode) [])
    with ⟨choice, s₂⟩
  obtain ⟨copies, fits, hcopy, hmethod, hfailed⟩ := copy_run hc
  rcases hi : b.initializers nested
    (.placeholder ⟨receiverNode, some ((choice.method?.map (·.ty)).getD r.receiverType), false⟩)
    nodes s₂ with ⟨inits, s'⟩
  have hinits := initializers_run hi
  rw [hmethod] at hinits hi
  refine ⟨⟨r, copies, fits, inits⟩, s', .intro hr hcopy hinits, ?_⟩
  simp only [update, h, bind_apply, receiver_eq hr, hc, hmethod, hi, pure_apply]
  simp only [assemble, failed, UpdateParts.ty, UpdateParts.clone?, hfailed,
    BoundExpr.hasErrors_addErrors]

/-- **An update is put together from what its syntax lists.** At any depth that is left, in any
state, the rule for updates gives an update of the parts that are bound one after another. Its type
is that of the copy, it has one entry for each node of the list, from that node, and it has the mark
exactly if the parts are flawed. A node that names no member gives an entry without one. -/
theorem update_assembled (b : Binder) (depth : Nat) (s : BindState)
    (h : b.arena.shape? node = some (.update receiverNode nodes list)) :
    ∃ p s', b.PartsRun (b.expr depth) receiverNode nodes s p s' ∧
      b.update (b.expr depth) node s = (b.assemble node p, s') ∧
      (b.failed p = true ↔ p.Flawed b.options) ∧
      p.entries.length = nodes.length ∧
      (∀ (i : Nat) (place : NodeRef) (init : BoundInitializer), nodes[i]? = some place →
          p.entries[i]? = some init →
        (∃ s₁ s₂, b.InitializerRun (b.expr depth) (copyOf receiverNode p) place s₁ init s₂) ∧
        (b.entryName? place = none → init.member? = none)) ∧
      ((∀ n, b.arena.get? node = some n → n.missing = false) →
        b.expr (depth + 1) node s = b.update (b.expr depth) node s) := by
  obtain ⟨p, s', hp, hupdate⟩ := update_parts (b.expr depth) s h
  have hentries : ∃ s₂, b.InitializersRun (b.expr depth) (copyOf receiverNode p) nodes s₂
      p.entries s' := by
    cases hp with
    | intro _ _ he => exact ⟨_, he⟩
  obtain ⟨s₂, hentries⟩ := hentries
  refine ⟨p, s', hp, hupdate, failed_iff_flawed, hentries.length_eq, ?_, ?_⟩
  · intro i place init hplace hinit
    obtain ⟨s₃, s₄, -, hrun⟩ := hentries.at_place hplace hinit
    exact ⟨⟨s₃, s₄, hrun⟩, hrun.member?_eq_none⟩
  · intro hmissing
    obtain ⟨n, hn, hshape⟩ := Option.map_eq_some_iff.1 h
    obtain ⟨shape, span, missing⟩ := n
    obtain rfl : missing = false := hmissing _ hn
    obtain rfl : shape = .update receiverNode nodes list := hshape
    simp only [expr, Binder.node, hn]

/-- An update with a value, a name alone, and a member that is not there. -/
theorem update_assembled_of_entries :
    ∃ p s', (copyBinder "d with { X = 1, x, Y = d }").PartsRun
        ((copyBinder "d with { X = 1, x, Y = d }").expr 3) (some 0) [some 3, some 5, some 8]
        copyState p s' ∧
      p.entries.length = 3 ∧ p.Flawed {} := by
  have hshape : (copyBinder "d with { X = 1, x, Y = d }").arena.shape? (some 9) =
      some (.update (some 0) [some 3, some 5, some 8] ⟨⟨8, 25⟩, false⟩) := by
    decide +kernel
  obtain ⟨p, s', hp, hupdate, hflawed, hlength, -⟩ := update_assembled _ 3 copyState hshape
  refine ⟨p, s', hp, hlength, hflawed.1 ?_⟩
  have hmark : ((copyBinder "d with { X = 1, x, Y = d }").update
      ((copyBinder "d with { X = 1, x, Y = d }").expr 3) (some 9) copyState).1.hasErrors =
        true := by
    decide +kernel
  rw [hupdate] at hmark
  exact hmark

end Updates

end Binder

end UpdateExpr
