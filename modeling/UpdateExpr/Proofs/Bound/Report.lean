import UpdateExpr.Bound.Binding
import UpdateExpr.Proofs.Ty.Steady

/-!
# Reports of the binder

Binding changes its state in two ways only: it reports diagnostics, and it goes on with more types.
Here these two are functions on states, and each elementary step of the binder is computed as a
function of the state.

## Main definitions

* `BindState.tell`, `BindState.tellNotes`: the state after a report, and after reports of notes
* `BindState.withTypes`: the state with other types

## Main results

* `BindState.entries_tell`, `BindState.entries_tellNotes`: what a report adds
* `Binder.reportNotes_apply`: reported notes make an expression faulty, if there are any
-/

namespace UpdateExpr

/-- Every number is that of an error. -/
@[simp] theorem Severity.ofCode_eq_error (code : Nat) : Severity.ofCode code = .error := by
  unfold Severity.ofCode
  cases Issue.ofCode? code <;> rfl

/-! ## Reports -/

namespace UseSite

/-- The diagnostic that a note makes at a span. -/
def diagnostic (file : String) (span : Span) (note : UseSite) : Diagnostic :=
  .ofCode file span note.code note.args

end UseSite

namespace BindState

/-- The state with a diagnostic reported. -/
def tell (s : BindState) (code : Nat) (span : Span) (args : List String) : BindState :=
  { s with bag := s.bag.add code span args }

/-- The state with notes reported. -/
def tellNotes (s : BindState) (span : Span) (notes : List UseSite) : BindState :=
  notes.foldl (fun s note => s.tell note.code span note.args) s

/-- The state with other types. -/
def withTypes (s : BindState) (types : TypeTable) : BindState :=
  { s with types }

variable (s : BindState) (span : Span)

@[simp] theorem types_tell (code : Nat) (args : List String) :
    (s.tell code span args).types = s.types := rfl

@[simp] theorem file_tell (code : Nat) (args : List String) :
    (s.tell code span args).bag.file = s.bag.file := rfl

@[simp] theorem entries_tell (code : Nat) (args : List String) :
    (s.tell code span args).bag.entries =
      s.bag.entries ++ [.ofCode s.bag.file span code args] := rfl

@[simp] theorem types_withTypes (types : TypeTable) : (s.withTypes types).types = types := rfl

@[simp] theorem bag_withTypes (types : TypeTable) : (s.withTypes types).bag = s.bag := rfl

@[simp] theorem types_tellNotes (notes : List UseSite) :
    (s.tellNotes span notes).types = s.types := by
  induction notes generalizing s with
  | nil => rfl
  | cons note notes ih => exact ih _

@[simp] theorem file_tellNotes (notes : List UseSite) :
    (s.tellNotes span notes).bag.file = s.bag.file := by
  induction notes generalizing s with
  | nil => rfl
  | cons note notes ih => exact ih _

@[simp] theorem entries_tellNotes (notes : List UseSite) :
    (s.tellNotes span notes).bag.entries =
      s.bag.entries ++ notes.map (UseSite.diagnostic s.bag.file span) := by
  induction notes generalizing s with
  | nil => simp [tellNotes]
  | cons note notes ih =>
    have h : s.tellNotes span (note :: notes) =
        (s.tell note.code span note.args).tellNotes span notes := rfl
    rw [h, ih]
    simp [UseSite.diagnostic]

end BindState

namespace Binder

variable {b : Binder}

theorem report_apply (node : NodeRef) (issue : Issue) (args : List String) (s : BindState) :
    b.report node issue args s = ((), s.tell issue.code (b.arena.span node) args) := rfl

theorem typeName_apply (ty? : Option TypeId) (s : BindState) :
    b.typeName ty? s = ((ty?.map (b.symbols.displayType s.types)).getD "<null>", s) := rfl

theorem ask_apply {α : Type} (question : QueryM α) (s : BindState) :
    BindM.ask question s =
      (((question { types := s.types }).1, (question { types := s.types }).2.notes),
        s.withTypes (question { types := s.types }).2.types) := rfl

/-- Reported notes make an expression faulty, if there are any. -/
theorem reportNotes_apply (node : NodeRef) (notes : List UseSite) (s : BindState) :
    b.reportNotes node notes s = (!notes.isEmpty, s.tellNotes (b.arena.span node) notes) := by
  have told : ∀ s : BindState,
      (notes.forM fun note => b.reportCode node note.code note.args) s =
        ((), s.tellNotes (b.arena.span node) notes) := by
    induction notes with
    | nil => exact fun _ => rfl
    | cons note notes ih => exact fun s => ih _
  rw [reportNotes, bind_apply, told, pure_apply]
  simp only [Severity.ofCode_eq_error]
  cases notes <;> rfl

end Binder

end UpdateExpr
