import UpdateExpr.Diagnostic.Issue

/-!
# Use-site notes

A question about types can meet a definition that is not whole, such as a class whose base could
not be loaded. It goes on without that part and leaves a note; whoever asked decides whether the
note is worth a report.

## Main definitions

* `UseSite`: a note
* `UseSite.add`: the notes with one more, unless it is there already

## Main results

* `UseSite.nodup_add`: notes stay distinct
-/

namespace UpdateExpr

/-- A note: the number of an issue and the names it is about. -/
structure UseSite where
  code : Nat
  args : List String
  deriving DecidableEq, Repr, Inhabited

namespace UseSite

/-- The notes with one more at the end, unless it is there already. -/
def add (notes : List UseSite) (note : UseSite) : List UseSite :=
  if note ∈ notes then notes else notes ++ [note]

/-- The note that the base of a definition could not be loaded. -/
def baseUnresolved (base definition : String) : UseSite :=
  ⟨Issue.baseTypeUnresolved.code, [base, definition]⟩

@[simp] theorem mem_add {notes : List UseSite} {note other : UseSite} :
    other ∈ add notes note ↔ other ∈ notes ∨ other = note := by
  unfold add
  split
  · next h => exact ⟨.inl, fun ho => ho.elim id fun e => e ▸ h⟩
  · simp

/-- **Notes stay distinct.** -/
theorem nodup_add {notes : List UseSite} (h : notes.Nodup) (note : UseSite) :
    (add notes note).Nodup := by
  unfold add
  split
  · exact h
  · next hn =>
    rw [List.nodup_append]
    refine ⟨h, by simp, fun a ha b hb => ?_⟩
    rw [List.mem_singleton] at hb
    exact fun e => hn (hb ▸ e ▸ ha)

end UseSite

end UpdateExpr
