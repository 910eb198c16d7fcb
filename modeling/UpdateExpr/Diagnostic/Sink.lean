import UpdateExpr.Diagnostic.Basic

/-!
# Collecting diagnostics

A sink takes whole bags, in whatever order their files are done with. Its list is sorted by file,
start, length and number; diagnostics that agree in all four keep the order of their arrival.

## Main definitions

* `Diagnostic.order`: the order of the sorted list
* `Sink.append`, `Sink.sorted`: taking a bag, and the sorted list

## Main results

* `Sink.sorted_perm`: sorting loses and invents nothing
* `Sink.pairwise_sorted`: the list is sorted
-/

namespace UpdateExpr

namespace Diagnostic

/-- Diagnostics ordered by file, then start, then length, then number. File names are ordered as
their characters are, which is also the order of their UTF-8 bytes. -/
def order : Diagnostic → Diagnostic → Ordering :=
  compareLex (compareOn file) <| compareLex (compareOn start) <|
    compareLex (compareOn length) (compareOn code)

/-- Whether the first diagnostic may stand before the second. -/
def le (a b : Diagnostic) : Bool :=
  (order a b).isLE

instance : Std.TransCmp order :=
  inferInstanceAs <| Std.TransCmp <| compareLex (compareOn file) <|
    compareLex (compareOn start) <| compareLex (compareOn length) (compareOn code)

theorem le_trans (a b c : Diagnostic) (hab : le a b) (hbc : le b c) : le a c :=
  Std.TransCmp.isLE_trans hab hbc

theorem le_total (a b : Diagnostic) : le a b || le b a := by
  have h : order b a = (order a b).swap := Std.OrientedCmp.eq_swap
  rw [le, le, h]
  cases order a b <;> rfl

end Diagnostic

/-- The diagnostics of the bags taken so far. -/
structure Sink where
  entries : List Diagnostic := []
  deriving DecidableEq, Repr, Inhabited

namespace Sink

/-- The sink after taking a bag. -/
def append (s : Sink) (b : Bag) : Sink :=
  ⟨s.entries ++ b.entries⟩

/-- Everything taken, sorted. -/
def sorted (s : Sink) : List Diagnostic :=
  s.entries.mergeSort Diagnostic.le

@[simp] theorem entries_append (s : Sink) (b : Bag) :
    (s.append b).entries = s.entries ++ b.entries := rfl

/-- **Sorting loses and invents nothing.** -/
theorem sorted_perm (s : Sink) : s.sorted.Perm s.entries :=
  List.mergeSort_perm ..

/-- **The list is sorted.** -/
theorem pairwise_sorted (s : Sink) : s.sorted.Pairwise fun a b => Diagnostic.le a b = true :=
  List.pairwise_mergeSort Diagnostic.le_trans Diagnostic.le_total _

end Sink

end UpdateExpr
