import Mathlib.Data.List.Perm.Subperm
import UpdateExpr.Diagnostic.Sink

/-!
# The order of arrival

Bags arrive at a sink as their files are done with. The sorted list compares file, start, length
and number only, and the sort is stable: diagnostics that agree in all four stand as they arrived.
So the list depends on the order of arrival exactly through the diagnostics of one key.

## Main definitions

* `Diagnostic.key`, `Diagnostic.ties`: what is compared, and the diagnostics that compare equal
* `Bag.Commutes`: two bags whose order of arrival cannot be told
* `Sink.ofBags`: the sink after a list of bags

## Main results

* `filter_mergeSort_eq`: a stable sort keeps what is sorted already
* `Sink.sorted_eq_iff`: two sinks have one sorted list iff the ties of each key arrived alike
* `Sink.sorted_arrival_iff`: the list is free of the order of arrival iff any two bags commute
* `Sink.sorted_eq_of_separated`: so it is where the key separates different diagnostics
-/

namespace UpdateExpr

/-- **A stable sort keeps what is sorted already** of a list in its order. -/
theorem filter_mergeSort_eq {α : Type} {le : α → α → Bool} {keep : α → Bool} {l : List α}
    (htrans : ∀ a b c, le a b = true → le b c = true → le a c = true)
    (htotal : ∀ a b, (le a b || le b a) = true)
    (h : (l.filter keep).Pairwise fun a b => le a b = true) :
    (l.mergeSort le).filter keep = l.filter keep := by
  have hsub := (List.sublist_mergeSort htrans htotal h List.filter_sublist).filter keep
  rw [List.filter_filter] at hsub
  simp only [Bool.and_self] at hsub
  exact (hsub.eq_of_length ((List.mergeSort_perm l le).symm.filter keep).length_eq).symm

namespace Diagnostic

/-! ## The key of a diagnostic -/

section Key

/-- What the sorted list compares: file, start, length and number, not the message. -/
def key (d : Diagnostic) : String × Nat × Nat × Nat :=
  (d.file, d.start, d.length, d.code)

/-- The diagnostics of a list that have a given key, in their order. -/
def ties (k : String × Nat × Nat × Nat) (ds : List Diagnostic) : List Diagnostic :=
  ds.filter (·.key = k)

variable {k : String × Nat × Nat × Nat} {a b : Diagnostic} {ds es : List Diagnostic}

theorem order_eq_eq_iff : order a b = .eq ↔ a.key = b.key := by
  simp [order, key, compareLex_eq_eq, compareOn, Prod.ext_iff]

theorem le_of_key_eq (h : a.key = b.key) : le a b = true := by
  rw [le, order_eq_eq_iff.2 h]
  rfl

/-- What stands before what is a matter of the keys. -/
theorem le_congr {a' b' : Diagnostic} (ha : a.key = a'.key) (hb : b.key = b'.key) :
    le a b = le a' b' := by
  simp only [key, Prod.mk.injEq] at ha hb
  simp only [le, order, compareLex, compareOn, ha, hb]

theorem key_eq_of_le_of_le (hab : le a b = true) (hba : le b a = true) : a.key = b.key :=
  order_eq_eq_iff.1 (Std.OrientedCmp.isLE_antisymm hab hba)

@[simp] theorem mem_ties : a ∈ ties k ds ↔ a ∈ ds ∧ a.key = k := by
  simp [ties]

@[simp] theorem ties_append : ties k (ds ++ es) = ties k ds ++ ties k es :=
  List.filter_append ..

/-- The sort is stable. -/
theorem ties_mergeSort : ties k (ds.mergeSort le) = ties k ds := by
  have hties : (ties k ds).Pairwise fun a b => le a b = true :=
    List.pairwise_of_forall_mem_list fun a ha b hb =>
      le_of_key_eq ((mem_ties.1 ha).2.trans (mem_ties.1 hb).2.symm)
  exact filter_mergeSort_eq le_trans le_total hties

/-- Two sorted lists whose ties agree under every key are the same list. -/
theorem eq_of_ties_eq : ∀ {ds es : List Diagnostic},
    ds.Pairwise (fun a b => le a b = true) → es.Pairwise (fun a b => le a b = true) →
    (∀ k, ties k ds = ties k es) → ds = es
  | [], es, _, _, h => by
    refine (List.eq_nil_iff_forall_not_mem.2 fun e he => ?_).symm
    have : e ∈ ties e.key [] := h e.key ▸ mem_ties.2 ⟨he, rfl⟩
    simp at this
  | d :: ds, [], _, _, h => by
    have : d ∈ ties d.key [] := h d.key ▸ mem_ties.2 ⟨List.mem_cons_self, rfl⟩
    simp at this
  | d :: ds, e :: es, hd, he, h => by
    have hde : d ∈ e :: es := (mem_ties.1 (h d.key ▸ mem_ties.2 ⟨List.mem_cons_self, rfl⟩)).1
    have hed : e ∈ d :: ds := (mem_ties.1 (h e.key ▸ mem_ties.2 ⟨List.mem_cons_self, rfl⟩)).1
    have hkey : d.key = e.key := by
      rcases List.mem_cons.1 hed with rfl | hed
      · rfl
      rcases List.mem_cons.1 hde with rfl | hde
      · rfl
      exact key_eq_of_le_of_le (List.rel_of_pairwise_cons hd hed) (List.rel_of_pairwise_cons he hde)
    have heads : d :: ties d.key ds = e :: ties d.key es := by
      simpa [ties, hkey] using h d.key
    obtain rfl : d = e := (List.cons.inj heads).1
    have tails : ∀ k, ties k ds = ties k es := by
      intro k
      have hk := h k
      simp only [ties, List.filter_cons] at hk ⊢
      split at hk
      · exact List.cons.inj hk |>.2
      · exact hk
    rw [eq_of_ties_eq hd.of_cons he.of_cons tails]

/-- The order of the keys, read off the diagnostics that have them. -/
def KeyLE (k k' : String × Nat × Nat × Nat) : Prop :=
  ∀ a b : Diagnostic, a.key = k → b.key = k' → le a b = true

theorem pairwise_map_key (h : ds.Pairwise fun a b => le a b = true) :
    (ds.map key).Pairwise KeyLE := by
  refine List.pairwise_map.2 (h.imp fun {a b} hab a' b' ha hb => ?_)
  rwa [le_congr ha hb]

/-- Two sorted lists of the same diagnostics have the same keys, position by position. -/
theorem map_key_eq_of_perm (hds : ds.Pairwise fun a b => le a b = true)
    (hes : es.Pairwise fun a b => le a b = true) (hperm : ds.Perm es) :
    ds.map key = es.map key := by
  refine List.Perm.eq_of_pairwise ?_ (pairwise_map_key hds) (pairwise_map_key hes)
    (hperm.map key)
  intro k k' hk hk' h h'
  obtain ⟨a, -, rfl⟩ := List.mem_map.1 hk
  obtain ⟨b, -, rfl⟩ := List.mem_map.1 hk'
  exact key_eq_of_le_of_le (h a b rfl rfl) (h' b a rfl rfl)

end Key

end Diagnostic

open Diagnostic (ties)

/-! ## Bags that commute -/

namespace Bag

/-- Two bags whose order of arrival cannot be told: under every key, their ties read the same one
behind the other in either order. -/
def Commutes (b c : Bag) : Prop :=
  ∀ k, ties k b.entries ++ ties k c.entries = ties k c.entries ++ ties k b.entries

theorem Commutes.symm {b c : Bag} (h : b.Commutes c) : c.Commutes b :=
  fun k => (h k).symm

/-- Bags commute when a key common to both belongs to one diagnostic only. -/
theorem Commutes.of_separated {b c : Bag}
    (h : ∀ d ∈ b.entries, ∀ e ∈ c.entries, d.key = e.key → d = e) : b.Commutes c := by
  intro k
  have hall : ∀ d ∈ ties k b.entries, ∀ e ∈ ties k c.entries, d = e := by
    intro d hd e he
    rw [Diagnostic.mem_ties] at hd he
    exact h d hd.1 e he.1 (hd.2.trans he.2.symm)
  by_cases hb : ties k b.entries = []
  · simp [hb]
  by_cases hc : ties k c.entries = []
  · simp [hc]
  obtain ⟨d, hd⟩ := List.exists_mem_of_ne_nil _ hb
  obtain ⟨e, he⟩ := List.exists_mem_of_ne_nil _ hc
  obtain rfl := hall d hd e he
  rw [List.eq_replicate_of_mem (a := d) (l := ties k b.entries) fun x hx => hall x hx d he,
    List.eq_replicate_of_mem (a := d) (l := ties k c.entries) fun x hx => (hall d hd x hx).symm,
    ← List.replicate_add, ← List.replicate_add, Nat.add_comm]

end Bag

/-! ## The sorted list and the order of arrival -/

namespace Sink

section Arrival

variable {bags bags' : List Bag}

/-- The sink after a list of bags, taken in this order. -/
def ofBags (bags : List Bag) : Sink :=
  bags.foldl append {}

theorem entries_foldl_append (s : Sink) (bags : List Bag) :
    (bags.foldl append s).entries = s.entries ++ bags.flatMap (·.entries) := by
  induction bags generalizing s with
  | nil => simp
  | cons b bags ih => simp [ih]

@[simp] theorem entries_ofBags (bags : List Bag) :
    (ofBags bags).entries = bags.flatMap (·.entries) := by
  simp [ofBags, entries_foldl_append]

theorem ties_ofBags (k : String × Nat × Nat × Nat) (bags : List Bag) :
    ties k (ofBags bags).entries = bags.flatMap fun b => ties k b.entries := by
  simp [ties, List.filter_flatMap]

/-- **Two sinks have one sorted list iff the ties of each key arrived alike.** -/
theorem sorted_eq_iff (s s' : Sink) :
    s.sorted = s'.sorted ↔ ∀ k, ties k s.entries = ties k s'.entries := by
  constructor
  · intro h k
    calc ties k s.entries = ties k s.sorted := Diagnostic.ties_mergeSort.symm
      _ = ties k s'.sorted := congrArg (ties k) h
      _ = ties k s'.entries := Diagnostic.ties_mergeSort
  · intro h
    refine Diagnostic.eq_of_ties_eq s.pairwise_sorted s'.pairwise_sorted fun k => ?_
    rw [sorted, sorted, Diagnostic.ties_mergeSort, Diagnostic.ties_mergeSort, h k]

theorem entries_ofBags_perm (h : bags'.Perm bags) :
    (ofBags bags').entries.Perm (ofBags bags).entries := by
  rw [entries_ofBags, entries_ofBags]
  exact h.flatMap_right _

/-- Whatever the order of arrival, the same diagnostics come out, under the same keys position by
position: what can differ is which of the diagnostics of one key stands first. -/
theorem keys_sorted_of_perm (h : bags'.Perm bags) :
    (ofBags bags').sorted.Perm (ofBags bags).sorted ∧
      (ofBags bags').sorted.map Diagnostic.key = (ofBags bags).sorted.map Diagnostic.key := by
  have hperm : (ofBags bags').sorted.Perm (ofBags bags).sorted :=
    (sorted_perm _).trans ((entries_ofBags_perm h).trans (sorted_perm _).symm)
  exact ⟨hperm, Diagnostic.map_key_eq_of_perm (pairwise_sorted _) (pairwise_sorted _) hperm⟩

/-- Bags that commute two by two leave the ties of each key alike in every order. -/
theorem ties_ofBags_eq_of_perm (hperm : bags'.Perm bags) (hcomm : bags.Pairwise Bag.Commutes)
    (k : String × Nat × Nat × Nat) :
    ties k (ofBags bags').entries = ties k (ofBags bags).entries := by
  rw [ties_ofBags, ties_ofBags]
  have hcomm' : bags'.Pairwise Bag.Commutes := (hperm.pairwise_iff Bag.Commutes.symm).2 hcomm
  clear hcomm
  induction hperm with
  | nil => rfl
  | cons b _ ih => rw [List.flatMap_cons, List.flatMap_cons, ih hcomm'.of_cons]
  | swap b c bags =>
    have hbc : c.Commutes b := List.rel_of_pairwise_cons hcomm' List.mem_cons_self
    simp only [List.flatMap_cons, ← List.append_assoc, hbc k]
  | trans h₁ _ ih₁ ih₂ =>
    rw [ih₁ hcomm', ih₂ ((h₁.pairwise_iff Bag.Commutes.symm).1 hcomm')]

/-- Two bags that arrive in either order, before all others, commute if the list does not tell. -/
theorem commutes_of_sorted_eq {b c : Bag}
    (h : (ofBags (b :: c :: bags)).sorted = (ofBags (c :: b :: bags)).sorted) : b.Commutes c := by
  intro k
  have hk := (sorted_eq_iff _ _).1 h k
  rw [ties_ofBags, ties_ofBags] at hk
  simp only [List.flatMap_cons, ← List.append_assoc] at hk
  exact List.append_cancel_right hk

/-- **The list and the order of arrival.** In every order of arrival the same diagnostics are
listed, under the same keys position by position. The list as a whole is the same in every order
exactly when any two of the bags commute. -/
theorem sorted_arrival_iff (bags : List Bag) :
    (∀ bags', bags'.Perm bags →
      (ofBags bags').sorted.Perm (ofBags bags).sorted ∧
        (ofBags bags').sorted.map Diagnostic.key = (ofBags bags).sorted.map Diagnostic.key) ∧
    ((∀ bags', bags'.Perm bags → (ofBags bags').sorted = (ofBags bags).sorted) ↔
      bags.Pairwise Bag.Commutes) := by
  refine ⟨fun bags' h => keys_sorted_of_perm h, ?_, ?_⟩
  · intro h
    rw [List.pairwise_iff_forall_sublist]
    intro b c hsub
    -- Let `b` and `c` arrive first, in either order; the ties of the rest cancel.
    obtain ⟨rest, hrest⟩ := hsub.exists_perm_append
    have hbc : (b :: c :: rest).Perm bags := hrest.symm
    have hcb : (c :: b :: rest).Perm bags := (List.Perm.swap ..).trans hbc
    exact commutes_of_sorted_eq ((h _ hbc).trans (h _ hcb).symm)
  · intro hcomm bags' hperm
    exact (sorted_eq_iff _ _).2 (ties_ofBags_eq_of_perm hperm hcomm)

/-- Where the key separates different diagnostics, the list is free of the order of arrival. -/
theorem sorted_eq_of_separated (hperm : bags'.Perm bags)
    (hsep : ∀ b ∈ bags, ∀ c ∈ bags, ∀ d ∈ b.entries, ∀ e ∈ c.entries, d.key = e.key → d = e) :
    (ofBags bags').sorted = (ofBags bags).sorted :=
  (sorted_eq_iff _ _).2 <| ties_ofBags_eq_of_perm hperm <|
    List.pairwise_of_forall_mem_list fun b hb c hc => .of_separated (hsep b hb c hc)

/-- The bag of a one-letter text whose only name is unknown. -/
def unknown (name : String) : Bag :=
  ({ file := "a.wex" } : Bag).add Issue.unknownName.code ⟨0, 1⟩ [name]

/-- Two texts of one file name, each with an unknown name at its start: the two complaints have one
key, and the list shows which of the bags arrived first. -/
theorem sorted_tells_arrival :
    (ofBags [unknown "x", unknown "y"]).sorted ≠ (ofBags [unknown "y", unknown "x"]).sorted := by
  intro h
  have := (sorted_eq_iff _ _).1 h ("a.wex", 0, 1, 2000)
  revert this
  decide +kernel

end Arrival

end Sink

end UpdateExpr
