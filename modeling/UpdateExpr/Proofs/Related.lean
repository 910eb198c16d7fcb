import Mathlib.Data.List.Forall2
import Mathlib.Data.Option.Basic

/-!
# Lists that are related one by one

Two runs of one algorithm on related data go through lists whose elements are related one by one.
Where the runs ask the same of related elements, they get the same from the lists: an answer that
is equal, or parts that are related again.

## Main results

* `rel_any`, `rel_find?`, `rel_dropWhile`: the same question, asked of the elements of both lists
* `rel_getElem?`: the elements at one place
* `rel_mergeSort`: the lists in order
* `map_eq_of_rel`: the same image of the elements of both lists
* `eq_map_of_rel`: a list that is related by a function is the image of the other
-/

namespace UpdateExpr

section Related

variable {α β : Type} {r : α → β → Prop} {p : α → Bool} {p' : β → Bool} {xs : List α} {ys : List β}

/-- Two walks over one list meet the same elements. -/
theorem forall₂_eq_self (xs : List α) : List.Forall₂ Eq xs xs :=
  List.forall₂_same.2 fun _ _ => rfl

theorem exists_of_forall₂ (h : List.Forall₂ r xs ys) : ∀ x ∈ xs, ∃ y ∈ ys, r x y := by
  induction h with
  | nil => exact nofun
  | cons hxy _ ih =>
    refine List.forall_mem_cons.2 ⟨⟨_, by simp, hxy⟩, fun x hx => ?_⟩
    obtain ⟨y, hy, hr⟩ := ih x hx
    exact ⟨y, List.mem_cons_of_mem _ hy, hr⟩

/-! ## Places -/

theorem rel_getElem? (h : List.Forall₂ r xs ys) (i : Nat) : Option.Rel r xs[i]? ys[i]? := by
  induction h generalizing i with
  | nil => exact .none
  | cons hxy _ ih =>
    cases i with
    | zero => exact .some hxy
    | succ i => exact ih i

theorem exists_getElem?_of_forall₂ (h : List.Forall₂ r xs ys) {i : Nat} {x : α}
    (hx : xs[i]? = some x) : ∃ y, ys[i]? = some y ∧ r x y := by
  have hrel := rel_getElem? h i
  rw [hx] at hrel
  generalize ys[i]? = y? at hrel
  cases hrel with
  | some hxy => exact ⟨_, rfl, hxy⟩

/-! ## Questions -/

theorem rel_any (h : List.Forall₂ r xs ys) (hp : ∀ x y, r x y → p x = p' y) :
    xs.any p = ys.any p' := by
  induction h with
  | nil => rfl
  | cons hxy _ ih => rw [List.any_cons, List.any_cons, hp _ _ hxy, ih]

theorem rel_find? (h : List.Forall₂ r xs ys) (hp : ∀ x y, r x y → p x = p' y) :
    Option.Rel r (xs.find? p) (ys.find? p') := by
  induction h with
  | nil => exact .none
  | cons hxy _ ih =>
    rw [List.find?_cons, List.find?_cons, hp _ _ hxy]
    split
    · exact .some hxy
    · exact ih

theorem rel_dropWhile (h : List.Forall₂ r xs ys) (hp : ∀ x y, r x y → p x = p' y) :
    List.Forall₂ r (xs.dropWhile p) (ys.dropWhile p') := by
  induction h with
  | nil => exact .nil
  | cons hxy hs ih =>
    rw [List.dropWhile_cons, List.dropWhile_cons, hp _ _ hxy]
    split
    · exact ih
    · exact .cons hxy hs

/-- A question that is asked of the pairs at one place. -/
theorem all_zip_eq {r : α → α → Prop} {p p' : α × α → Bool} {xs xs' ys ys' : List α}
    (hx : List.Forall₂ r xs xs') (hy : List.Forall₂ r ys ys')
    (h : ∀ x x' y y', x ∈ xs → r x x' → r y y' → p (x, y) = p' (x', y')) :
    (xs.zip ys).all p = (xs'.zip ys').all p' := by
  induction hx generalizing ys ys' with
  | nil => rfl
  | cons hxx' _ ih =>
    cases hy with
    | nil => rfl
    | cons hyy' hy =>
      rw [List.zip_cons_cons, List.zip_cons_cons, List.all_cons, List.all_cons,
        h _ _ _ _ (by simp) hxx' hyy',
        ih hy fun x x' y y' hm => h x x' y y' (List.mem_cons_of_mem _ hm)]

/-- Lists that are related one by one stay so when they are sorted, if related elements compare the
same. -/
theorem rel_mergeSort {le : α → α → Bool} {le' : β → β → Bool} (h : List.Forall₂ r xs ys)
    (hle : ∀ x x' y y', r x y → r x' y' → le x x' = le' y y') :
    List.Forall₂ r (xs.mergeSort le) (ys.mergeSort le') := by
  -- Both are the sorted list of the pairs, seen from one side.
  obtain ⟨hlen, hz⟩ := List.forall₂_iff_zip.1 h
  have hfst : ((xs.zip ys).mergeSort fun a b => le a.1 b.1).map Prod.fst = xs.mergeSort le := by
    rw [List.map_mergeSort (s := le) fun _ _ _ _ => rfl, List.map_fst_zip (Nat.le_of_eq hlen)]
  have hsnd : ((xs.zip ys).mergeSort fun a b => le a.1 b.1).map Prod.snd = ys.mergeSort le' := by
    rw [List.map_mergeSort (s := le') fun a ha b hb => hle _ _ _ _ (hz ha) (hz hb),
      List.map_snd_zip (Nat.le_of_eq hlen.symm)]
  rw [← hfst, ← hsnd, List.forall₂_map_left_iff, List.forall₂_map_right_iff, List.forall₂_same]
  exact fun a ha => hz (List.mem_mergeSort.1 ha)

/-! ## Images -/

theorem map_eq_of_rel {γ : Type} {f : α → γ} {g : β → γ} (h : List.Forall₂ r xs ys)
    (hf : ∀ x y, r x y → f x = g y) : xs.map f = ys.map g := by
  induction h with
  | nil => rfl
  | cons hxy _ ih => rw [List.map_cons, List.map_cons, hf _ _ hxy, ih]

theorem eq_map_of_rel {g : α → β} (h : List.Forall₂ r xs ys) (hg : ∀ x y, r x y → y = g x) :
    ys = xs.map g := by
  induction h with
  | nil => rfl
  | cons hxy _ ih => rw [List.map_cons, ← hg _ _ hxy, ← ih]

end Related

end UpdateExpr
