import Mathlib.Data.ENat.Lattice
import Mathlib.Data.Set.Card
import Mathlib.Logic.Relation

/-!
# Walks with a limit

A walk over a relation finds one after another what is reached from a start. It ends where nothing
new waits, or at a limit. Each is found once; so if no more is reached than the limit allows, all of
it is found, and otherwise as much as the limit allows.

## Main definitions

* `Spreading`: what was found on a walk, and what waits
* `UpTo`: a list holds what is reached, up to a limit

## Main results

* `Spreading.step`: one step of a walk
* `Spreading.upTo`: what a walk has found in the end
* `UpTo.mem_iff`: what the limit allows is found
-/

namespace UpdateExpr

variable {α : Type} {r : α → α → Prop} {start x y : α} {found waiting waiting' next : List α}
  {n : Nat}

/-- On a walk over a relation, some of what is reached from a start was found, and some waits.
Nothing is found twice, and whatever comes next to something that was found was found as well, or
waits. -/
structure Spreading (r : α → α → Prop) (start : α) (found waiting : List α) : Prop where
  nodup : found.Nodup
  start_mem : start ∈ found ++ waiting
  reached : ∀ x ∈ found ++ waiting, Relation.ReflTransGen r start x
  closed : ∀ x ∈ found, ∀ y, r x y → y ∈ found ++ waiting

/-- A list holds what is reached from a start, each once: all of it, or as much as the limit
allows. -/
structure UpTo (n : Nat) (r : α → α → Prop) (start : α) (xs : List α) : Prop where
  nodup : xs.Nodup
  reached : ∀ x ∈ xs, Relation.ReflTransGen r start x
  length_eq : (xs.length : ℕ∞) = min (n : ℕ∞) {x | Relation.ReflTransGen r start x}.encard

/-- A list without repetition has as many elements as it is long. -/
theorem encard_of_nodup {xs : List α} (h : xs.Nodup) : {x | x ∈ xs}.encard = xs.length := by
  classical
  rw [← List.coe_toFinset, Set.encard_coe_eq_coe_finsetCard, List.toFinset_card_of_nodup h]

namespace Spreading

theorem init (r : α → α → Prop) (start : α) : Spreading r start [] [start] where
  nodup := List.nodup_nil
  start_mem := List.mem_singleton_self _
  reached x hx := by
    obtain rfl := List.mem_singleton.1 hx
    exact .refl
  closed := nofun

/-- It does not matter whether what was found waits as well. -/
theorem of_mem_iff (h : Spreading r start found waiting)
    (hmem : ∀ x, x ∈ found ++ waiting' ↔ x ∈ found ++ waiting) :
    Spreading r start found waiting' where
  nodup := h.nodup
  start_mem := (hmem start).2 h.start_mem
  reached x hx := h.reached x ((hmem x).1 hx)
  closed x hx y hy := (hmem y).2 (h.closed x hx y hy)

/-- **One step**: the first that waits is found, and what comes next to it waits instead. -/
theorem step (h : Spreading r start found (x :: waiting)) (hx : x ∉ found)
    (hnext : ∀ y, y ∈ next ↔ r x y) : Spreading r start (found ++ [x]) (waiting ++ next) := by
  have hreached : Relation.ReflTransGen r start x := h.reached x (by simp)
  -- What was found or waited still is, and what comes next is new.
  have hkept : ∀ y, y ∈ found ++ x :: waiting → y ∈ found ++ [x] ++ (waiting ++ next) := by
    intro y hy
    simp only [List.mem_append, List.mem_cons, List.not_mem_nil, or_false] at hy ⊢
    tauto
  refine ⟨?_, hkept start h.start_mem, fun y hy => ?_, fun y hy z hz => ?_⟩
  · refine List.nodup_append.2 ⟨h.nodup, List.nodup_singleton x, fun a ha b hb => ?_⟩
    rw [List.mem_singleton.1 hb]
    rintro rfl
    exact hx ha
  · rcases List.mem_append.1 hy with hy | hy
    · refine h.reached y ?_
      rw [List.mem_append, List.mem_singleton] at hy
      rcases hy with hy | rfl <;> simp [*]
    · rcases List.mem_append.1 hy with hy | hy
      · exact h.reached y (by simp [hy])
      · exact hreached.tail ((hnext y).1 hy)
  · rcases List.mem_append.1 hy with hy | hy
    · exact hkept z (h.closed y hy z hz)
    · rw [List.mem_singleton.1 hy] at hz
      exact List.mem_append_right _ (List.mem_append_right _ ((hnext z).2 hz))

/-- **Where nothing waits any more, all that is reached was found.** -/
theorem mem_iff (h : Spreading r start found []) :
    x ∈ found ↔ Relation.ReflTransGen r start x := by
  have hstart := h.start_mem
  have hreached := h.reached
  have hclosed := h.closed
  rw [List.append_nil] at hstart hreached hclosed
  constructor
  · exact hreached x
  · intro hx
    induction hx with
    | refl => exact hstart
    | tail _ hr ih => exact hclosed _ ih _ hr

/-- **A walk that ends where nothing waits, or at its limit**, has found what is reached up to the
limit. -/
theorem upTo (h : Spreading r start found waiting) (hle : found.length ≤ n)
    (hend : waiting = [] ∨ found.length = n) : UpTo n r start found := by
  have hreached : ∀ x ∈ found, Relation.ReflTransGen r start x := fun x hx =>
    h.reached x (List.mem_append_left _ hx)
  have hcard := encard_of_nodup h.nodup
  refine ⟨h.nodup, hreached, ?_⟩
  rcases hend with rfl | hfull
  · have hall : {x | Relation.ReflTransGen r start x} = {x | x ∈ found} :=
      Set.ext fun x => h.mem_iff.symm
    rw [hall, hcard, min_eq_right (by exact_mod_cast hle)]
  · have hsub : {x | x ∈ found} ⊆ {x | Relation.ReflTransGen r start x} := hreached
    have hle' := Set.encard_le_encard hsub
    rw [hcard, hfull] at hle'
    rw [hfull, min_eq_left hle']

end Spreading

/-- **What the limit allows, the list holds.** -/
theorem UpTo.mem_iff {xs : List α} (h : UpTo n r start xs)
    (hle : {x | Relation.ReflTransGen r start x}.encard ≤ n) :
    x ∈ xs ↔ Relation.ReflTransGen r start x := by
  have hsub : {x | x ∈ xs} ⊆ {x | Relation.ReflTransGen r start x} := h.reached
  have hall : {x | x ∈ xs} = {x | Relation.ReflTransGen r start x} := by
    refine xs.finite_toSet.eq_of_subset_of_encard_le hsub ?_
    rw [encard_of_nodup h.nodup, h.length_eq, min_eq_right hle]
  exact Set.ext_iff.1 hall x

/-- In a list where each is related to the next, each leads to the last. -/
theorem reflTransGen_getLast {xs : List α} {last : α}
    (h : xs.IsChain r) (hx : x ∈ xs) (hlast : xs.getLast? = some last) :
    Relation.ReflTransGen r x last := by
  induction xs generalizing x with
  | nil => cases hx
  | cons y ys ih =>
    cases ys with
    | nil =>
      obtain rfl := List.mem_singleton.1 hx
      cases hlast
      exact .refl
    | cons z zs =>
      rw [List.isChain_cons_cons] at h
      rw [List.getLast?_cons_cons] at hlast
      rcases List.mem_cons.1 hx with rfl | hx
      · exact .head h.1 (ih h.2 List.mem_cons_self hlast)
      · exact ih h.2 hx hlast

end UpdateExpr
