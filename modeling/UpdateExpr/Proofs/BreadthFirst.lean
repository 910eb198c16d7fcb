import UpdateExpr.Proofs.Walk

/-!
# Breadth-first order

A walk goes breadth first if it asks what it found for what comes next, one after another in the
order of finding, and finds each time the first of the answers that is new. So whatever is found
comes next to something that was found earlier, nothing is found twice, and what is found later is
not nearer to the start.

## Main definitions

* `BreadthFirst`: a list is in breadth-first order
* `StepsTo`: something is reached from a start in a number of steps
* `Nearer`: something is not farther from a start than something else

## Main results

* `BreadthFirst.exists_earlier`: what is found comes next to what was found earlier
* `BreadthFirst.pairwise_nearer`: what is found earlier is not farther
* `upTo_of_ended`, `BreadthFirst.upTo`: a walk that ends where nothing is new, or at a limit
-/

namespace UpdateExpr

/-- A list is in breadth-first order: it begins with the start, and each further element is the
first new one among all that comes next to those before it. -/
inductive BreadthFirst {α : Type} [DecidableEq α] (next : α → List α) (start : α) : List α → Prop
  | start : BreadthFirst next start [start]
  | step {found : List α} {y : α} (h : BreadthFirst next start found)
    (hy : (found.flatMap next).find? (· ∉ found) = some y) : BreadthFirst next start (found ++ [y])

/-- Something is reached from a start in a number of steps. -/
inductive StepsTo {α : Type} (r : α → α → Prop) (start : α) : Nat → α → Prop
  | zero : StepsTo r start 0 start
  | succ {n : Nat} {x y : α} (h : StepsTo r start n x) (hr : r x y) : StepsTo r start (n + 1) y

/-- Something is reached in as few steps as something else. -/
def Nearer {α : Type} (r : α → α → Prop) (start x y : α) : Prop :=
  ∀ n, StepsTo r start n y → ∃ m ≤ n, StepsTo r start m x

section Ended

variable {α : Type} {r : α → α → Prop} {start x y : α} {found : List α} {n : Nat}

/-- **Where all that comes next was found, or at the limit**, what is reached was found up to the
limit. -/
theorem upTo_of_ended (hn : found.Nodup) (hreached : ∀ x ∈ found, Relation.ReflTransGen r start x)
    (hstart : start ∈ found) (hle : found.length ≤ n)
    (hend : found.length = n ∨ ∀ x ∈ found, ∀ y, r x y → y ∈ found) : UpTo n r start found := by
  rcases hend with hfull | hclosed
  · refine ⟨hn, hreached, ?_⟩
    have hsub : {x | x ∈ found} ⊆ {x | Relation.ReflTransGen r start x} := hreached
    have hle' := Set.encard_le_encard hsub
    rw [encard_of_nodup hn, hfull] at hle'
    rw [hfull, min_eq_left hle']
  · have hspread : Spreading r start found [] := by
      refine ⟨hn, ?_, ?_, ?_⟩
      · rwa [List.append_nil]
      · rwa [List.append_nil]
      · rwa [List.append_nil]
    exact hspread.upTo hle (.inl rfl)

/-- In a list where each is related to the next, the first leads to each. -/
theorem reflTransGen_of_head? (h : found.IsChain r) (hx : x ∈ found)
    (hstart : found.head? = some start) : Relation.ReflTransGen r start x := by
  induction found generalizing start with
  | nil => cases hx
  | cons y ys ih =>
    cases hstart
    rcases List.mem_cons.1 hx with rfl | hx
    · exact .refl
    · cases ys with
      | nil => cases hx
      | cons z zs =>
        rw [List.isChain_cons_cons] at h
        exact .head h.1 (ih h.2 hx rfl)

/-- Where each leads to at most one, all that comes next to a list is in it, if this holds of the
last one. -/
theorem closed_of_isChain {all : List α} (hfun : ∀ x y z, r x y → r x z → y = z)
    (h : found.IsChain r) (hsub : ∀ x ∈ found, x ∈ all)
    (hlast : ∀ x ∈ found.getLast?, ∀ y, r x y → y ∈ all) :
    ∀ x ∈ found, ∀ y, r x y → y ∈ all := by
  induction found with
  | nil => exact nofun
  | cons x xs ih =>
    cases xs with
    | nil =>
      intro z hz
      obtain rfl := List.mem_singleton.1 hz
      exact hlast z rfl
    | cons x' xs =>
      rw [List.isChain_cons_cons] at h
      rw [List.forall_mem_cons] at hsub
      rw [List.getLast?_cons_cons] at hlast
      refine List.forall_mem_cons.2 ⟨fun y hy => ?_, ih h.2 hsub.2 hlast⟩
      rw [hfun x y x' hy h.1]
      exact hsub.2 x' List.mem_cons_self

end Ended

namespace BreadthFirst

variable {α : Type} [DecidableEq α] {next next' : α → List α} {start x y z : α}
  {found : List α} {n : Nat}

theorem start_mem (h : BreadthFirst next start found) : start ∈ found := by
  induction h with
  | start => exact List.mem_singleton_self _
  | step _ _ ih => exact List.mem_append_left _ ih

theorem head? (h : BreadthFirst next start found) : found.head? = some start := by
  induction h with
  | start => rfl
  | step h _ ih => rw [List.head?_append_of_ne_nil _ (List.ne_nil_of_mem h.start_mem), ih]

/-- What is new is new. -/
theorem not_mem_of_find? (hy : (found.flatMap next).find? (· ∉ found) = some y) : y ∉ found := by
  simpa using List.find?_some hy

/-- **Nothing is found twice.** -/
theorem nodup (h : BreadthFirst next start found) : found.Nodup := by
  induction h with
  | start => exact List.nodup_singleton _
  | step _ hy ih =>
    rw [← List.concat_eq_append]
    exact ih.concat (not_mem_of_find? hy)

/-- Only what comes next to what was found matters. -/
theorem congr (h : BreadthFirst next start found) (hsame : ∀ x ∈ found, next' x = next x) :
    BreadthFirst next' start found := by
  induction h with
  | start => exact .start
  | @step found y h hy ih =>
    rw [List.forall_mem_append] at hsame
    refine .step (ih hsame.1) ?_
    rwa [List.flatMap_congr hsame.1]

/-- **What is found comes next to what was found earlier.** -/
theorem exists_earlier (h : BreadthFirst next start found) {i : Nat} (hi : i + 1 < found.length) :
    ∃ x ∈ found.take (i + 1), found[i + 1] ∈ next x := by
  induction h with
  | start => simp at hi
  | @step found y h hy ih =>
    by_cases hold : i + 1 < found.length
    · obtain ⟨x, hx, hmem⟩ := ih hold
      refine ⟨x, ?_, ?_⟩
      · rwa [List.take_append_of_le_length hold.le]
      · rwa [List.getElem_append_left hold]
    · have hlast : i + 1 = found.length := by
        rw [List.length_append, List.length_singleton] at hi
        omega
      obtain ⟨x, hx, hmem⟩ := List.mem_flatMap.1 (List.mem_of_find?_eq_some hy)
      refine ⟨x, ?_, ?_⟩
      · rwa [hlast, List.take_left]
      · simpa [hlast] using hmem

theorem reached (h : BreadthFirst next start found) :
    ∀ x ∈ found, Relation.ReflTransGen (fun x y => y ∈ next x) start x := by
  induction h with
  | start => exact List.forall_mem_singleton.2 .refl
  | step h hy ih =>
    obtain ⟨x, hx, hmem⟩ := List.mem_flatMap.1 (List.mem_of_find?_eq_some hy)
    exact List.forall_mem_append.2 ⟨ih, List.forall_mem_singleton.2 ((ih x hx).tail hmem)⟩

/-- **A breadth-first walk that ends where nothing is new, or at its limit**, has found what is
reached up to the limit. -/
theorem upTo (h : BreadthFirst next start found) (hle : found.length ≤ n)
    (hend : found.length = n ∨ ∀ x ∈ found, ∀ y ∈ next x, y ∈ found) :
    UpTo n (fun x y => y ∈ next x) start found :=
  upTo_of_ended h.nodup h.reached h.start_mem hle hend

/-! ## Distance -/

/-- On the way from a start that was found to something new there is a step from what was found to
something new. -/
theorem exists_step_out {r : α → α → Prop} (hy : StepsTo r start n y) (hstart : start ∈ found)
    (hnew : y ∉ found) : ∃ m < n, ∃ z ∈ found, ∃ w, StepsTo r start m z ∧ r z w ∧ w ∉ found := by
  induction hy with
  | zero => exact absurd hstart hnew
  | @succ n x y h hr ih =>
    -- The last step is the one if what it leaves was found; if not, an earlier one is.
    by_cases hx : x ∈ found
    · exact ⟨n, Nat.lt_succ_self n, x, hx, y, h, hr, hnew⟩
    · obtain ⟨m, hm, z, hz, w, hw⟩ := ih hx
      exact ⟨m, hm.trans (Nat.lt_succ_self n), z, hz, w, hw⟩

omit [DecidableEq α] in
/-- What is found next is not farther than one step behind anything that something new comes next
to, if what was found earlier is not farther. -/
theorem exists_stepsTo_of_find? {p : α → Bool} {w : α} {m : Nat}
    (hnear : found.Pairwise (Nearer (fun x y => y ∈ next x) start))
    (hy : (found.flatMap next).find? p = some y) (hz : z ∈ found) (hw : w ∈ next z)
    (hp : p w = true) (hm : StepsTo (fun x y => y ∈ next x) start m z) :
    ∃ k ≤ m + 1, StepsTo (fun x y => y ∈ next x) start k y := by
  obtain ⟨before, after, rfl⟩ := List.append_of_mem hz
  have hsplit : (before ++ z :: after).flatMap next =
      (before ++ [z]).flatMap next ++ after.flatMap next := by
    simp
  rw [hsplit, List.find?_append] at hy
  cases hf : ((before ++ [z]).flatMap next).find? p with
  | none =>
    have hmem : w ∈ (before ++ [z]).flatMap next := by simp [hw]
    exact absurd hp (List.find?_eq_none.1 hf w hmem)
  | some y' =>
    rw [hf, Option.some_or, Option.some_inj] at hy
    subst hy
    obtain ⟨x, hx, hnext⟩ := List.mem_flatMap.1 (List.mem_of_find?_eq_some hf)
    rcases List.mem_append.1 hx with hx | hx
    · obtain ⟨k, hk, hsteps⟩ := (List.pairwise_append.1 hnear).2.2 x hx z List.mem_cons_self m hm
      exact ⟨k + 1, Nat.succ_le_succ hk, hsteps.succ hnext⟩
    · obtain rfl := List.mem_singleton.1 hx
      exact ⟨m + 1, le_rfl, hm.succ hnext⟩

/-- **What is found earlier is not farther from the start.** -/
theorem pairwise_nearer (h : BreadthFirst next start found) :
    found.Pairwise (Nearer (fun x y => y ∈ next x) start) := by
  induction h with
  | start => exact List.pairwise_singleton _ _
  | @step found y h hy ih =>
    refine List.pairwise_append.2 ⟨ih, List.pairwise_singleton _ _, fun x hx y' hy' n hn => ?_⟩
    obtain rfl := List.mem_singleton.1 hy'
    -- Somewhere the way to the new one leaves what was found.
    obtain ⟨m, hm, z, hz, w, hsteps, hw, hnew⟩ :=
      exists_step_out hn h.start_mem (not_mem_of_find? hy)
    cases h with
    | start =>
      obtain rfl := List.mem_singleton.1 hx
      exact ⟨0, Nat.zero_le n, .zero⟩
    | @step found last h hlast =>
      have hall := List.pairwise_append.1 ih
      have hsteps_last : ∃ k ≤ n, StepsTo (fun x y => y ∈ next x) start k last := by
        rcases List.mem_append.1 hz with hz | hz
        · have hw' : w ∉ found := fun hmem => hnew (List.mem_append_left _ hmem)
          obtain ⟨k, hk, hsteps'⟩ :=
            exists_stepsTo_of_find? hall.1 hlast hz hw (decide_eq_true hw') hsteps
          exact ⟨k, hk.trans hm, hsteps'⟩
        · obtain rfl := List.mem_singleton.1 hz
          exact ⟨m, hm.le, hsteps⟩
      obtain ⟨k, hk, hsteps_last⟩ := hsteps_last
      rcases List.mem_append.1 hx with hx | hx
      · obtain ⟨j, hj, hx'⟩ := hall.2.2 x hx last (List.mem_singleton_self last) k hsteps_last
        exact ⟨j, hj.trans hk, hx'⟩
      · obtain rfl := List.mem_singleton.1 hx
        exact ⟨k, hk, hsteps_last⟩

end BreadthFirst

end UpdateExpr
