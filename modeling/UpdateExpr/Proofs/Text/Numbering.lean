import Mathlib.Logic.Relator
import Mathlib.SetTheory.Cardinal.Arithmetic
import UpdateExpr.Text.NameTable

/-!
# Numbers do not depend on the order of texts

A table of names gives out its numbers in the order in which texts are met. A text that was known
keeps its number, and which texts are known in the end does not depend on the order. So two tables
that have met the same texts in different orders differ by a renaming of the new numbers.

## Main definitions

* `NameTable.insertAll`: the table after meeting some texts

## Main results

* `exists_equiv_of_biUnique`: a finite matching of numbers extends to a renaming of all
* `NameTable.exists_renumbering`: the renaming between two orders
-/

namespace UpdateExpr

/-- **A finite matching extends to a renaming of all.** -/
theorem exists_equiv_of_biUnique {α : Type} [Infinite α] {r : α → α → Prop}
    (hr : Relator.BiUnique r) (hfin : {a | ∃ b, r a b}.Finite) :
    ∃ e : α ≃ α, ∀ a b, r a b → e a = b := by
  -- The matching as an injection from the finite set that it starts from.
  let f : {a | ∃ b, r a b} ↪ α :=
    { toFun := fun a => a.2.choose
      inj' := by
        intro a a' h
        have hb := a.2.choose_spec
        have hb' := a'.2.choose_spec
        dsimp only at h
        rw [← h] at hb'
        exact Subtype.ext (hr.1 hb hb') }
  have hlt : Cardinal.mk {a | ∃ b, r a b} < Cardinal.mk α :=
    (Cardinal.lt_aleph0_iff_set_finite.2 hfin).trans_le (Cardinal.aleph0_le_mk α)
  obtain ⟨e, he⟩ := Cardinal.extend_function_of_lt f hlt ⟨Equiv.refl α⟩
  refine ⟨e, fun a b hab => ?_⟩
  have hchoose : r a (f ⟨a, b, hab⟩) := Exists.choose_spec (p := r a) ⟨b, hab⟩
  rw [he ⟨a, b, hab⟩]
  exact hr.2 hchoose hab

namespace NameTable

/-- The table after meeting some texts, one after another. -/
def insertAll (t : NameTable) (texts : List String) : NameTable :=
  texts.foldl insert t

variable {t : NameTable} {text other : String} {texts texts' : List String} {n m : Nat}

theorem lt_size_of_find? (h : t.find? text = some n) : n < t.size := by
  obtain ⟨hn, -⟩ := Array.findIdx?_eq_some_iff_getElem.1 h
  exact hn

theorem eq_of_find?_eq (h : t.find? text = some n) (h' : t.find? other = some n) :
    text = other :=
  (resolve_of_find? h).symm.trans (resolve_of_find? h')

/-- A text is found where it was, or it is the new one. -/
theorem find?_insert (t : NameTable) (text other : String) : (t.insert text).find? other =
    (t.find? other).or (if text = other then some t.size else none) := by
  unfold insert intern
  cases h : t.find? text with
  | none =>
    show Array.findIdx? _ (t.texts.push text) = _
    rw [Array.findIdx?_push]
    simp only [beq_iff_eq]
    rfl
  | some n =>
    dsimp only
    split
    · next heq =>
      subst heq
      rw [h, Option.some_or]
    · rw [Option.or_none]

/-- Meeting a text twice is meeting it once. -/
theorem insert_insert (t : NameTable) (text : String) :
    (t.insert text).insert text = t.insert text := by
  obtain ⟨n, hn⟩ : ∃ n, (t.insert text).find? text = some n := by
    rw [find?_insert, if_pos rfl]
    cases t.find? text <;> exact ⟨_, rfl⟩
  rw [insert, intern, hn]

theorem size_le_size_insert (t : NameTable) (text : String) : t.size ≤ (t.insert text).size := by
  unfold insert intern
  split
  · exact Nat.le_refl _
  · simp [size]

theorem find?_insertAll_of_some (h : t.find? text = some n) :
    (t.insertAll texts).find? text = some n := by
  induction texts generalizing t with
  | nil => exact h
  | cons first rest ih =>
    refine ih ?_
    rw [find?_insert, h, Option.some_or]

/-- A new text gets a new number. -/
theorem size_le_of_find?_insertAll (h : t.find? text = none)
    (hn : (t.insertAll texts).find? text = some n) : t.size ≤ n := by
  induction texts generalizing t with
  | nil =>
    rw [insertAll, List.foldl_nil, h] at hn
    cases hn
  | cons first rest ih =>
    by_cases heq : first = text
    · have hfirst : (t.insert first).find? text = some t.size := by
        rw [find?_insert, h, Option.none_or, if_pos heq]
      have hkeep : ((t.insert first).insertAll rest).find? text = some t.size :=
        find?_insertAll_of_some hfirst
      exact Nat.le_of_eq (Option.some.inj (hkeep.symm.trans hn))
    · have hfirst : (t.insert first).find? text = none := by
        rw [find?_insert, h, Option.none_or, if_neg heq]
      exact (size_le_size_insert t first).trans (ih hfirst hn)

/-- **Which texts are known in the end** does not depend on their order. -/
theorem isSome_find?_insertAll :
    ((t.insertAll texts).find? text).isSome ↔ (t.find? text).isSome ∨ text ∈ texts := by
  induction texts generalizing t with
  | nil => simp [insertAll]
  | cons first rest ih =>
    have hfirst : ((t.insert first).find? text).isSome ↔ (t.find? text).isSome ∨ text = first := by
      rw [find?_insert, Option.isSome_or, Bool.or_eq_true]
      refine or_congr Iff.rfl ?_
      split
      · next heq => exact ⟨fun _ => heq.symm, fun _ => rfl⟩
      · next hne => exact ⟨nofun, fun heq => absurd heq.symm hne⟩
    have hrest : ((t.insertAll (first :: rest)).find? text).isSome ↔
        ((t.insert first).find? text).isSome ∨ text ∈ rest := ih
    rw [hrest, hfirst, List.mem_cons, or_assoc]

/-- Two numbers stand for the same, in tables that have met different texts: they are one number
that was given out before, or they are the numbers of one new text. -/
inductive SameText (t : NameTable) (texts texts' : List String) : Nat → Nat → Prop
  | known {n : Nat} (h : n < t.size) : SameText t texts texts' n n
  | new {text : String} {n m : Nat} (h : t.find? text = none)
    (hn : (t.insertAll texts).find? text = some n)
    (hm : (t.insertAll texts').find? text = some m) : SameText t texts texts' n m

theorem SameText.symm (h : SameText t texts texts' n m) : SameText t texts' texts m n := by
  cases h with
  | known h => exact .known h
  | new h hn hm => exact .new h hm hn

theorem SameText.right_unique {k : Nat} (h : SameText t texts texts' n m)
    (h' : SameText t texts texts' n k) : m = k := by
  cases h with
  | known hlt =>
    cases h' with
    | known => rfl
    | new hnone hn _ => exact absurd (size_le_of_find?_insertAll hnone hn) (Nat.not_le.2 hlt)
  | new hnone hn hm =>
    cases h' with
    | known hlt => exact absurd (size_le_of_find?_insertAll hnone hn) (Nat.not_le.2 hlt)
    | new _ hn' hk =>
      obtain rfl := eq_of_find?_eq hn hn'
      exact Option.some.inj (hm.symm.trans hk)

theorem biUnique_sameText (t : NameTable) (texts texts' : List String) :
    Relator.BiUnique (SameText t texts texts') :=
  ⟨fun _ _ _ h h' => h.symm.right_unique h'.symm, fun _ _ _ h h' => h.right_unique h'⟩

theorem finite_sameText (t : NameTable) (texts texts' : List String) :
    {n | ∃ m, SameText t texts texts' n m}.Finite := by
  refine (Set.finite_lt_nat (max t.size (t.insertAll texts).size)).subset ?_
  rintro n ⟨m, h⟩
  cases h with
  | known h => exact lt_max_of_lt_left h
  | new _ hn _ => exact lt_max_of_lt_right (lt_size_of_find? hn)

/-- **Two orders of the same texts differ by a renaming of the new numbers.** -/
theorem exists_renumbering (t : NameTable) (h : ∀ text, text ∈ texts ↔ text ∈ texts') :
    ∃ f : Nat ≃ Nat, (∀ n < t.size, f n = n) ∧
      ∀ text, (t.insertAll texts').find? text = ((t.insertAll texts).find? text).map f := by
  obtain ⟨f, hf⟩ := exists_equiv_of_biUnique (biUnique_sameText t texts texts')
    (finite_sameText t texts texts')
  refine ⟨f, fun n hn => hf n n (.known hn), fun text => ?_⟩
  cases hknown : t.find? text with
  | some n =>
    rw [find?_insertAll_of_some hknown, find?_insertAll_of_some hknown, Option.map_some,
      hf n n (.known (lt_size_of_find? hknown))]
  | none =>
    have hboth : ((t.insertAll texts).find? text).isSome =
        ((t.insertAll texts').find? text).isSome := by
      rw [Bool.eq_iff_iff, isSome_find?_insertAll, isSome_find?_insertAll, h text]
    cases hn : (t.insertAll texts).find? text with
    | none =>
      cases hm : (t.insertAll texts').find? text with
      | none => rfl
      | some m =>
        rw [hn, hm] at hboth
        cases hboth
    | some n =>
      cases hm : (t.insertAll texts').find? text with
      | none =>
        rw [hn, hm] at hboth
        cases hboth
      | some m => rw [Option.map_some, hf n m (.new hknown hn hm)]

end NameTable

end UpdateExpr
