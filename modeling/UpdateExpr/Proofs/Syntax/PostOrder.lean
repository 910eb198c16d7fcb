import UpdateExpr.Proofs.Syntax.Mirrored

/-!
# One tree in post-order

The nodes of a tree that is laid out stand in a row without gaps: those of a part follow those of
the part before it, and the node that they are parts of stands behind them all. Such a row is the
post-order of the tree, and each node of it but the last is a part of exactly one node, in exactly
one place. So the nodes that are built from a text are one tree whatever the text is, and no node is
left over from looking ahead or from what was reported.

## Main definitions

* `Arena.postOrder`: the nodes that a reference leads to, parts first
* `Arena.PartAt`: a node is a part of another one
* `Arena.Tiles`: the nodes from one number to another are some trees, one after another
* `Arena.PostOrdered`: an arena is one tree in post-order
* `Arena.Unwraps`: the way into parentheses ends at a node

## Main results

* `Arena.Tiles.postOrdered`: a row that ends with one node is one tree in post-order
* `SyntaxTree.tiles_layOut`: a tree that is laid out is such a row
* `build_postOrdered`: every text is built as one tree in post-order
-/

namespace UpdateExpr

namespace Arena

/-- The nodes that a reference leads to, down to a number of levels: the parts of a node from left
to right, and behind them the node. A node is listed as often as it is reached. -/
def postOrder (a : Arena) : Nat → NodeRef → List Nat
  | 0, _ | _ + 1, none => []
  | levels + 1, some i =>
    match a.shape? (some i) with
    | none => []
    | some shape => shape.parts.flatMap (a.postOrder levels) ++ [i]

/-- A node is a part of another one, in a place among its parts. -/
def PartAt (a : Arena) (parent place i : Nat) : Prop :=
  ∃ shape, a.shape? (some parent) = some shape ∧ shape.parts[place]? = some (some i)

/-- The nodes from one number to another are some trees, one after another, the roots of which are
given. A reference to no node takes no room. -/
inductive Tiles (a : Arena) : Nat → List NodeRef → Nat → Prop
  | nil {lo : Nat} : Tiles a lo [] lo
  | absent {lo hi : Nat} {rs : List NodeRef} (h : Tiles a lo rs hi) : Tiles a lo (none :: rs) hi
  | node {lo i hi : Nat} {shape : NodeShape} {rs : List NodeRef}
    (hs : a.shape? (some i) = some shape) (hp : Tiles a lo shape.parts i)
    (h : Tiles a (i + 1) rs hi) : Tiles a lo (some i :: rs) hi

/-- An arena is one tree in post-order, with a root. -/
structure PostOrdered (a : Arena) (root : Nat) : Prop where
  /-- All nodes are reached from the root, each once, in the order of their numbers. -/
  postOrder : ∀ levels, a.size ≤ levels → a.postOrder levels (some root) = List.range a.size
  /-- The root is the last node. -/
  last : root + 1 = a.size
  /-- A part comes before the node it is a part of. -/
  part_lt : ∀ parent place i, a.PartAt parent place i → i < parent
  /-- Every node but the root is a part of one node, in one place. -/
  parent : ∀ i, i < a.size → i ≠ root →
    ∃ parent place, a.PartAt parent place i ∧
      ∀ parent' place', a.PartAt parent' place' i → parent' = parent ∧ place' = place
  /-- The root is a part of no node. -/
  root_free : ∀ parent place, ¬ a.PartAt parent place root

/-- The way into parentheses ends at a reference that leads to something else. -/
inductive Unwraps (a : Arena) : NodeRef → NodeRef → Prop
  | stop {r : NodeRef} (h : ∀ inner, a.shape? r ≠ some (.paren inner)) : Unwraps a r r
  | step {r inner r' : NodeRef} (h : a.shape? r = some (.paren inner)) (h' : Unwraps a inner r') :
    Unwraps a r r'

/-- The initializers of a node stand in the order of the text: each one starts and ends before the
next one starts. -/
def EntriesInOrder (a : Arena) (n : Node) : Prop :=
  ∀ receiver entries list, n.shape = .update receiver entries list →
    entries.Pairwise fun e e' =>
      (a.span e).start < (a.span e').start ∧ (a.span e).stop < (a.span e').start

variable {a b : Arena} {lo mid hi i j : Nat} {rs rs' : List NodeRef}

/-! ## Rows of trees -/

namespace Tiles

theorem le (h : a.Tiles lo rs hi) : lo ≤ hi := by
  induction h with
  | nil => exact Nat.le_refl _
  | absent _ ih => exact ih
  | node _ _ _ ihp ih => omega

theorem append (h : a.Tiles lo rs mid) (h' : a.Tiles mid rs' hi) : a.Tiles lo (rs ++ rs') hi := by
  induction h with
  | nil => exact h'
  | absent _ ih => exact .absent (ih h')
  | node hs hp _ _ ih => exact .node hs hp (ih h')

/-- A row with one root ends with it. -/
theorem add_one_eq (h : a.Tiles lo [some i] hi) : i + 1 = hi := by
  cases h with
  | node _ _ h =>
    cases h
    rfl

/-- **The row of some trees is their post-order.** -/
theorem flatMap_postOrder (h : a.Tiles lo rs hi) {levels : Nat} (hl : hi ≤ lo + levels) :
    rs.flatMap (a.postOrder levels) = List.range' lo (hi - lo) := by
  induction h generalizing levels with
  | nil => simp
  | absent _ ih =>
    rw [List.flatMap_cons, ih hl]
    cases levels <;> rfl
  | @node lo i hi shape rs hs hp h ihp ih =>
    have hle := hp.le
    have hle' := h.le
    obtain ⟨levels, rfl⟩ := Nat.exists_eq_succ_of_ne_zero (show levels ≠ 0 by omega)
    -- The parts end before the node, so one level less is enough for them.
    have hnode : a.postOrder (levels + 1) (some i) = List.range' lo (i - lo) ++ [i] := by
      rw [postOrder, hs]
      exact congrArg (· ++ [i]) (ihp (by omega))
    have hlast : List.range' lo (i - lo) ++ [i] = List.range' lo (i + 1 - lo) := by
      rw [Nat.sub_add_comm hle, List.range'_1_concat, Nat.add_sub_cancel' hle]
    have hsplit : List.range' lo (i + 1 - lo) ++ List.range' (i + 1) (hi - (i + 1)) =
        List.range' lo (hi - lo) := by
      have hmid : lo + (i + 1 - lo) = i + 1 := by omega
      have hsize : i + 1 - lo + (hi - (i + 1)) = hi - lo := by omega
      rw [← hsize, ← List.range'_append_1, hmid]
    rw [List.flatMap_cons, Nat.succ_eq_add_one, hnode, ih (by omega), hlast, hsplit]

/-- The roots of a row are in it. -/
theorem mem_bounds (h : a.Tiles lo rs hi) (hj : some j ∈ rs) : lo ≤ j ∧ j < hi := by
  induction h with
  | nil => cases hj
  | absent _ ih => exact ih (by simpa using hj)
  | node _ hp h _ ih =>
    have hle := hp.le
    have hle' := h.le
    rcases List.mem_cons.1 hj with heq | hj
    · cases heq
      omega
    · have := ih hj
      omega

/-- The parts of a node in a row are in the row, before the node. -/
theorem part_bounds (h : a.Tiles lo rs hi) {parent place : Nat} (hlo : lo ≤ parent)
    (hhi : parent < hi) (hj : a.PartAt parent place j) : lo ≤ j ∧ j < parent := by
  induction h with
  | nil => omega
  | absent _ ih => exact ih hlo hhi
  | @node lo i hi shape rs hs hp _ ihp ih =>
    have hle := hp.le
    rcases Nat.lt_trichotomy parent i with hlt | rfl | hgt
    · exact ihp hlo hlt
    · obtain ⟨shape', hs', hplace⟩ := hj
      obtain rfl := Option.some.inj (hs.symm.trans hs')
      exact hp.mem_bounds (List.mem_of_getElem? hplace)
    · have := ih hgt hhi
      omega

/-- Every node in a row is one of the roots, or a part of a node in the row. -/
theorem mem_or_exists_partAt (h : a.Tiles lo rs hi) (hlo : lo ≤ j) (hhi : j < hi) :
    some j ∈ rs ∨ ∃ parent place, lo ≤ parent ∧ parent < hi ∧ a.PartAt parent place j := by
  induction h with
  | nil => omega
  | absent _ ih => exact (ih hlo hhi).imp_left (List.mem_cons_of_mem _)
  | @node lo i hi shape rs hs hp h ihp ih =>
    have hle := hp.le
    have hle' := h.le
    rcases Nat.lt_trichotomy j i with hlt | rfl | hgt
    · refine .inr ?_
      rcases ihp hlo hlt with hmem | ⟨parent, place, hlo', hhi', hpart⟩
      · obtain ⟨place, hplace⟩ := List.mem_iff_getElem?.1 hmem
        exact ⟨i, place, by omega, by omega, shape, hs, hplace⟩
      · exact ⟨parent, place, hlo', by omega, hpart⟩
    · exact .inl List.mem_cons_self
    · refine (ih hgt hhi).imp (List.mem_cons_of_mem _) ?_
      rintro ⟨parent, place, hlo', hhi', hpart⟩
      exact ⟨parent, place, by omega, hhi', hpart⟩

/-- A node is a root of a row in one place only. -/
theorem place_unique (h : a.Tiles lo rs hi) {m n : Nat} (hm : rs[m]? = some (some j))
    (hn : rs[n]? = some (some j)) : m = n := by
  induction h generalizing m n with
  | nil => simp at hm
  | absent _ ih =>
    cases m with
    | zero => simp at hm
    | succ m =>
      cases n with
      | zero => simp at hn
      | succ n => exact congrArg (· + 1) (ih hm hn)
  | @node lo i hi shape rs _ _ h _ ih =>
    have hlater : ∀ k, rs[k]? = some (some j) → i < j := fun k hk =>
      (h.mem_bounds (List.mem_of_getElem? hk)).1
    cases m with
    | zero =>
      obtain rfl : i = j := by simpa using hm
      cases n with
      | zero => rfl
      | succ n => exact absurd (hlater n hn) (Nat.lt_irrefl i)
    | succ m =>
      cases n with
      | zero =>
        obtain rfl : i = j := by simpa using hn
        exact absurd (hlater m hm) (Nat.lt_irrefl i)
      | succ n => exact congrArg (· + 1) (ih hm hn)

/-- A root of a row is no part of a node in the row. -/
theorem not_partAt_of_mem (h : a.Tiles lo rs hi) (hj : some j ∈ rs) {parent place : Nat}
    (hlo : lo ≤ parent) (hhi : parent < hi) : ¬ a.PartAt parent place j := by
  intro hpart
  induction h with
  | nil => cases hj
  | absent _ ih => exact ih (by simpa using hj) hlo hhi
  | @node lo i hi shape rs hs hp h _ ih =>
    have hlt := ((hp.node hs h).part_bounds hlo hhi hpart).2
    have hbehind : i < parent := by
      rcases List.mem_cons.1 hj with heq | hj
      · cases heq
        exact hlt
      · have := (h.mem_bounds hj).1
        omega
    have hrest := h.part_bounds hbehind hhi hpart
    rcases List.mem_cons.1 hj with heq | hj
    · cases heq
      omega
    · exact ih hj hbehind hhi

/-- A node in a row is a part of one node in the row, in one place. -/
theorem partAt_unique (h : a.Tiles lo rs hi) {k l m n : Nat} (hk : lo ≤ k) (hk' : k < hi)
    (hl : lo ≤ l) (hl' : l < hi) (hkm : a.PartAt k m j) (hln : a.PartAt l n j) :
    k = l ∧ m = n := by
  induction h with
  | nil => omega
  | absent _ ih => exact ih hk hk' hl hl'
  | @node lo i hi shape rs hs hp h ihp ih =>
    have hside : ∀ {parent place : Nat}, lo ≤ parent → parent < hi → a.PartAt parent place j →
        (i < parent ↔ i < j) := by
      intro parent place hlo hhi hpart
      have hlt := ((hp.node hs h).part_bounds hlo hhi hpart).2
      refine ⟨fun hbehind => ?_, fun hbehind => by omega⟩
      have := h.part_bounds hbehind hhi hpart
      omega
    have hroot : ∀ {place : Nat}, a.PartAt i place j → shape.parts[place]? = some (some j) := by
      rintro place ⟨shape', hs', hplace⟩
      obtain rfl := Option.some.inj (hs.symm.trans hs')
      exact hplace
    by_cases hj : i < j
    · exact ih ((hside hk hk' hkm).2 hj) hk' ((hside hl hl' hln).2 hj) hl'
    · rcases Nat.lt_or_eq_of_le (Nat.le_of_not_lt (mt (hside hk hk' hkm).1 hj)) with hki | rfl <;>
        rcases Nat.lt_or_eq_of_le (Nat.le_of_not_lt (mt (hside hl hl' hln).1 hj)) with hli | rfl
      · exact ihp hk hki hl hli
      · exact absurd hkm (hp.not_partAt_of_mem (List.mem_of_getElem? (hroot hln)) hk hki)
      · exact absurd hln (hp.not_partAt_of_mem (List.mem_of_getElem? (hroot hkm)) hl hli)
      · exact ⟨rfl, hp.place_unique (hroot hkm) (hroot hln)⟩

/-- **A row that is all of an arena, with one root, is one tree in post-order.** -/
theorem postOrdered {root : Nat} (h : a.Tiles 0 [some root] a.size) : a.PostOrdered root := by
  have hbound : ∀ {parent place i : Nat}, a.PartAt parent place i → parent < a.size := by
    rintro parent place i ⟨shape, hs, -⟩
    obtain ⟨n, hn, -⟩ := Option.map_eq_some_iff.1 hs
    exact (Array.getElem?_eq_some_iff.1 hn).1
  refine ⟨fun levels hl => ?_, ?_, fun parent place i hpart => ?_, fun i hi hne => ?_,
    fun parent place hpart => ?_⟩
  · have hrow := h.flatMap_postOrder (show a.size ≤ 0 + levels by omega)
    rwa [List.flatMap_singleton, Nat.sub_zero, ← List.range_eq_range'] at hrow
  · exact h.add_one_eq
  · exact (h.part_bounds (Nat.zero_le _) (hbound hpart) hpart).2
  · rcases h.mem_or_exists_partAt (Nat.zero_le i) hi with hmem | ⟨parent, place, -, hp, hpart⟩
    · exact absurd (by simpa using hmem) hne
    · refine ⟨parent, place, hpart, fun parent' place' hpart' => ?_⟩
      exact h.partAt_unique (Nat.zero_le _) (hbound hpart') (Nat.zero_le _) hp hpart' hpart
  · exact h.not_partAt_of_mem List.mem_cons_self (Nat.zero_le _) (hbound hpart) hpart

/-- A node behind its parts. -/
theorem push {n : Node} (h : b.Tiles lo n.shape.parts a.size) (hle : a.push n ≤ b) :
    b.Tiles lo [some a.size] (a.push n).size := by
  rw [size_push]
  refine .node ?_ h .nil
  rw [shape?, get?_of_le hle (get?_push_size a n)]
  rfl

end Tiles

/-! ## Parentheses -/

/-- Where parts come before the nodes they are parts of, the way into parentheses ends. -/
theorem unwraps_skipParensFrom (h : ∀ parent place i, a.PartAt parent place i → i < parent)
    {n : Nat} {r : NodeRef} (hr : ∀ i ∈ r, i < n) : a.Unwraps r (a.skipParensFrom n r) := by
  induction n generalizing r with
  | zero =>
    cases r with
    | none => exact .stop nofun
    | some i => exact absurd (hr i rfl) (Nat.not_lt_zero i)
  | succ n ih =>
    unfold skipParensFrom
    split
    · next inner hs =>
      refine .step hs (ih fun i hi => ?_)
      obtain rfl : inner = some i := hi
      cases r with
      | none => cases hs
      | some parent =>
        have hlt := h parent 0 i ⟨_, hs, rfl⟩
        have := hr parent rfl
        omega
    · next hs => exact .stop hs

/-- **In a tree in post-order the way into parentheses ends**, from every reference. -/
theorem PostOrdered.unwraps {root : Nat} (h : a.PostOrdered root) (r : NodeRef) :
    a.Unwraps r (a.skipParens r) := by
  by_cases hr : ∀ i ∈ r, i < a.size + 1
  · exact unwraps_skipParensFrom h.part_lt hr
  · have hnone : a.shape? r = none := by
      refine Option.map_eq_none_iff.2 (Option.eq_none_iff_forall_ne_some.2 fun n hn => hr ?_)
      rintro i rfl
      exact Nat.lt_succ_of_lt (Array.getElem?_eq_some_iff.1 hn).1
    rw [skipParens, skipParensFrom, hnone]
    exact .stop (by simp [hnone])

end Arena

/-! ## Trees that are laid out -/

namespace SyntaxTree

open Arena

variable {b : Arena}

mutual

/-- **A tree that is laid out is a row with one root**, in every arena that goes on from there. -/
theorem tiles_layOut : ∀ (t : SyntaxTree) (a : Arena), (t.layOut a).2 ≤ b →
    b.Tiles a.size [some (t.layOut a).1] (t.layOut a).2.size
  | identifier _, _, h | literal _ _ _ _, _, h | keyword _ _, _, h => Tiles.nil.push h
  | access target member _, a, h => by
    have hname := (le_push _ _).trans h
    have htarget := tiles_layOut target a ((le_push _ _).trans hname)
    exact (htarget.append (Tiles.nil.push hname)).push h
  | call target _, a, h | paren target _, a, h =>
    (tiles_layOut target a ((le_push _ _).trans h)).push h
  | update receiver entries _ _, a, h => by
    have hentries := (le_push _ _).trans h
    have hreceiver := tiles_layOut receiver a ((le_layOutEntries _ _).trans hentries)
    exact (hreceiver.append (tiles_layOutEntries entries _ hentries)).push h

/-- Initializers that are laid out are a row. -/
theorem tiles_layOutEntries : ∀ (entries : List (Initializer SyntaxTree)) (a : Arena),
    (layOutEntries entries a).2 ≤ b →
      b.Tiles a.size (layOutEntries entries a).1 (layOutEntries entries a).2.size
  | [], _, _ => .nil
  | ⟨name, value, _⟩ :: entries, a, h => by
    have hentry := (le_layOutEntries entries _).trans h
    have hvalue := tiles_layOut value (a.addName name).2 ((le_push _ _).trans hentry)
    have hname : b.Tiles a.size [(a.addName name).1] (a.addName name).2.size := by
      cases name with
      | none => exact Tiles.nil.absent
      | some id =>
        exact Tiles.nil.push ((le_layOut value _).trans ((le_push _ _).trans hentry))
    exact ((hname.append hvalue).push hentry).append (tiles_layOutEntries entries _ h)

end

/-- The nodes of initializers stand where the initializers do. -/
theorem map_span_layOutEntries {entries : List (Initializer SyntaxTree)} {a : Arena}
    (h : (layOutEntries entries a).2 ≤ b) :
    (layOutEntries entries a).1.map b.span = entries.map (·.span) := by
  induction entries generalizing a with
  | nil => rfl
  | cons entry entries ih =>
    have hrest : (layOutEntries entries (layOutEntries [entry] a).2).2 ≤ b := h
    have hentry : (layOutEntries [entry] a).1.map b.span = [entry.span] := by
      have hnode := get?_of_le ((le_layOutEntries entries _).trans hrest) (get?_push_size _ _)
      exact congrArg (fun n => [(Option.map Node.span n).getD {}]) hnode
    rw [layOutEntries_cons, List.map_append, ih hrest, hentry]
    rfl

theorem entriesInOrder_of_ne {n : Node}
    (h : ∀ receiver entries list, n.shape ≠ .update receiver entries list) : b.EntriesInOrder n :=
  fun receiver entries list hs => absurd hs (h receiver entries list)

theorem entriesInOrder_name (id : Identifier) : b.EntriesInOrder id.node :=
  entriesInOrder_of_ne nofun

/-- Initializers whose values are laid out with all nodes in order. -/
theorem all_entriesInOrder_layOutEntries {entries : List (Initializer SyntaxTree)} {a : Arena}
    (hv : ∀ entry ∈ entries, ∀ a : Arena, (entry.value.layOut a).2 ≤ b →
      a.All b.EntriesInOrder → (entry.value.layOut a).2.All b.EntriesInOrder)
    (hb : (layOutEntries entries a).2 ≤ b) (ha : a.All b.EntriesInOrder) :
    (layOutEntries entries a).2.All b.EntriesInOrder := by
  induction entries generalizing a with
  | nil => exact ha
  | cons entry entries ih =>
    rw [List.forall_mem_cons] at hv
    have hvalue := (Arena.le_push _ _).trans ((le_layOutEntries entries _).trans hb)
    refine ih hv.2 hb ((hv.1 _ hvalue ?_).push (entriesInOrder_of_ne nofun))
    exact ha.addName fun id _ => entriesInOrder_name id

/-- **Where initializers stand in order, their nodes do.** -/
theorem Stands.all_entriesInOrder {text : List Char} {t : SyntaxTree} (h : t.Stands text)
    {a : Arena} (hb : (t.layOut a).2 ≤ b) (ha : a.All b.EntriesInOrder) :
    (t.layOut a).2.All b.EntriesInOrder := by
  induction h generalizing a with
  | identifier _ => exact ha.push (entriesInOrder_name _)
  | literal _ | keyword _ => exact ha.push (entriesInOrder_of_ne nofun)
  | @access target member _ _ _ _ ih =>
    have hname := (Arena.le_push _ _).trans hb
    have hmember := (ih ((Arena.le_push _ _).trans hname) ha).push (entriesInOrder_name member)
    exact hmember.push (entriesInOrder_of_ne nofun)
  | call _ _ ih | paren _ _ ih =>
    exact (ih ((Arena.le_push _ _).trans hb) ha).push (entriesInOrder_of_ne nofun)
  | @update receiver entries list span _ _ _ _ ho _ ihr ihv =>
    have hentries := (Arena.le_push _ _).trans hb
    have hreceiver := ihr ((le_layOutEntries _ _).trans hentries) ha
    refine (all_entriesInOrder_layOutEntries (fun entry he a => ihv entry he) hentries
      hreceiver).push ?_
    rintro r es l ⟨⟩
    have hspans : (entries.map (·.span)).Pairwise fun s s' =>
        s.start < s'.start ∧ s.stop < s'.start := List.pairwise_map.2 ho
    rw [← map_span_layOutEntries hentries] at hspans
    exact List.pairwise_map.1 hspans

end SyntaxTree

/-- **Every text is built as one tree in post-order.** Enough steps build the nodes of the tree that
the text writes: they are listed in post-order from the root, which is the last; each node but the
root is a part of exactly one other, in one place, and comes before it; initializers stand in the
order of the text; and from every reference the way into parentheses ends. -/
theorem build_postOrdered (text : String) {steps : Nat}
    (ht : (Token.ofText text.toList).length ≤ steps) (hd : maxParseDepth < steps) :
    build steps text = some (parse text).built ∧
      (parse text).arena.PostOrdered (parse text).root ∧
      (parse text).arena.All (parse text).arena.EntriesInOrder ∧
      ∀ r, (parse text).arena.Unwraps r ((parse text).arena.skipParens r) := by
  have hrow : (parse text).arena.Tiles 0 [some (parse text).root] (parse text).arena.size :=
    (parse text).tree.tiles_layOut {} (le_refl _)
  have horder := hrow.postOrdered
  refine ⟨build_eq_built text ht hd, horder, ?_, horder.unwraps⟩
  exact (stands_parse text).all_entriesInOrder (le_refl _) Arena.all_empty

/-- Names that were looked at, missing values and a missing name leave no node over. -/
theorem build_postOrdered_of_mended :
    (Token.ofText "((x)) with { y, z = (, = 2 } @".toList).length ≤ 257 ∧
    maxParseDepth < 257 ∧
      build 257 "((x)) with { y, z = (, = 2 } @" =
        some (parse "((x)) with { y, z = (, = 2 } @").built ∧
      (parse "((x)) with { y, z = (, = 2 } @").arena.postOrder 13 (some 12) = List.range 13 ∧
      (parse "((x)) with { y, z = (, = 2 } @").arena.Unwraps (some 2) (some 0) := by
  have ht : (Token.ofText "((x)) with { y, z = (, = 2 } @".toList).length ≤ 257 := by
    decide +kernel
  have hd : maxParseDepth < 257 := by decide
  have hsize : (parse "((x)) with { y, z = (, = 2 } @").arena.size = 13 := by decide +kernel
  have hroot : (parse "((x)) with { y, z = (, = 2 } @").root = 12 := by decide +kernel
  have hskip : (parse "((x)) with { y, z = (, = 2 } @").arena.skipParens (some 2) = some 0 := by
    decide +kernel
  obtain ⟨hbuild, horder, -, hunwraps⟩ := build_postOrdered "((x)) with { y, z = (, = 2 } @" ht hd
  have hlist := horder.postOrder 13 (Nat.le_of_eq hsize)
  have hinside := hunwraps (some 2)
  rw [hsize, hroot] at hlist
  rw [hskip] at hinside
  exact ⟨ht, hd, hbuild, hlist, hinside⟩

end UpdateExpr
