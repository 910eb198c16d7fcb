import Mathlib.Data.List.Chain
import Mathlib.Data.List.TakeWhile
import UpdateExpr.Proofs.BreadthFirst
import UpdateExpr.Proofs.Symbol.Hiding
import UpdateExpr.Proofs.Symbol.Reversal
import UpdateExpr.Proofs.Ty.Normal

/-!
# Walks on any table of symbols

The walks over bases and interfaces ask for types as they go, so that what is reached from a type
may be without end, as with a class `A<T>` whose base is `A<Box<T>>`. Bases may also lead in a
circle, and definitions may be missing. On any table of symbols both walks end, at the limit or
where nothing is new. They begin with the type and find nothing twice. Each base is that of the type
before it, and the interfaces come in breadth-first order.

What a type leads to is told by answers that were given on the walk. If the table of symbols is
built from known handles, these are the answers that are given whenever one asks again later, and so
what is reached by them is found up to the limit.

## Main definitions

* `Reading.on`: the answers that are given in a state
* `SymbolTable.Climbing`, `SymbolTable.Exploring`: what a walk has found on the way
* `SymbolTable.Climbed`, `SymbolTable.Explored`: what a walk has found in the end

## Main results

* `SymbolTable.Climbing.step`, `SymbolTable.Exploring.step`: one step of a walk
* `climbed_climb`, `explored_spread`: whole walks
* `SymbolTable.Climbed.upTo`, `SymbolTable.Explored.upTo`: what is reached is found, up to the limit
* `walks_end`: both walks, on any table of symbols
-/

namespace UpdateExpr

/-- The answers that are given in a state. -/
def Reading.on (q : QueryState) : Reading :=
  fun _ m a => (m q).1 = a

namespace SymbolTable

/-- A walk over bases has found some types: the first one at first, and each further one as the base
of the one before it. None was found twice. -/
structure Climbing (s : SymbolTable) (R : Reading) (ty : TypeId) (chain : List TypeId) : Prop where
  head : chain.head? = some ty
  nodup : chain.Nodup
  links : chain.IsChain fun x b => R _ (s.baseType x) (some b)

/-- A walk over bases has ended: at the limit, or where the last one has no base, or one that was
found before. -/
structure Climbed (s : SymbolTable) (R : Reading) (ty : TypeId) (chain : List TypeId) : Prop
    extends Climbing s R ty chain where
  length_le : chain.length ≤ maxBaseSteps + 1
  ended : chain.length = maxBaseSteps + 1 ∨ ∃ last answer, chain.getLast? = some last ∧
    R _ (s.baseType last) answer ∧ ∀ b ∈ answer, b ∈ chain

/-- A walk over interfaces has found some types in breadth-first order, each of them with the
interfaces that it names. Of all that was named, in the order of naming, the last ones wait, and the
others were found. -/
structure Exploring (s : SymbolTable) (R : Reading) (ty : TypeId) (found waiting : List TypeId)
    (next : TypeId → List TypeId) : Prop where
  answers : ∀ x ∈ found, R _ (s.directInterfaces x) (next x)
  ordered : BreadthFirst next ty found
  named : ∃ done, (∀ x ∈ done, x ∈ found) ∧ found.flatMap next = done ++ waiting

/-- A walk over interfaces has ended: at the limit, or where all that is named was found. -/
structure Explored (s : SymbolTable) (R : Reading) (ty : TypeId) (found : List TypeId)
    (next : TypeId → List TypeId) : Prop where
  answers : ∀ x ∈ found, R _ (s.directInterfaces x) (next x)
  head : found.head? = some ty
  nodup : found.Nodup
  earlier : ∀ i (h : i + 1 < found.length), ∃ x ∈ found.take (i + 1), found[i + 1] ∈ next x
  ordered : BreadthFirst next ty found
  nearer : found.Pairwise (Nearer (fun x y => y ∈ next x) ty)
  length_le : found.length ≤ maxBaseSteps + 1
  ended : found.length = maxBaseSteps + 1 ∨ ∀ x ∈ found, ∀ y ∈ next x, y ∈ found

end SymbolTable

section Walks

variable {good : TypeTable → TypeId → Prop} {s : SymbolTable} {R : Reading} {t t' : TypeTable}
  {q q' : QueryState} {ty last base x : TypeId} {n : Nat}
  {chain found waiting rest answer : List TypeId} {next : TypeId → List TypeId}

/-! ## Over bases -/

/-- **One step**: the base of the last one is found, if it is new. -/
theorem SymbolTable.Climbing.step (h : s.Climbing R ty chain) (hlast : chain.getLast? = some last)
    (hbase : R _ (s.baseType last) (some base)) (hnew : base ∉ chain) :
    s.Climbing R ty (chain ++ [base]) where
  head := by
    rw [List.head?_append, h.head]
    rfl
  nodup := by
    rw [← List.concat_eq_append]
    exact h.nodup.concat hnew
  links := by
    refine h.links.append (List.isChain_singleton base) fun x hx y hy => ?_
    cases hlast.symm.trans hx
    cases hy
    exact hbase

theorem steady_base (hg : TypeTable.Hereditary good) (hs : s.withoutMembers.AllGood good q.types)
    (hty : good q.types ty) : Steady good (s.baseType ty) (s.baseType ty) q
      fun t base => ∀ b ∈ base, good t b :=
  steady_baseType (s := s.withoutMembers) hg hs hty

theorem le_climb (s : SymbolTable) (n : Nat) (chain : List TypeId) (last : TypeId)
    (q : QueryState) : q.types ≤ (s.climb n chain last q).2.types :=
  (steady_climb TypeTable.hereditary_true (fun _ _ => trivial) (fun _ _ => trivial)
    trivial).grows.le

/-- **A walk over bases**, continued from what was found before. Those answers count that are given
on the walk for types with a property. -/
theorem climbed_climb (hg : TypeTable.Hereditary good)
    (hR : ∀ {x q'}, t ≤ q'.types → good q'.types x → (s.baseType x q').2.types ≤ t' →
      R _ (s.baseType x) (s.baseType x q').1)
    (hs : s.withoutMembers.AllGood good q.types) (hq : t ≤ q.types) (hlast : good q.types last)
    (h : s.Climbing R ty chain) (hget : chain.getLast? = some last)
    (hlength : chain.length + n = maxBaseSteps + 1) (hle : (s.climb n chain last q).2.types ≤ t') :
    s.Climbed R ty (s.climb n chain last q).1 := by
  -- A step that goes on makes the chain one longer, so the limit is reached with the last step.
  induction n generalizing chain last q with
  | zero => exact ⟨h, hlength.le, .inl hlength⟩
  | succ n ih =>
    have hasked : (s.baseType last q).2.types ≤ t' → R _ (s.baseType last) (s.baseType last q).1 :=
      hR hq hlast
    have hshort : chain.length ≤ maxBaseSteps + 1 := by omega
    cases hb : (s.baseType last q).1 with
    | none =>
      rw [climb_succ_of_none hb] at hle ⊢
      rw [hb] at hasked
      exact ⟨h, hshort, .inr ⟨last, none, hget, hasked hle, nofun⟩⟩
    | some base =>
      rw [climb_succ_of_some hb] at hle ⊢
      rw [hb] at hasked
      by_cases hmem : base ∈ chain
      · rw [if_pos hmem] at hle ⊢
        refine ⟨h, hshort, .inr ⟨last, some base, hget, hasked hle, ?_⟩⟩
        rintro b ⟨⟩
        exact hmem
      · rw [if_neg hmem] at hle ⊢
        obtain ⟨hgrows, hpost, -⟩ := steady_base hg hs hlast
        have hlater := (le_climb s n (chain ++ [base]) base (s.baseType last q).2).trans hle
        refine ih (hs.grow hgrows) (hq.trans hgrows.le) (hpost base hb)
          (h.step hget (hasked hlater) hmem) List.getLast?_concat ?_ hle
        rw [List.length_append, List.length_singleton]
        omega

/-- **Where the answers are those of one state**, a walk over bases has found what is reached by
them, up to the limit. -/
theorem SymbolTable.Climbed.upTo (h : s.Climbed (.on q) ty chain) :
    UpTo (maxBaseSteps + 1) (fun x b => (s.baseType x q).1 = some b) ty chain := by
  have hreached := fun x hx => reflTransGen_of_head? (x := x) h.links hx h.head
  refine upTo_of_ended h.nodup hreached (List.mem_of_head? h.head) h.length_le ?_
  rcases h.ended with hfull | ⟨last, answer, hlast, hasked, hold⟩
  · exact .inl hfull
  · refine .inr (closed_of_isChain ?_ h.links (fun _ => id) fun x hx b hb => ?_)
    · intro x y z hy hz
      exact Option.some.inj (hy.symm.trans hz)
    · cases hlast.symm.trans hx
      cases hasked.symm.trans hb
      exact hold b rfl

/-! ## Over interfaces -/

namespace SymbolTable.Exploring

theorem init (h : R _ (s.directInterfaces ty) answer) :
    s.Exploring R ty [ty] answer fun _ => answer where
  answers := List.forall_mem_singleton.2 h
  ordered := .start
  named := ⟨[], List.forall_mem_nil _, List.flatMap_singleton _ _⟩

/-- Those at the front of the waiting ones that were found before need not wait any more. -/
theorem dropWhile (h : s.Exploring R ty found waiting next) :
    s.Exploring R ty found (waiting.dropWhile (· ∈ found)) next where
  answers := h.answers
  ordered := h.ordered
  named := by
    obtain ⟨done, hdone, hnamed⟩ := h.named
    refine ⟨done ++ waiting.takeWhile (· ∈ found), ?_, ?_⟩
    · refine List.forall_mem_append.2 ⟨hdone, fun x hx => ?_⟩
      have hfound := List.mem_takeWhile_imp hx
      exact of_decide_eq_true hfound
    · rw [hnamed, List.append_assoc, List.takeWhile_append_dropWhile]

/-- **One step**: the first that waits is found, if it is new, and what it names waits behind the
others. -/
theorem step (h : s.Exploring R ty found (x :: rest) next) (hnew : x ∉ found)
    (hx : R _ (s.directInterfaces x) answer) :
    s.Exploring R ty (found ++ [x]) (rest ++ answer) (Function.update next x answer) := by
  obtain ⟨done, hdone, hnamed⟩ := h.named
  have hsame : ∀ y ∈ found, Function.update next x answer y = next y := by
    intro y hy
    exact Function.update_of_ne (ne_of_mem_of_not_mem hy hnew) answer next
  refine ⟨?_, ?_, done ++ [x], ?_, ?_⟩
  · refine List.forall_mem_append.2 ⟨fun y hy => ?_, List.forall_mem_singleton.2 ?_⟩
    · rw [hsame y hy]
      exact h.answers y hy
    · rwa [Function.update_self]
  · refine .step (h.ordered.congr hsame) ?_
    rw [List.flatMap_congr hsame, hnamed, List.find?_append]
    have hnone : done.find? (· ∉ found) = none := by
      simpa [List.find?_eq_none] using hdone
    rw [hnone, Option.none_or]
    exact List.find?_cons_of_pos (decide_eq_true hnew)
  · refine List.forall_mem_append.2 ⟨fun y hy => List.mem_append_left _ (hdone y hy), ?_⟩
    exact List.forall_mem_singleton.2 (List.mem_append_right _ (List.mem_singleton_self x))
  · rw [List.flatMap_append, List.flatMap_congr hsame, hnamed]
    simp

/-- Where nothing waits any more, all that is named was found. -/
theorem closed (h : s.Exploring R ty found [] next) : ∀ x ∈ found, ∀ y ∈ next x, y ∈ found := by
  intro x hx y hy
  obtain ⟨done, hdone, hnamed⟩ := h.named
  rw [List.append_nil] at hnamed
  apply hdone
  rw [← hnamed]
  exact List.mem_flatMap.2 ⟨x, hx, hy⟩

end SymbolTable.Exploring

theorem SymbolTable.Explored.of_ordered
    (hanswers : ∀ x ∈ found, R _ (s.directInterfaces x) (next x))
    (h : BreadthFirst next ty found) (hle : found.length ≤ maxBaseSteps + 1)
    (hend : found.length = maxBaseSteps + 1 ∨ ∀ x ∈ found, ∀ y ∈ next x, y ∈ found) :
    s.Explored R ty found next :=
  ⟨hanswers, h.head?, h.nodup, fun _ hi => h.exists_earlier hi, h, h.pairwise_nearer, hle, hend⟩

theorem steady_interfaces (hg : TypeTable.Hereditary good)
    (hs : s.withoutMembers.AllGood good q.types) (hty : good q.types ty) :
    Steady good (s.directInterfaces ty) (s.directInterfaces ty) q
      fun t found => ∀ x ∈ found, good t x :=
  steady_directInterfaces (s := s.withoutMembers) hg hs hty

theorem le_spread (s : SymbolTable) (n : Nat) (found waiting : List TypeId) (q : QueryState) :
    q.types ≤ (s.spread n found waiting q).2.types :=
  (steady_spread TypeTable.hereditary_true (fun _ _ => trivial) (fun _ _ => trivial)
    (fun _ _ => trivial)).grows.le

/-- **A walk over interfaces**, continued from what was found before. Those answers count that are
given on the walk for types with a property. -/
theorem explored_spread (hg : TypeTable.Hereditary good)
    (hR : ∀ {x q'}, t ≤ q'.types → good q'.types x → (s.directInterfaces x q').2.types ≤ t' →
      R _ (s.directInterfaces x) (s.directInterfaces x q').1)
    (hs : s.withoutMembers.AllGood good q.types) (hq : t ≤ q.types)
    (hw : ∀ x ∈ waiting, good q.types x) (h : s.Exploring R ty found waiting next)
    (hlength : found.length + n = maxBaseSteps + 1)
    (hle : (s.spread n found waiting q).2.types ≤ t') :
    ∃ next, s.Explored R ty (s.spread n found waiting q).1 next := by
  induction n generalizing found waiting next q with
  | zero => exact ⟨next, .of_ordered h.answers h.ordered hlength.le (.inl hlength)⟩
  | succ n ih =>
    have hleft := h.dropWhile
    have hw' : ∀ x ∈ waiting.dropWhile (· ∈ found), good q.types x :=
      fun x hx => hw x ((List.dropWhile_sublist _).subset hx)
    have hhead := List.head?_dropWhile_not (p := (· ∈ found)) waiting
    unfold SymbolTable.spread at hle ⊢
    cases hd : waiting.dropWhile (· ∈ found) with
    | nil =>
      rw [hd] at hleft
      have hle' : found.length ≤ maxBaseSteps + 1 := by omega
      exact ⟨next, .of_ordered h.answers h.ordered hle' (.inr hleft.closed)⟩
    | cons x rest =>
      rw [hd] at hleft hle hw' hhead
      rw [List.forall_mem_cons] at hw'
      dsimp only at hle ⊢
      rw [bind_apply] at hle ⊢
      have hnew : x ∉ found := of_decide_eq_false hhead
      obtain ⟨hgrows, hpost, -⟩ := steady_interfaces hg hs hw'.1
      have hlater := (le_spread s n (found ++ [x]) _ (s.directInterfaces x q).2).trans hle
      have hstep := hleft.step hnew (hR hq hw'.1 hlater)
      refine ih (hs.grow hgrows) (hq.trans hgrows.le) ?_ hstep ?_ hle
      · exact List.forall_mem_append.2 ⟨fun y hy => hgrows.keep (hw'.2 y hy), hpost⟩
      · rw [List.length_append, List.length_singleton]
        omega

/-- **A walk over interfaces has found what is reached**, up to the limit. -/
theorem SymbolTable.Explored.upTo (h : s.Explored R ty found next) :
    UpTo (maxBaseSteps + 1) (fun x y => y ∈ next x) ty found :=
  h.ordered.upTo h.length_le h.ended

/-- Answers of one state can be asked for again. -/
theorem SymbolTable.Explored.again (h : s.Explored (.on q) ty found next) :
    s.Explored (.on q) ty found fun x => (s.directInterfaces x q).1 := by
  refine .of_ordered (fun _ _ => rfl) (h.ordered.congr h.answers) h.length_le ?_
  refine h.ended.imp_right fun hall x hx y hy => hall x hx y ?_
  rwa [← h.answers x hx]

/-! ## From a type -/

/-- A walk over bases from a type, where those answers count that are given on the walk. -/
theorem climbed_baseChain (hg : TypeTable.Hereditary good)
    (hR : ∀ {x q'}, q.types ≤ q'.types → good q'.types x →
      (s.baseType x q').2.types ≤ (s.baseChain ty q).2.types →
      R _ (s.baseType x) (s.baseType x q').1)
    (hs : s.withoutMembers.AllGood good q.types) (hty : good q.types ty) :
    s.Climbed R ty (s.baseChain ty q).1 := by
  have h : s.Climbing R ty [ty] := ⟨rfl, List.nodup_singleton ty, List.isChain_singleton ty⟩
  exact climbed_climb hg hR hs (le_refl _) hty h rfl rfl (le_refl _)

/-- A walk over interfaces from a type, where those answers count that are given on the walk. -/
theorem explored_interfaceClosure (hg : TypeTable.Hereditary good)
    (hR : ∀ {x q'}, q.types ≤ q'.types → good q'.types x →
      (s.directInterfaces x q').2.types ≤ (s.interfaceClosure ty q).2.types →
      R _ (s.directInterfaces x) (s.directInterfaces x q').1)
    (hs : s.withoutMembers.AllGood good q.types) (hty : good q.types ty) :
    ∃ next, s.Explored R ty (s.interfaceClosure ty q).1 next := by
  have hfirst : s.interfaceClosure ty q =
      s.spread maxBaseSteps [ty] (s.directInterfaces ty q).1 (s.directInterfaces ty q).2 := rfl
  obtain ⟨hgrows, hpost, -⟩ := steady_interfaces hg hs hty
  have hlater := le_spread s maxBaseSteps [ty] (s.directInterfaces ty q).1
    (s.directInterfaces ty q).2
  rw [← hfirst] at hlater
  have h := SymbolTable.Exploring.init (hR (le_refl _) hty hlater)
  rw [hfirst] at hR ⊢
  exact explored_spread hg hR (hs.grow hgrows) hgrows.le hpost h (Nat.add_comm _ _) (le_refl _)

/-- **Both walks end, on any table of symbols.** They begin with the type and find nothing twice,
and no more than the limit allows. A walk over bases goes from each type to its base, up to the
limit, or until there is none, or one that was found before. A walk over interfaces finds them in
breadth-first order, each named by an earlier one, up to the limit, or until all that are named were
found. The answers are those that are given on the walk. If bases, interfaces and the type are built
from known handles, they are the answers in any state that comes later; and if by these no more is
reached than the limit allows, all of it is found. -/
theorem walks_end (s : SymbolTable) (ty : TypeId) (q : QueryState) :
    s.Climbed (.between q.types (s.baseChain ty q).2.types) ty (s.baseChain ty q).1 ∧
    (∃ next, s.Explored (.between q.types (s.interfaceClosure ty q).2.types) ty
      (s.interfaceClosure ty q).1 next) ∧
    (s.withoutMembers.AllGood TypeTable.Interned q.types → q.types.Interned ty →
      ∀ q' : QueryState,
      ((s.baseChain ty q).2.types ≤ q'.types →
        s.Climbed (.on q') ty (s.baseChain ty q).1 ∧
        UpTo (maxBaseSteps + 1) (fun x b => (s.baseType x q').1 = some b) ty (s.baseChain ty q).1) ∧
      ((s.interfaceClosure ty q).2.types ≤ q'.types →
        s.Explored (.on q') ty (s.interfaceClosure ty q).1 (fun x => (s.directInterfaces x q').1) ∧
        UpTo (maxBaseSteps + 1) (fun x y => y ∈ (s.directInterfaces x q').1) ty
          (s.interfaceClosure ty q).1)) := by
  refine ⟨?_, ?_, fun hs hty q' => ⟨fun hq' => ?_, fun hq' => ?_⟩⟩
  · exact climbed_baseChain TypeTable.hereditary_true (fun hq _ hle => ⟨_, hq, hle, rfl⟩)
      (fun _ _ => trivial) trivial
  · exact explored_interfaceClosure TypeTable.hereditary_true (fun hq _ hle => ⟨_, hq, hle, rfl⟩)
      (fun _ _ => trivial) trivial
  · -- For known handles, what was answered on the walk is answered again in any later state.
    have hg := TypeTable.hereditary_interned
    have hclimbed : s.Climbed (.on q') ty (s.baseChain ty q).1 := by
      refine climbed_baseChain hg (fun hq hx hle => ?_) hs hty
      have hs' := fun x hx => (hs x hx).mono hq
      exact ((steady_base hg hs' hx).answers known_interned q' (hle.trans hq')).1
    exact ⟨hclimbed, hclimbed.upTo⟩
  · have hg := TypeTable.hereditary_interned
    have hexplored : ∃ next, s.Explored (.on q') ty (s.interfaceClosure ty q).1 next := by
      refine explored_interfaceClosure hg (fun hq hx hle => ?_) hs hty
      have hs' := fun x hx => (hs x hx).mono hq
      exact ((steady_interfaces hg hs' hx).answers known_interned q' (hle.trans hq')).1
    obtain ⟨next, hexplored⟩ := hexplored
    exact ⟨hexplored.again, hexplored.again.upTo⟩

end Walks

/-- A class `A<T>` with the base `A<Box<T>>`, the class `Box<T>`, two interfaces that name each
other, the first one also an interface that is missing, and a class `D` that is its own base. -/
def wildSymbols : SymbolTable where
  definitions := #[
    { name := "A", typeParams := ["T"], base? := some ⟨10⟩ },
    { name := "Box", typeParams := ["T"] },
    { name := "I", isInterface := true, interfaces := [⟨13⟩, ⟨14⟩] },
    { name := "J", isInterface := true, interfaces := [⟨12⟩] },
    { name := "D", base? := some ⟨15⟩ }]

/-- The types of these links, and `A<int>`. -/
def wildTypes : TypeTable :=
  let t := (TypeTable.parameter ⟨0⟩ 0 {}).2
  let t := (TypeTable.applied ⟨1⟩ [⟨8⟩] t).2
  let t := (TypeTable.applied ⟨0⟩ [⟨9⟩] t).2
  let t := (TypeTable.applied ⟨0⟩ [Intrinsic.int.id] t).2
  let t := (TypeTable.plain ⟨2⟩ t).2
  let t := (TypeTable.plain ⟨3⟩ t).2
  let t := (TypeTable.plain ⟨5⟩ t).2
  (TypeTable.plain ⟨4⟩ t).2

theorem interned_wildTypes {ty : TypeId} (h : ty.index < wildTypes.size) :
    wildTypes.Interned ty := by
  have hmade : wildTypes.Made := by
    refine .plain (.plain (.plain (.plain (.applied (.applied (.applied (.parameter .empty _ _)
      _ ?_) _ ?_) _ ?_) _) _) _) _
    all_goals decide +kernel
  exact (hmade.normal ty h).interned

theorem allGood_wildSymbols :
    wildSymbols.withoutMembers.AllGood TypeTable.Interned wildTypes := by
  have hlinks : ∀ c ∈ wildSymbols.definitions.toList, ∀ ty ∈ c.base?.toList ++ c.interfaces,
      ty.index < wildTypes.size := by
    decide +kernel
  have hfound : ∀ {d : DefId} {c : Definition}, wildSymbols.definition? d = some c →
      c ∈ wildSymbols.definitions.toList := by
    intro d c h
    exact Array.mem_toList_iff.2 (Array.mem_of_getElem? h)
  intro ty hty
  cases hty with
  | base h hb => exact interned_wildTypes (hlinks _ (hfound h) ty (by simp [hb]))
  | interface h hi => exact interned_wildTypes (hlinks _ (hfound h) ty (by simp [hi]))
  | value h => exact absurd h (by simp [SymbolTable.member?, SymbolTable.withoutMembers])
  | parameter h _ => exact absurd h (by simp [SymbolTable.member?, SymbolTable.withoutMembers])

/-- The walk over the bases of `D` ends at once, and that over the interfaces of `I` with the
missing one. What they found is what is reached, and so it is for the bases of `A<int>`, up to the
limit. -/
theorem walks_end_of_wild :
    (wildSymbols.withoutMembers.AllGood TypeTable.Interned wildTypes ∧
      wildTypes.Interned ⟨11⟩ ∧ wildTypes.Interned ⟨12⟩) ∧
    (wildSymbols.baseChain ⟨15⟩ { types := wildTypes }).1 = [⟨15⟩] ∧
    (wildSymbols.interfaceClosure ⟨12⟩ { types := wildTypes }).1 = [⟨12⟩, ⟨13⟩, ⟨14⟩] ∧
    (∀ q : QueryState, (wildSymbols.baseChain ⟨11⟩ { types := wildTypes }).2.types ≤ q.types →
      UpTo (maxBaseSteps + 1) (fun x b => (wildSymbols.baseType x q).1 = some b) ⟨11⟩
        (wildSymbols.baseChain ⟨11⟩ { types := wildTypes }).1) ∧
    (∀ q : QueryState,
      (wildSymbols.interfaceClosure ⟨12⟩ { types := wildTypes }).2.types ≤ q.types →
      UpTo (maxBaseSteps + 1) (fun x y => y ∈ (wildSymbols.directInterfaces x q).1) ⟨12⟩
        (wildSymbols.interfaceClosure ⟨12⟩ { types := wildTypes }).1) := by
  have ha : wildTypes.Interned ⟨11⟩ := interned_wildTypes (by decide +kernel)
  have hi : wildTypes.Interned ⟨12⟩ := interned_wildTypes (by decide +kernel)
  have hbases := (walks_end wildSymbols ⟨11⟩ { types := wildTypes }).2.2 allGood_wildSymbols ha
  have hinterfaces := (walks_end wildSymbols ⟨12⟩ { types := wildTypes }).2.2 allGood_wildSymbols hi
  refine ⟨⟨allGood_wildSymbols, ha, hi⟩, by decide +kernel, by decide +kernel, ?_, ?_⟩
  · exact fun q hq => ((hbases q).1 hq).2
  · exact fun q hq => ((hinterfaces q).2 hq).2

end UpdateExpr
