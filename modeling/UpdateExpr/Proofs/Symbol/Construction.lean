import Mathlib.Data.List.Induction
import UpdateExpr.Symbol.Table

/-!
# Building symbol tables

A symbol table is built by changes, and a change may name definitions and members that are not
there. Who owns a member is noted twice: the member has its owner, and the owner lists its members.
The two notes agree for a definition that was there when the member was added. A definition that
came later does not list the member, although the member has it as owner.

What a table holds is told from the changes alone. A change adds one definition or one member, or it
changes nothing but the one that it names; owners and names stay what they were.

## Main definitions

* `SymbolTable.Change`, `SymbolTable.apply`, `SymbolTable.built`: a change, and the table after some
* `SymbolTable.Defined`, `SymbolTable.Added`: a definition or a member was added by one of the
  changes
* `SymbolTable.LastAdded`: a definition was the last to be added under a name
* `SymbolTable.Consistent`: what a table holds after some changes

## Main results

* `SymbolTable.member?_built_iff`: the members are those that were added
* `SymbolTable.mem_members_built_iff`: the members that a definition lists
* `SymbolTable.findDefinition?_built_iff`: the definition that is found under a name
* `SymbolTable.built_consistent`: all of this together, and what a change leaves as it is
-/

namespace UpdateExpr

namespace SymbolTable

/-- A change of a table that is being built. -/
inductive Change where
  | addDefinition (name : String) (isInterface : Bool) (typeParams : List String)
  | setBase (d : DefId) (base : TypeId)
  | addInterface (d : DefId) (ty : TypeId)
  | setUnresolvedBase (d : DefId) (name : String)
  | addMember (owner : DefId) (name : String) (shape : MemberShape)
  | setVisibility (m : MemberId) (visibility : Visibility)
  | setStatic (m : MemberId) (isStatic : Bool)
  | setOverride (m : MemberId) (isOverride : Bool)
  | setTypeParams (m : MemberId) (count : Nat)
  deriving DecidableEq, Repr

/-- The table after a change. -/
def apply (s : SymbolTable) : Change → SymbolTable
  | .addDefinition name isInterface typeParams => (s.addDefinition name isInterface typeParams).2
  | .setBase d base => s.setBase d base
  | .addInterface d ty => s.addInterface d ty
  | .setUnresolvedBase d name => s.setUnresolvedBase d name
  | .addMember owner name shape => (s.addMember owner name shape).2
  | .setVisibility m visibility => s.setVisibility m visibility
  | .setStatic m isStatic => s.setStatic m isStatic
  | .setOverride m isOverride => s.setOverride m isOverride
  | .setTypeParams m count => s.setTypeParams m count

/-- The table after some changes of the empty one. -/
def built (changes : List Change) : SymbolTable :=
  changes.foldl apply {}

/-- The number of the next definition. -/
def nextDefinition (s : SymbolTable) : DefId :=
  ⟨s.definitions.size⟩

/-- The number of the next member. -/
def nextMember (s : SymbolTable) : MemberId :=
  ⟨s.members.size⟩

namespace Change

/-- The definition that a change names; a new one is named by adding it. -/
def definition? (s : SymbolTable) : Change → Option DefId
  | addDefinition _ _ _ => some s.nextDefinition
  | setBase d _ | addInterface d _ | setUnresolvedBase d _ | addMember d _ _ => some d
  | setVisibility _ _ | setStatic _ _ | setOverride _ _ | setTypeParams _ _ => none

/-- The member that a change names; a new one is named by adding it. -/
def member? (s : SymbolTable) : Change → Option MemberId
  | addDefinition _ _ _ | setBase _ _ | addInterface _ _ | setUnresolvedBase _ _ => none
  | addMember _ _ _ => some s.nextMember
  | setVisibility m _ | setStatic m _ | setOverride m _ | setTypeParams m _ => some m

/-- The name under which a change adds a definition. -/
def definitionName? : Change → Option String
  | addDefinition name _ _ => some name
  | _ => none

theorem definitionName?_eq_some_iff {change : Change} {name : String} :
    change.definitionName? = some name ↔
      ∃ isInterface typeParams, change = addDefinition name isInterface typeParams := by
  cases change <;> simp [definitionName?]

/-- The owner and the name with which a change adds a member. -/
def declared? : Change → Option (DefId × String)
  | addMember owner name _ => some (owner, name)
  | _ => none

theorem declared?_eq_some_iff {change : Change} {owner : DefId} {name : String} :
    change.declared? = some (owner, name) ↔ ∃ shape, change = addMember owner name shape := by
  cases change <;> simp [declared?]

end Change

/-- A definition was added by one of some changes, under its name. -/
def Defined (changes : List Change) (d : DefId) (name : String) : Prop :=
  ∃ earlier isInterface typeParams later,
    changes = earlier ++ .addDefinition name isInterface typeParams :: later ∧
      d = (built earlier).nextDefinition

/-- A member was added by one of some changes, with its owner and name, to the table before it. -/
def Added (changes : List Change) (before : SymbolTable) (m : MemberId) (owner : DefId)
    (name : String) : Prop :=
  ∃ earlier shape later, changes = earlier ++ .addMember owner name shape :: later ∧
    before = built earlier ∧ m = before.nextMember

/-- A definition was added by one of some changes, and no later one has added another under its
name. -/
def LastAdded (changes : List Change) (name : String) (d : DefId) : Prop :=
  ∃ earlier isInterface typeParams later,
    changes = earlier ++ .addDefinition name isInterface typeParams :: later ∧
      d = (built earlier).nextDefinition ∧ ∀ change ∈ later, change.definitionName? ≠ some name

/-! ## One change -/

section Step

variable {s : SymbolTable} {d e : DefId} {m k : MemberId} {change : Change} {name : String}

theorem definition?_modifyDefinition (s : SymbolTable) (d e : DefId)
    (f : Definition → Definition) :
    (s.modifyDefinition d f).definition? e =
      if e = d then (s.definition? e).map f else s.definition? e := by
  obtain ⟨d⟩ := d
  obtain ⟨e⟩ := e
  simp only [modifyDefinition, definition?, Array.getElem?_modify, DefId.mk.injEq]
  split <;> split <;> simp_all

theorem member?_modifyMember (s : SymbolTable) (m k : MemberId) (f : Member → Member) :
    (s.modifyMember m f).member? k = if k = m then (s.member? k).map f else s.member? k := by
  obtain ⟨m⟩ := m
  obtain ⟨k⟩ := k
  simp only [modifyMember, member?, Array.getElem?_modify, MemberId.mk.injEq]
  split <;> split <;> simp_all

theorem map_definition?_modifyDefinition {α : Type} {g : Definition → α}
    {f : Definition → Definition} (h : ∀ c, g (f c) = g c) :
    ((s.modifyDefinition d f).definition? e).map g = (s.definition? e).map g := by
  rw [definition?_modifyDefinition]
  split
  · simp [Function.comp_def, h]
  · rfl

theorem map_member?_modifyMember {α : Type} {g : Member → α} {f : Member → Member}
    (h : ∀ x, g (f x) = g x) :
    ((s.modifyMember m f).member? k).map g = (s.member? k).map g := by
  rw [member?_modifyMember]
  split
  · simp [Function.comp_def, h]
  · rfl

theorem isSome_definition?_iff : (s.definition? d).isSome ↔ d.index < s.definitions.size := by
  simp [definition?]

theorem isSome_member?_iff : (s.member? m).isSome ↔ m.index < s.members.size := by
  simp [member?]

theorem definition?_nextDefinition : s.definition? s.nextDefinition = none := by
  simp [definition?, nextDefinition]

theorem member?_nextMember : s.member? s.nextMember = none := by
  simp [member?, nextMember]

theorem definition?_addDefinition_eq (s : SymbolTable) (name : String) (isInterface : Bool)
    (typeParams : List String) (d : DefId) :
    (s.addDefinition name isInterface typeParams).2.definition? d =
      if d = s.nextDefinition then some { name, isInterface, typeParams } else s.definition? d := by
  obtain ⟨i⟩ := d
  simp [addDefinition, definition?, nextDefinition, Array.getElem?_push]

/-- **A change names the definition that it changes.** -/
theorem definition?_apply_of_ne (h : change.definition? s ≠ some d) :
    (s.apply change).definition? d = s.definition? d := by
  cases change with
  | addDefinition name isInterface typeParams =>
    rw [apply, definition?_addDefinition_eq, if_neg]
    rintro rfl
    exact h rfl
  | setBase e | addInterface e | setUnresolvedBase e | addMember e =>
    have hne : d ≠ e := by
      rintro rfl
      exact h rfl
    exact (definition?_modifyDefinition ..).trans (if_neg hne)
  | setVisibility | setStatic | setOverride | setTypeParams => rfl

/-- **A change names the member that it changes.** -/
theorem member?_apply_of_ne (h : change.member? s ≠ some m) :
    (s.apply change).member? m = s.member? m := by
  cases change with
  | addMember owner name shape =>
    have hne : m.index ≠ s.members.size := by
      intro he
      exact h (congrArg (fun i => some (MemberId.mk i)) he.symm)
    simp [apply, addMember, member?, modifyDefinition, Array.getElem?_push, hne]
  | setVisibility k | setStatic k | setOverride k | setTypeParams k =>
    have hne : m ≠ k := by
      rintro rfl
      exact h rfl
    exact member?_modifyMember_of_ne hne _
  | addDefinition | setBase | addInterface | setUnresolvedBase => rfl

/-- A change gives no definition another name. -/
theorem name_apply (s : SymbolTable) (change : Change) (d : DefId) :
    ((s.apply change).definition? d).map (·.name) =
      if d = s.nextDefinition then change.definitionName? else (s.definition? d).map (·.name) := by
  have same : (if d = s.nextDefinition then none else (s.definition? d).map (·.name)) =
      (s.definition? d).map (·.name) := by
    split
    · next h => rw [h, definition?_nextDefinition]; rfl
    · rfl
  cases change with
  | addDefinition name isInterface typeParams =>
    rw [apply, definition?_addDefinition_eq]
    split <;> rfl
  | setBase | addInterface | setUnresolvedBase | addMember =>
    refine Eq.trans ?_ same.symm
    exact map_definition?_modifyDefinition fun _ => rfl
  | setVisibility | setStatic | setOverride | setTypeParams => exact same.symm

/-- A change gives no member another owner or name. -/
theorem declared_apply (s : SymbolTable) (change : Change) (m : MemberId) :
    ((s.apply change).member? m).map (fun x => (x.owner, x.name)) =
      if m = s.nextMember then change.declared?
      else (s.member? m).map (fun x => (x.owner, x.name)) := by
  have same : (if m = s.nextMember then none
      else (s.member? m).map (fun x => (x.owner, x.name))) =
      (s.member? m).map (fun x => (x.owner, x.name)) := by
    split
    · next h => rw [h, member?_nextMember]; rfl
    · rfl
  cases change with
  | addMember owner name shape =>
    by_cases hm : m = s.nextMember
    · subst hm
      simp [apply, addMember, member?, modifyDefinition, nextMember, Change.declared?]
    · rw [if_neg hm, member?_apply_of_ne]
      rintro ⟨⟩
      exact hm rfl
  | setTypeParams k count =>
    refine Eq.trans ?_ same.symm
    refine map_member?_modifyMember fun x => ?_
    unfold Member.withTypeParams
    split <;> rfl
  | setVisibility | setStatic | setOverride =>
    refine Eq.trans ?_ same.symm
    exact map_member?_modifyMember fun _ => rfl
  | addDefinition | setBase | addInterface | setUnresolvedBase => exact same.symm

/-- A change that adds nothing adds nothing to what is listed. -/
theorem exists_of_apply {c' : Definition} (h : (s.apply change).definition? d = some c')
    (hd : change.definitionName? = none) (hm : change.declared? = none) :
    ∃ c, s.definition? d = some c ∧ c'.members = c.members := by
  have hmap : ((s.apply change).definition? d).map (·.members) =
      (s.definition? d).map (·.members) := by
    cases change with
    | addDefinition | addMember => contradiction
    | setBase | addInterface | setUnresolvedBase =>
      exact map_definition?_modifyDefinition fun _ => rfl
    | setVisibility | setStatic | setOverride | setTypeParams => rfl
  rw [h, Option.map_some, eq_comm, Option.map_eq_some_iff] at hmap
  obtain ⟨c, hc, hmembers⟩ := hmap
  exact ⟨c, hc, hmembers.symm⟩

/-- **What a definition lists after a change.** A new definition lists nothing. Another one lists
what it did, and the new member, if a member was added to it. -/
theorem members_apply {c' : Definition} (h : (s.apply change).definition? d = some c') :
    d = s.nextDefinition ∧ c'.members = [] ∨
      ∃ c, s.definition? d = some c ∧
        ((∀ name shape, change ≠ .addMember d name shape) ∧ c'.members = c.members ∨
          (∃ name shape, change = .addMember d name shape) ∧
            c'.members = c.members ++ [s.nextMember]) := by
  cases change with
  | addDefinition name isInterface typeParams =>
    rw [apply, definition?_addDefinition_eq] at h
    split at h
    · next hd =>
      cases h
      exact .inl ⟨hd, rfl⟩
    · exact .inr ⟨c', h, .inl ⟨fun _ _ => by simp, rfl⟩⟩
  | addMember owner name shape =>
    by_cases hd : d = owner
    · subst hd
      rw [apply, addMember, definition?_modifyDefinition, if_pos rfl] at h
      obtain ⟨c, hc, rfl⟩ := Option.map_eq_some_iff.1 h
      exact .inr ⟨c, hc, .inr ⟨⟨name, shape, rfl⟩, rfl⟩⟩
    · rw [definition?_apply_of_ne (by simpa [Change.definition?] using Ne.symm hd)] at h
      refine .inr ⟨c', h, .inl ⟨?_, rfl⟩⟩
      rintro _ _ ⟨⟩
      exact hd rfl
  | setBase | addInterface | setUnresolvedBase | setVisibility | setStatic | setOverride
  | setTypeParams =>
    obtain ⟨c, hc, hmembers⟩ := exists_of_apply h rfl rfl
    exact .inr ⟨c, hc, .inl ⟨fun _ _ => by simp, hmembers⟩⟩

theorem isSome_definition?_apply (h : (s.definition? d).isSome) :
    ((s.apply change).definition? d).isSome := by
  have hd : d ≠ s.nextDefinition := by
    rintro rfl
    rw [definition?_nextDefinition] at h
    cases h
  have hname := name_apply s change d
  rw [if_neg hd] at hname
  rw [← Option.isSome_map, hname, Option.isSome_map]
  exact h

/-! ### Finding by name -/

/-- The last number below a bound that fits is found from the top. -/
theorem find?_reverse_range {p : Nat → Bool} {n i : Nat} :
    (List.range n).reverse.find? p = some i ↔
      i < n ∧ p i = true ∧ ∀ j, i < j → j < n → p j = false := by
  induction n with
  | zero => simp
  | succ n ih =>
    rw [List.range_succ, List.reverse_append, List.reverse_singleton, List.singleton_append,
      List.find?_cons]
    cases hp : p n with
    | true =>
      constructor
      · rintro ⟨⟩
        exact ⟨Nat.lt_succ_self i, hp, fun j _ _ => by omega⟩
      · rintro ⟨hi, -, hlast⟩
        by_contra hne
        have hlt : i < n := by
          refine Nat.lt_of_le_of_ne (Nat.le_of_lt_succ hi) fun e => hne ?_
          rw [e]
        rw [hlast n hlt (Nat.lt_succ_self n)] at hp
        cases hp
    | false =>
      rw [ih]
      constructor
      · rintro ⟨hi, hpi, hlast⟩
        refine ⟨Nat.lt_succ_of_lt hi, hpi, fun j hij hj => ?_⟩
        rcases Nat.lt_succ_iff_lt_or_eq.1 hj with hj | rfl
        · exact hlast j hij hj
        · exact hp
      · rintro ⟨hi, hpi, hlast⟩
        refine ⟨?_, hpi, fun j hij hj => hlast j hij (Nat.lt_succ_of_lt hj)⟩
        rcases Nat.lt_succ_iff_lt_or_eq.1 hi with hi | rfl
        · exact hi
        · rw [hpi] at hp
          cases hp

/-- The definition found under a name is the last one that has it. -/
theorem findDefinition?_eq_some_iff :
    s.findDefinition? name = some d ↔ (s.definition? d).map (·.name) = some name ∧
      ∀ e, d.index < e.index → (s.definition? e).map (·.name) ≠ some name := by
  have named : ∀ e, (s.definition? e).any (·.name == name) = true ↔
      (s.definition? e).map (·.name) = some name := by
    intro e
    cases s.definition? e <;> simp
  obtain ⟨i⟩ := d
  rw [findDefinition?, List.find?_map, Option.map_eq_some_iff]
  simp only [DefId.mk.injEq, exists_eq_right, find?_reverse_range, Function.comp_apply,
    ← Bool.not_eq_true, named]
  constructor
  · rintro ⟨-, hi, hlast⟩
    refine ⟨hi, fun e he hname => hlast e.index he ?_ hname⟩
    rw [← isSome_definition?_iff, ← Option.isSome_map, hname]
    rfl
  · rintro ⟨hi, hlast⟩
    refine ⟨?_, hi, fun j hij _ => hlast ⟨j⟩ hij⟩
    rw [← isSome_definition?_iff (d := ⟨i⟩), ← Option.isSome_map, hi]
    rfl

/-- **A new definition is found under its name**, and every other name leads where it did. -/
theorem findDefinition?_apply (s : SymbolTable) (change : Change) (name : String) :
    (s.apply change).findDefinition? name =
      if change.definitionName? = some name then some s.nextDefinition
      else s.findDefinition? name := by
  have below : ∀ e, (s.definition? e).map (·.name) = some name →
      e.index < s.nextDefinition.index := by
    intro e he
    rw [nextDefinition, ← isSome_definition?_iff, ← Option.isSome_map, he]
    rfl
  ext d
  rw [findDefinition?_eq_some_iff]
  simp only [name_apply]
  by_cases hadds : change.definitionName? = some name
  · rw [if_pos hadds, hadds, Option.some.injEq]
    constructor
    · rintro ⟨hd, hlast⟩
      by_contra hne
      rw [if_neg (Ne.symm hne)] at hd
      exact hlast _ (below d hd) (if_pos rfl)
    · rintro rfl
      refine ⟨if_pos rfl, fun e he hname => ?_⟩
      have hne : e ≠ s.nextDefinition := by
        rintro rfl
        exact Nat.lt_irrefl _ he
      rw [if_neg hne] at hname
      exact Nat.lt_asymm he (below e hname)
  · have same : ∀ e, (if e = s.nextDefinition then change.definitionName?
        else (s.definition? e).map (·.name)) = some name ↔
          (s.definition? e).map (·.name) = some name := by
      intro e
      split
      · next he => simp [hadds, he, definition?_nextDefinition]
      · rfl
    simp only [if_neg hadds, same, ne_eq, findDefinition?_eq_some_iff]

end Step

/-! ## Some changes -/

section Run

variable {changes : List Change} {change : Change} {before : SymbolTable} {d : DefId} {m : MemberId}
  {name : String}

theorem built_append (changes rest : List Change) :
    built (changes ++ rest) = rest.foldl apply (built changes) :=
  List.foldl_append

theorem built_concat (changes : List Change) (change : Change) :
    built (changes ++ [change]) = (built changes).apply change :=
  built_append changes [change]

theorem isSome_definition?_built_append (rest : List Change)
    (h : ((built changes).definition? d).isSome) :
    ((built (changes ++ rest)).definition? d).isSome := by
  induction rest using List.reverseRecOn with
  | nil => rwa [List.append_nil]
  | append_singleton rest change ih =>
    rw [← List.append_assoc, built_concat]
    exact isSome_definition?_apply ih

/-- One of some changes is the last of them, or one of those before it. -/
theorem concat_eq_iff {α : Type} {l earlier later : List α} {a x : α} :
    l ++ [a] = earlier ++ x :: later ↔ (l = earlier ∧ a = x ∧ later = []) ∨
      ∃ rest, later = rest ++ [a] ∧ l = earlier ++ x :: rest := by
  rcases List.eq_nil_or_concat later with rfl | ⟨rest, b, rfl⟩
  · simp
  · have hne : ¬ (l = earlier ∧ a = x ∧ rest.concat b = []) := by simp
    rw [List.concat_eq_append, ← List.cons_append, ← List.append_assoc] at *
    constructor
    · intro h
      obtain ⟨rfl, hb⟩ := List.append_inj' h rfl
      cases hb
      exact .inr ⟨rest, rfl, rfl⟩
    · rintro (h | ⟨rest', h, rfl⟩)
      · exact absurd h hne
      · obtain ⟨rfl, hb⟩ := List.append_inj' h rfl
        cases hb
        rfl

theorem defined_concat_iff : Defined (changes ++ [change]) d name ↔
    Defined changes d name ∨
      change.definitionName? = some name ∧ d = (built changes).nextDefinition := by
  constructor
  · rintro ⟨earlier, isInterface, typeParams, later, h, rfl⟩
    rcases concat_eq_iff.1 h with ⟨rfl, rfl, -⟩ | ⟨rest, -, rfl⟩
    · exact .inr ⟨rfl, rfl⟩
    · exact .inl ⟨earlier, isInterface, typeParams, rest, rfl, rfl⟩
  · rintro (⟨earlier, isInterface, typeParams, later, rfl, rfl⟩ | ⟨hadds, rfl⟩)
    · exact ⟨earlier, isInterface, typeParams, later ++ [change], by simp, rfl⟩
    · obtain ⟨isInterface, typeParams, rfl⟩ := Change.definitionName?_eq_some_iff.1 hadds
      exact ⟨changes, isInterface, typeParams, [], rfl, rfl⟩

theorem added_concat_iff {owner : DefId} : Added (changes ++ [change]) before m owner name ↔
    Added changes before m owner name ∨
      change.declared? = some (owner, name) ∧ before = built changes ∧ m = before.nextMember := by
  rw [Change.declared?_eq_some_iff]
  constructor
  · rintro ⟨earlier, shape, later, h, rfl, rfl⟩
    rcases concat_eq_iff.1 h with ⟨rfl, rfl, -⟩ | ⟨rest, -, rfl⟩
    · exact .inr ⟨⟨shape, rfl⟩, rfl, rfl⟩
    · exact .inl ⟨earlier, shape, rest, rfl, rfl, rfl⟩
  · rintro (⟨earlier, shape, later, rfl, rfl, rfl⟩ | ⟨⟨shape, rfl⟩, rfl, rfl⟩)
    · exact ⟨earlier, shape, later ++ [change], by simp, rfl, rfl⟩
    · exact ⟨changes, shape, [], rfl, rfl, rfl⟩

theorem lastAdded_concat_iff : LastAdded (changes ++ [change]) name d ↔
    if change.definitionName? = some name then d = (built changes).nextDefinition
    else LastAdded changes name d := by
  by_cases hadds : change.definitionName? = some name
  · rw [if_pos hadds]
    constructor
    · rintro ⟨earlier, isInterface, typeParams, later, h, rfl, hlast⟩
      rcases concat_eq_iff.1 h with ⟨rfl, -, -⟩ | ⟨rest, rfl, -⟩
      · rfl
      · exact absurd hadds (hlast change (by simp))
    · rintro rfl
      obtain ⟨isInterface, typeParams, rfl⟩ := Change.definitionName?_eq_some_iff.1 hadds
      exact ⟨changes, isInterface, typeParams, [], rfl, rfl, nofun⟩
  · rw [if_neg hadds]
    constructor
    · rintro ⟨earlier, isInterface, typeParams, later, h, rfl, hlast⟩
      rcases concat_eq_iff.1 h with ⟨-, rfl, -⟩ | ⟨rest, rfl, rfl⟩
      · exact absurd rfl hadds
      · exact ⟨earlier, isInterface, typeParams, rest, rfl, rfl, fun c hc => hlast c (by simp [hc])⟩
    · rintro ⟨earlier, isInterface, typeParams, later, rfl, rfl, hlast⟩
      refine ⟨earlier, isInterface, typeParams, later ++ [change], by simp, rfl, fun c hc => ?_⟩
      rcases List.mem_append.1 hc with hc | hc
      · exact hlast c hc
      · rwa [List.mem_singleton.1 hc]

/-- **The definition found under a name is the last one that was added under it.** -/
theorem findDefinition?_built_iff :
    (built changes).findDefinition? name = some d ↔ LastAdded changes name d := by
  induction changes using List.reverseRecOn with
  | nil =>
    constructor
    · nofun
    · rintro ⟨earlier, isInterface, typeParams, later, h, -⟩
      simp at h
  | append_singleton changes change ih =>
    rw [built_concat, findDefinition?_apply, lastAdded_concat_iff]
    split
    · rw [Option.some.injEq, eq_comm]
    · exact ih

/-- **The definitions of a table are those that were added**, each under its name. -/
theorem name_built_iff :
    ((built changes).definition? d).map (·.name) = some name ↔ Defined changes d name := by
  induction changes using List.reverseRecOn with
  | nil =>
    constructor
    · nofun
    · rintro ⟨earlier, isInterface, typeParams, later, h, -⟩
      simp at h
  | append_singleton changes change ih =>
    rw [built_concat, name_apply, defined_concat_iff, ← ih]
    split
    · next hd => simp [hd, definition?_nextDefinition]
    · next hd => simp [hd]

/-- **The members of a table are those that were added**, each with its owner and name. -/
theorem member?_built_iff {owner : DefId} :
    ((built changes).member? m).map (fun x => (x.owner, x.name)) = some (owner, name) ↔
      ∃ before, Added changes before m owner name := by
  induction changes using List.reverseRecOn with
  | nil =>
    constructor
    · nofun
    · rintro ⟨before, earlier, shape, later, h, -⟩
      simp at h
  | append_singleton changes change ih =>
    rw [built_concat, declared_apply]
    simp only [added_concat_iff, exists_or, ← ih]
    split
    · next hm => simp [hm, member?_nextMember]
    · next hm => simp [hm]

/-- What was added is in the table from then on. -/
theorem Added.index_lt {owner : DefId} (h : Added changes before m owner name) :
    m.index < (built changes).nextMember.index := by
  have hmap := member?_built_iff.2 ⟨before, h⟩
  rw [nextMember, ← isSome_member?_iff, ← Option.isSome_map, hmap]
  rfl

/-- What was there when a member was added is there from then on. -/
theorem Added.isSome_definition? {owner : DefId} (h : Added changes before m owner name)
    (hd : (before.definition? d).isSome) : ((built changes).definition? d).isSome := by
  obtain ⟨earlier, shape, later, rfl, rfl, -⟩ := h
  exact isSome_definition?_built_append _ hd

/-- **The members that a definition lists** are those that were added to it when it was there. -/
theorem mem_members_built_iff {c : Definition} (h : (built changes).definition? d = some c) :
    m ∈ c.members ↔
      ∃ before name, Added changes before m d name ∧ (before.definition? d).isSome := by
  induction changes using List.reverseRecOn generalizing c with
  | nil => cases h
  | append_singleton changes change ih =>
    rw [built_concat] at h
    simp only [added_concat_iff]
    rcases members_apply h with ⟨rfl, hc⟩ | ⟨c₀, hc₀, ⟨hother, hc⟩ | ⟨⟨name, shape, rfl⟩, hc⟩⟩
    · rw [hc]
      refine iff_of_false List.not_mem_nil ?_
      rintro ⟨before, name, hadded | ⟨-, rfl, -⟩, hthere⟩
      · have := hadded.isSome_definition? hthere
        rw [definition?_nextDefinition] at this
        cases this
      · rw [definition?_nextDefinition] at hthere
        cases hthere
    · have hnone : ∀ name, change.declared? ≠ some (d, name) := by
        intro name h
        obtain ⟨shape, rfl⟩ := Change.declared?_eq_some_iff.1 h
        exact hother name shape rfl
      simp only [hc, ih hc₀, hnone, false_and, or_false]
    · have hthere : ((built changes).definition? d).isSome := by rw [hc₀]; rfl
      rw [hc, List.mem_append, List.mem_singleton, ih hc₀]
      constructor
      · rintro (⟨before, name, hadded, hd⟩ | rfl)
        · exact ⟨before, name, .inl hadded, hd⟩
        · exact ⟨built changes, name, .inr ⟨rfl, rfl, rfl⟩, hthere⟩
      · rintro ⟨before, name, hadded | ⟨-, rfl, rfl⟩, hd⟩
        · exact .inl ⟨before, name, hadded, hd⟩
        · exact .inr rfl

/-- **A definition lists its members in the order of their numbers**, each once. -/
theorem pairwise_members_built {c : Definition} (h : (built changes).definition? d = some c) :
    c.members.Pairwise fun m k => m.index < k.index := by
  induction changes using List.reverseRecOn generalizing c with
  | nil => cases h
  | append_singleton changes change ih =>
    rw [built_concat] at h
    rcases members_apply h with ⟨-, hc⟩ | ⟨c₀, hc₀, ⟨-, hc⟩ | ⟨-, hc⟩⟩
    · rw [hc]
      exact .nil
    · rw [hc]
      exact ih hc₀
    · rw [hc, List.pairwise_append]
      refine ⟨ih hc₀, List.pairwise_singleton _ _, fun m hm k hk => ?_⟩
      obtain ⟨before, name, hadded, -⟩ := (mem_members_built_iff hc₀).1 hm
      rw [List.mem_singleton.1 hk]
      exact hadded.index_lt

end Run

/-! ## What a table holds -/

section Consistent

variable {s : SymbolTable} {d : DefId} {m : MemberId} {name : String}

theorem mem_membersNamed_iff : m ∈ s.membersNamed d name ↔ ∃ c, s.definition? d = some c ∧
    m ∈ c.members ∧ (s.member? m).map (·.name) = some name := by
  have named : (s.member? m).any (·.name == name) = true ↔
      (s.member? m).map (·.name) = some name := by
    cases s.member? m <;> simp
  rw [membersNamed]
  cases s.definition? d with
  | none => simp
  | some c => simp only [List.mem_filter, named, Option.some.injEq, exists_eq_left']

theorem pairwise_membersNamed {r : MemberId → MemberId → Prop}
    (h : ∀ c, s.definition? d = some c → c.members.Pairwise r) :
    (s.membersNamed d name).Pairwise r := by
  rw [membersNamed]
  cases hc : s.definition? d with
  | none => exact .nil
  | some c => exact (h c hc).filter _

end Consistent

/-- What a table holds after some changes. -/
structure Consistent (changes : List Change) (s : SymbolTable) : Prop where
  /-- The definitions are those that were added, and have the names that they were added under. -/
  defined : ∀ d name, (∃ c, s.definition? d = some c ∧ c.name = name) ↔ Defined changes d name
  /-- The members are those that were added, and have the owners and names that they were added
  with. -/
  added : ∀ m owner name,
    (∃ x, s.member? m = some x ∧ x.owner = owner ∧ x.name = name) ↔
      ∃ before, Added changes before m owner name
  /-- A definition lists the members that it owns and whose adding it has seen. -/
  listed : ∀ d c, s.definition? d = some c → ∀ m, m ∈ c.members ↔
    ∃ x, s.member? m = some x ∧ x.owner = d ∧
      ∃ before, Added changes before m d x.name ∧ (before.definition? d).isSome
  /-- It lists them in the order of their numbers, each once. -/
  ordered : ∀ d c, s.definition? d = some c → c.members.Pairwise fun m k => m.index < k.index
  /-- Under a name it has those of its members that have the name. -/
  named : ∀ d name m, m ∈ s.membersNamed d name ↔ ∃ c x, s.definition? d = some c ∧
    m ∈ c.members ∧ s.member? m = some x ∧ x.name = name
  /-- They come in the order in which they were added. -/
  namedOrdered : ∀ d name, (s.membersNamed d name).Pairwise fun m k => m.index < k.index
  /-- A name leads to the definition that was last added under it. -/
  found : ∀ name d, s.findDefinition? name = some d ↔ LastAdded changes name d

/-- **A table stays consistent, whatever changes are made**, and each change leaves every definition
and every member that it does not name. -/
theorem built_consistent (changes : List Change) :
    Consistent changes (built changes) ∧ ∀ change,
      (∀ d, change.definition? (built changes) ≠ some d →
        (built (changes ++ [change])).definition? d = (built changes).definition? d) ∧
      ∀ m, change.member? (built changes) ≠ some m →
        (built (changes ++ [change])).member? m = (built changes).member? m := by
  have declared : ∀ m owner name,
      (∃ x, (built changes).member? m = some x ∧ x.owner = owner ∧ x.name = name) ↔
        ∃ before, Added changes before m owner name := by
    intro m owner name
    rw [← member?_built_iff, Option.map_eq_some_iff]
    simp only [Prod.mk.injEq]
  refine ⟨⟨fun d name => ?_, declared, fun d c hc m => ?_, fun d c hc => pairwise_members_built hc,
    fun d name m => ?_, fun d name => pairwise_membersNamed fun c hc => pairwise_members_built hc,
    fun name d => findDefinition?_built_iff⟩, fun change => ?_⟩
  · rw [← name_built_iff, Option.map_eq_some_iff]
  · rw [mem_members_built_iff hc]
    constructor
    · rintro ⟨before, name, hadded, hthere⟩
      obtain ⟨x, hx, howner, rfl⟩ := (declared m d name).2 ⟨before, hadded⟩
      exact ⟨x, hx, howner, before, hadded, hthere⟩
    · rintro ⟨x, -, -, before, hadded, hthere⟩
      exact ⟨before, x.name, hadded, hthere⟩
  · rw [mem_membersNamed_iff]
    simp only [Option.map_eq_some_iff, exists_and_left]
  · rw [built_concat]
    exact ⟨fun d => definition?_apply_of_ne, fun m => member?_apply_of_ne⟩

/-- A member that came before its owner is not listed. -/
example : ((built [.addMember ⟨0⟩ "M" (.field default false),
    .addDefinition "D" false []]).definition? ⟨0⟩).map (·.members) = some [] := by
  decide

end SymbolTable

end UpdateExpr
