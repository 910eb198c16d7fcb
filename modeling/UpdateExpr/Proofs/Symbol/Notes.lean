import UpdateExpr.Symbol.Conversion
import UpdateExpr.Symbol.Lookup

/-!
# What questions note

Questions about symbols leave one kind of note only: that the base of a class could not be loaded.
The walk from base to base says so, and everything else puts this walk to use.

## Main definitions

* `QueryM.NotesBases`: a question leaves no other notes than about bases

## Main results

* `SymbolTable.notesBases_lookup`, `SymbolTable.notesBases_classify`: the questions whose notes are
  reported
-/

namespace UpdateExpr

/-- A question leaves no other notes than about bases. -/
def QueryM.NotesBases {α : Type} (m : QueryM α) : Prop :=
  ∀ q : QueryState, (∀ note ∈ q.notes, note.code = Issue.baseTypeUnresolved.code) →
    ∀ note ∈ (m q).2.notes, note.code = Issue.baseTypeUnresolved.code

namespace QueryM.NotesBases

variable {α β γ : Type} {m : QueryM α} {f : α → QueryM β}

theorem pure {a : α} : NotesBases (pure a) :=
  fun _ h => h

theorem bind (hm : NotesBases m) (hf : ∀ a, NotesBases (f a)) : NotesBases (m >>= f) :=
  fun q h => hf _ _ (hm q h)

theorem types : NotesBases QueryM.types :=
  fun _ h => h

theorem lift {m : TypeM α} : NotesBases (liftM m : QueryM α) :=
  fun _ h => h

theorem baseUnresolved {base definition : String} :
    NotesBases (QueryM.note (.baseUnresolved base definition)) := by
  intro q h note hn
  rcases UseSite.mem_add.1 hn with hn | rfl
  · exact h note hn
  · rfl

/-- Questions one after another, of which some give nothing. -/
theorem filterMapM {g : γ → QueryM (Option β)} {xs : List γ} (h : ∀ x, NotesBases (g x)) :
    NotesBases (xs.filterMapM g) := by
  induction xs with
  | nil =>
    rw [List.filterMapM_nil]
    exact .pure
  | cons x xs ih =>
    rw [List.filterMapM_cons]
    refine (h x).bind fun b? => ?_
    cases b? with
    | none => exact ih
    | some b => exact ih.bind fun _ => .pure

theorem orM {x y : QueryM Bool} (hx : NotesBases x) (hy : NotesBases y) :
    NotesBases (x <||> y) := by
  refine hx.bind fun answer => ?_
  cases answer with
  | true => exact .pure
  | false => exact hy

theorem anyM {p : γ → QueryM Bool} {xs : List γ} (h : ∀ x, NotesBases (p x)) :
    NotesBases (xs.anyM p) := by
  induction xs with
  | nil => exact .pure
  | cons x xs ih =>
    rw [List.anyM_cons]
    refine (h x).bind fun answer => ?_
    cases answer with
    | true => exact .pure
    | false => exact ih

end QueryM.NotesBases

namespace SymbolTable

open QueryM

variable (s : SymbolTable)

/-! ## Bases and interfaces -/

theorem notesBases_baseType (ty : TypeId) : NotesBases (s.baseType ty) := by
  refine NotesBases.types.bind fun types => ?_
  split
  · exact .pure
  split
  · exact .pure
  split
  · exact .pure
  split
  · exact NotesBases.baseUnresolved.bind fun _ => .pure
  · exact NotesBases.lift.bind fun _ => .pure
  · exact .pure

theorem notesBases_climb (n : Nat) (chain : List TypeId) (last : TypeId) :
    NotesBases (s.climb n chain last) := by
  induction n generalizing chain last with
  | zero => exact .pure
  | succ n ih =>
    refine (s.notesBases_baseType last).bind fun base? => ?_
    split
    · exact .pure
    split
    · exact .pure
    · exact ih _ _

theorem notesBases_baseChain (ty : TypeId) : NotesBases (s.baseChain ty) :=
  s.notesBases_climb _ _ _

theorem notesBases_directInterfaces (ty : TypeId) : NotesBases (s.directInterfaces ty) := by
  refine NotesBases.types.bind fun types => ?_
  split
  · exact .pure
  split
  · exact .pure
  · exact .lift

theorem notesBases_spread (n : Nat) (found waiting : List TypeId) :
    NotesBases (s.spread n found waiting) := by
  induction n generalizing found waiting with
  | zero => exact .pure
  | succ n ih =>
    unfold spread
    split
    · exact .pure
    · exact (s.notesBases_directInterfaces _).bind fun _ => ih _ _

theorem notesBases_interfaceClosure (ty : TypeId) : NotesBases (s.interfaceClosure ty) :=
  s.notesBases_spread _ _ _

theorem notesBases_derivesFromDefinition (d target : DefId) :
    NotesBases (s.derivesFromDefinition d target) :=
  NotesBases.lift.bind fun start => (s.notesBases_baseChain start).bind fun _ =>
    NotesBases.types.bind fun _ => .pure

/-! ## Lookup -/

theorem notesBases_isAccessible (m : Member) (asking? : Option DefId) :
    NotesBases (s.isAccessible m asking?) := by
  unfold isAccessible
  split
  · exact .pure
  · exact .pure
  · exact s.notesBases_derivesFromDefinition _ _
  · exact .pure

theorem notesBases_judge (query : LookupQuery) (m : Member) : NotesBases (s.judge query m) := by
  unfold judge
  split
  · exact .pure
  split
  · exact .pure
  split
  · exact .pure
  · refine (s.notesBases_isAccessible m _).bind fun accessible => ?_
    cases accessible <;> exact .pure

theorem notesBases_sight (query : LookupQuery) (inClass : Bool) (above : List Signature)
    (σ : Substitution) (id : MemberId) : NotesBases (s.sight query inClass above σ id) := by
  unfold sight
  split
  · exact .pure
  · next m _ =>
    refine NotesBases.lift.bind fun params => ?_
    generalize (if m.isMethod then some ⟨m.arity, params⟩ else none : Option Signature) = signature?
    dsimp only
    split
    · exact .pure
    · exact (s.notesBases_judge query m).bind fun _ => NotesBases.lift.bind fun _ => .pure

theorem notesBases_sightLevel (query : LookupQuery) (inClass : Bool) (above : List Signature)
    (level : TypeId) : NotesBases (s.sightLevel query inClass above level) := by
  refine NotesBases.types.bind fun types => ?_
  split
  · exact .pure
  · exact .filterMapM fun id => s.notesBases_sight _ _ _ _ id

theorem notesBases_sightLevels (query : LookupQuery) (inClass : Bool) (above : List Signature)
    (levels : List TypeId) : NotesBases (s.sightLevels query inClass above levels) := by
  induction levels generalizing above with
  | nil => exact .pure
  | cons level below ih =>
    refine (s.notesBases_sightLevel _ _ _ level).bind fun seen => ?_
    split
    · exact .pure
    · exact (ih _).bind fun _ => .pure

theorem notesBases_levels (ty : TypeId) : NotesBases (s.levels ty) := by
  refine NotesBases.types.bind fun types => ?_
  split
  · exact s.notesBases_interfaceClosure ty
  · exact s.notesBases_baseChain ty

/-- **Lookup leaves no other notes than about bases.** -/
theorem notesBases_lookup (ty : TypeId) (query : LookupQuery) :
    NotesBases (s.lookup ty query) := by
  refine NotesBases.types.bind fun types => ?_
  dsimp only
  split
  · exact .pure
  · exact (s.notesBases_levels _).bind fun levels =>
      (s.notesBases_sightLevels _ _ _ levels).bind fun _ => .pure

/-! ## Conversions -/

theorem notesBases_derivesFrom (strictness : Strictness) (ty target : TypeId) :
    NotesBases (s.derivesFrom strictness ty target) :=
  NotesBases.types.bind fun _ => (s.notesBases_baseChain _).bind fun _ =>
    NotesBases.types.bind fun _ => .pure

theorem notesBases_implements (ty interface : TypeId) : NotesBases (s.implements ty interface) :=
  NotesBases.types.bind fun _ => (s.notesBases_baseChain _).bind fun _ => .anyM fun base =>
    (s.notesBases_interfaceClosure base).bind fun _ => NotesBases.types.bind fun _ => .pure

theorem notesBases_classifyReferences (source target : TypeId) :
    NotesBases (s.classifyReferences source target) := by
  refine NotesBases.types.bind fun types => ?_
  dsimp only
  split
  · exact .pure
  refine NotesBases.bind (.orM .pure (.orM (s.notesBases_derivesFrom _ _ _)
    (s.notesBases_implements _ _))) fun up => ?_
  split
  · exact .pure
  refine NotesBases.bind (.orM .pure (s.notesBases_derivesFrom _ _ _)) fun down => ?_
  split
  · exact .pure
  · exact NotesBases.types.bind fun _ => .pure

theorem notesBases_classifyWithin (n : Nat) (source target : TypeId) :
    NotesBases (s.classifyWithin n source target) := by
  induction n generalizing source target with
  | zero => exact .pure
  | succ n ih =>
    refine NotesBases.types.bind fun types => ?_
    split
    · exact .pure
    split
    · exact s.notesBases_classifyReferences _ _
    split
    · exact .pure
    split
    · exact (ih _ _).bind fun _ => .pure
    · exact (ih _ _).bind fun _ => .pure
    · exact .pure

/-- **Conversions leave no other notes than about bases.** -/
theorem notesBases_classify (source target : TypeId) : NotesBases (s.classify source target) :=
  NotesBases.types.bind fun _ => s.notesBases_classifyWithin _ _ _

end SymbolTable

end UpdateExpr
