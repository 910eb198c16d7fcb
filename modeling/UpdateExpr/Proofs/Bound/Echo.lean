import UpdateExpr.Bound.Expr
import UpdateExpr.Proofs.Related

/-!
# Expressions that differ in their marks

The same source can be bound twice, from two arenas and under two options. One expression echoes
another when it is built in the same way, with the same types, members and values, from matching
nodes, and when none of its parts is marked as faulty without the part that it echoes. Where both
come from one arena, the two are equal but for their marks.

## Main definitions

* `NodeShape.Matched`, `Arena.Matches`: nodes that say the same
* `Echo`: an expression that differs from another in its nodes and in the marks it lacks
* `BoundExpr.unmarked`, `BoundExpr.marks`: an expression without its marks, and these marks

## Main results

* `Echo.unmarked_eq`, `Echo.marks_le`: what an echo from the same nodes is
-/

namespace UpdateExpr

/-! ## Nodes that say the same -/

/-- Two nodes are of one kind with the same data, and refer to matching parts. -/
inductive NodeShape.Matched (m : NodeRef → NodeRef → Prop) : NodeShape → NodeShape → Prop
  | token {kind} : Matched m (.token kind) (.token kind)
  | identifier {name} : Matched m (.identifier name) (.identifier name)
  | literal {value text text' flags flags'} :
    Matched m (.literal value text flags) (.literal value text' flags')
  | access {target target' member member'} (ht : m target target') (hm : m member member') :
    Matched m (.access target member) (.access target' member')
  | call {target target'} (ht : m target target') : Matched m (.call target) (.call target')
  | paren {inner inner'} (hi : m inner inner') : Matched m (.paren inner) (.paren inner')
  | update {receiver receiver' entries entries' list list'} (hr : m receiver receiver')
    (he : List.Forall₂ m entries entries') :
    Matched m (.update receiver entries list) (.update receiver' entries' list')
  | initializer {name name' value value'} (hn : m name name') (hv : m value value') :
    Matched m (.initializer name value) (.initializer name' value')

theorem NodeShape.matched_self (shape : NodeShape) : shape.Matched Eq shape := by
  cases shape with
  | token _ => exact .token
  | identifier _ => exact .identifier
  | literal _ _ _ => exact .literal
  | access _ _ => exact .access rfl rfl
  | call _ => exact .call rfl
  | paren _ => exact .paren rfl
  | update _ entries _ => exact .update rfl (forall₂_eq_self entries)
  | initializer _ _ => exact .initializer rfl rfl

/-- Two nodes that say the same, wherever they stand. -/
structure Node.Matched (m : NodeRef → NodeRef → Prop) (n n' : Node) : Prop where
  shape : n.shape.Matched m n'.shape
  missing : n.missing = n'.missing

namespace Arena

/-- Matching references of two arenas lead to nodes that say the same, or both to none. -/
def Matches (a a' : Arena) (m : NodeRef → NodeRef → Prop) : Prop :=
  ∀ r r', m r r' → Option.Rel (Node.Matched m) (a.get? r) (a'.get? r')

variable {a a' : Arena} {m : NodeRef → NodeRef → Prop} {r r' : NodeRef}

/-- An arena matches itself. -/
theorem matches_self (a : Arena) : a.Matches a Eq := by
  rintro r _ rfl
  cases a.get? r with
  | none => exact .none
  | some n => exact .some ⟨n.shape.matched_self, rfl⟩

theorem Matches.shape? (h : a.Matches a' m) (hr : m r r') :
    Option.Rel (NodeShape.Matched m) (a.shape? r) (a'.shape? r') := by
  have hn := h r r' hr
  unfold Arena.shape?
  generalize a.get? r = n?, a'.get? r' = n?' at hn
  cases hn with
  | none => exact .none
  | some hn => exact .some hn.shape

theorem Matches.name_eq (h : a.Matches a' m) (hr : m r r') : a.name r = a'.name r' := by
  have hs := h.shape? hr
  unfold Arena.name
  generalize a.shape? r = s?, a'.shape? r' = s?' at hs
  cases hs with
  | none => rfl
  | some hs => cases hs <;> rfl

end Arena

/-! ## Echoes -/

/-- The same type and a matching node, and a mark on the second only if the first has one. -/
structure EchoInfo (m : NodeRef → NodeRef → Prop) (i i' : BoundInfo) : Prop where
  node : m i.node i'.node
  ty? : i.ty? = i'.ty?
  hasErrors : i'.hasErrors = true → i.hasErrors = true

/-- The second of two expressions is built as the first one is, from matching nodes, and lacks some
of its marks at most. -/
inductive Echo (m : NodeRef → NodeRef → Prop) : BoundExpr → BoundExpr → Prop
  | literal {i i' : BoundInfo} {value : Constant} (hi : EchoInfo m i i') :
    Echo m (.literal i value) (.literal i' value)
  | localVar {i i' : BoundInfo} {id : LocalId} (hi : EchoInfo m i i') :
    Echo m (.localVar i id) (.localVar i' id)
  | field {i i' : BoundInfo} {r r' : BoundExpr} {member : MemberId} (hi : EchoInfo m i i')
    (hr : Echo m r r') : Echo m (.field i r member) (.field i' r' member)
  | property {i i' : BoundInfo} {r r' : BoundExpr} {member : MemberId} (hi : EchoInfo m i i')
    (hr : Echo m r r') : Echo m (.property i r member) (.property i' r' member)
  | methodGroup {i i' : BoundInfo} {r r' : BoundExpr} {methods : List Candidate}
    (hi : EchoInfo m i i') (hr : Echo m r r') :
    Echo m (.methodGroup i r methods) (.methodGroup i' r' methods)
  | call {i i' : BoundInfo} {r r' : BoundExpr} {member : MemberId} (hi : EchoInfo m i i')
    (hr : Echo m r r') : Echo m (.call i r member) (.call i' r' member)
  | conversion {i i' : BoundInfo} {o o' : BoundExpr} {kind : Conversion} (hi : EchoInfo m i i')
    (ho : Echo m o o') : Echo m (.conversion i o kind) (.conversion i' o' kind)
  | placeholder {i i' : BoundInfo} (hi : EchoInfo m i i') :
    Echo m (.placeholder i) (.placeholder i')
  | assignment {i i' : BoundInfo} {l l' r r' : BoundExpr} (hi : EchoInfo m i i')
    (hl : Echo m l l') (hr : Echo m r r') : Echo m (.assignment i l r) (.assignment i' l' r')
  | update {i i' : BoundInfo} {r r' : BoundExpr} {clone? : Option MemberId}
    {entries entries' : List (Option MemberId × BoundExpr)} {failed failed' : Bool}
    (hi : EchoInfo m i i') (hr : Echo m r r') (hl : entries.length = entries'.length)
    (hm : ∀ p ∈ entries.zip entries', p.1.1 = p.2.1)
    (he : ∀ p ∈ entries.zip entries', Echo m p.1.2 p.2.2) (hf : failed' = true → failed = true) :
    Echo m (.update i r clone? entries failed) (.update i' r' clone? entries' failed')
  | bad {i i' : BoundInfo} {candidates : List MemberId} {es es' : List BoundExpr}
    (hi : EchoInfo m i i') (hl : es.length = es'.length)
    (he : ∀ p ∈ es.zip es', Echo m p.1 p.2) : Echo m (.bad i candidates es) (.bad i' candidates es')

section Echo

variable {m : NodeRef → NodeRef → Prop} {i i' : BoundInfo} {e e' : BoundExpr} {r r' : NodeRef}

theorem Echo.info (h : Echo m e e') : EchoInfo m e.info e'.info := by
  cases h <;> assumption

theorem Echo.node (h : Echo m e e') : m e.node e'.node :=
  h.info.node

theorem Echo.ty?_eq (h : Echo m e e') : e.ty? = e'.ty? :=
  h.info.ty?

theorem Echo.hasErrors (h : Echo m e e') : e'.hasErrors = true → e.hasErrors = true :=
  h.info.hasErrors

theorem Echo.setInfo (h : Echo m e e') (hi : EchoInfo m i i') :
    Echo m (e.setInfo i) (e'.setInfo i') := by
  cases h with
  | literal => exact .literal hi
  | localVar => exact .localVar hi
  | field _ hr => exact .field hi hr
  | property _ hr => exact .property hi hr
  | methodGroup _ hr => exact .methodGroup hi hr
  | call _ hr => exact .call hi hr
  | conversion _ ho => exact .conversion hi ho
  | placeholder => exact .placeholder hi
  | assignment _ hl hr => exact .assignment hi hl hr
  | update _ hr hl hm he hf => exact .update hi hr hl hm he hf
  | bad _ hl he => exact .bad hi hl he

theorem Echo.setNode (h : Echo m e e') (hr : m r r') : Echo m (e.setNode r) (e'.setNode r') :=
  h.setInfo ⟨hr, h.info.ty?, h.info.hasErrors⟩

theorem Echo.addErrors (h : Echo m e e') (faulty : Bool) :
    Echo m (e.addErrors faulty) (e'.addErrors faulty) := by
  refine h.setInfo ⟨h.info.node, h.info.ty?, fun hf => ?_⟩
  rw [Bool.or_eq_true] at hf ⊢
  exact hf.imp_left h.hasErrors

theorem Echo.isNull_eq (h : Echo m e e') : e.isNull = e'.isNull := by
  cases h with
  | @literal _ _ value _ => cases value <;> rfl
  | _ => rfl

theorem Echo.symbol?_eq (h : Echo m e e') : e.symbol? = e'.symbol? := by
  cases h <;> rfl

/-- What could not be bound, with parts that echo. -/
theorem echo_failure (hr : m r r') (candidates : List MemberId) {es es' : List BoundExpr}
    (h : List.Forall₂ (Echo m) es es') :
    Echo m (.failure r candidates es) (.failure r' candidates es') :=
  .bad ⟨hr, rfl, id⟩ h.length_eq fun _ hp => (List.forall₂_iff_zip.1 h).2 hp

/-- What could not be bound at all. -/
theorem echo_leaf (hr : m r r') : Echo m (.failure r) (.failure r') :=
  echo_failure hr [] .nil

end Echo

/-! ## Marks -/

/-- The information without the mark. -/
def BoundInfo.unmarked (i : BoundInfo) : BoundInfo :=
  { i with hasErrors := false }

namespace BoundExpr

mutual

/-- An expression without any marks. -/
def unmarked : BoundExpr → BoundExpr
  | literal i value => literal i.unmarked value
  | localVar i id => localVar i.unmarked id
  | field i r m => field i.unmarked (unmarked r) m
  | property i r m => property i.unmarked (unmarked r) m
  | methodGroup i r methods => methodGroup i.unmarked (unmarked r) methods
  | call i r m => call i.unmarked (unmarked r) m
  | conversion i o kind => conversion i.unmarked (unmarked o) kind
  | placeholder i => placeholder i.unmarked
  | assignment i l r => assignment i.unmarked (unmarked l) (unmarked r)
  | update i r clone? entries _ =>
    update i.unmarked (unmarked r) clone? (unmarkedEntries entries) false
  | bad i candidates es => bad i.unmarked candidates (unmarkedAll es)

/-- Some expressions without any marks. -/
def unmarkedAll : List BoundExpr → List BoundExpr
  | [] => []
  | e :: es => unmarked e :: unmarkedAll es

/-- The entries of an update without any marks. -/
def unmarkedEntries : List (Option MemberId × BoundExpr) → List (Option MemberId × BoundExpr)
  | [] => []
  | (m, e) :: entries => (m, unmarked e) :: unmarkedEntries entries

end

mutual

/-- All marks of an expression, from the whole to the parts, in order; an update has two of its
own. -/
def marks : BoundExpr → List Bool
  | literal i _ | localVar i _ | placeholder i => [i.hasErrors]
  | field i r _ | property i r _ | methodGroup i r _ | call i r _ => i.hasErrors :: marks r
  | conversion i o _ => i.hasErrors :: marks o
  | assignment i l r => i.hasErrors :: (marks l ++ marks r)
  | update i r _ entries failed => i.hasErrors :: failed :: (marks r ++ marksOfEntries entries)
  | bad i _ es => i.hasErrors :: marksOfAll es

/-- All marks of some expressions. -/
def marksOfAll : List BoundExpr → List Bool
  | [] => []
  | e :: es => marks e ++ marksOfAll es

/-- All marks of the entries of an update. -/
def marksOfEntries : List (Option MemberId × BoundExpr) → List Bool
  | [] => []
  | (_, e) :: entries => marks e ++ marksOfEntries entries

end

theorem unmarkedAll_eq_map (es : List BoundExpr) : unmarkedAll es = es.map unmarked := by
  induction es with
  | nil => rfl
  | cons e es ih => rw [unmarkedAll, ih, List.map_cons]

theorem unmarkedEntries_eq_map (entries : List (Option MemberId × BoundExpr)) :
    unmarkedEntries entries = entries.map fun entry => (entry.1, unmarked entry.2) := by
  induction entries with
  | nil => rfl
  | cons entry entries ih => rw [unmarkedEntries, ih, List.map_cons]

theorem marksOfAll_eq_flatMap (es : List BoundExpr) : marksOfAll es = es.flatMap marks := by
  induction es with
  | nil => rfl
  | cons e es ih => rw [marksOfAll, ih, List.flatMap_cons]

theorem marksOfEntries_eq_flatMap (entries : List (Option MemberId × BoundExpr)) :
    marksOfEntries entries = entries.flatMap fun entry => marks entry.2 := by
  induction entries with
  | nil => rfl
  | cons entry entries ih => rw [marksOfEntries, ih, List.flatMap_cons]

end BoundExpr

open BoundExpr

section Marks

variable {e e' : BoundExpr} {i i' : BoundInfo}

theorem EchoInfo.unmarked_eq (h : EchoInfo Eq i i') : i.unmarked = i'.unmarked := by
  rw [BoundInfo.unmarked, BoundInfo.unmarked, h.node, h.ty?]

/-- **An echo from the same nodes is equal but for the marks.** -/
theorem Echo.unmarked_eq (h : Echo Eq e e') : e.unmarked = e'.unmarked := by
  induction h with
  | literal hi => rw [unmarked, unmarked, hi.unmarked_eq]
  | localVar hi => rw [unmarked, unmarked, hi.unmarked_eq]
  | field hi _ ih => rw [unmarked, unmarked, hi.unmarked_eq, ih]
  | property hi _ ih => rw [unmarked, unmarked, hi.unmarked_eq, ih]
  | methodGroup hi _ ih => rw [unmarked, unmarked, hi.unmarked_eq, ih]
  | call hi _ ih => rw [unmarked, unmarked, hi.unmarked_eq, ih]
  | conversion hi _ ih => rw [unmarked, unmarked, hi.unmarked_eq, ih]
  | placeholder hi => rw [unmarked, unmarked, hi.unmarked_eq]
  | assignment hi _ _ ihl ihr => rw [unmarked, unmarked, hi.unmarked_eq, ihl, ihr]
  | @update _ _ _ _ _ entries entries' _ _ hi _ hl hm _ _ ihr ihe =>
    have hentries : List.Forall₂ (fun p p' => p.1 = p'.1 ∧ p.2.unmarked = p'.2.unmarked)
        entries entries' :=
      List.forall₂_iff_zip.2 ⟨hl, fun hp => ⟨hm _ hp, ihe _ hp⟩⟩
    rw [unmarked, unmarked, hi.unmarked_eq, ihr, unmarkedEntries_eq_map, unmarkedEntries_eq_map,
      map_eq_of_rel hentries fun _ _ hp => Prod.mk.injEq _ _ _ _ ▸ hp]
  | @bad _ _ _ es es' hi hl _ ihe =>
    have hes : List.Forall₂ (fun e e' => e.unmarked = e'.unmarked) es es' :=
      List.forall₂_iff_zip.2 ⟨hl, fun hp => ihe _ hp⟩
    rw [unmarked, unmarked, hi.unmarked_eq, unmarkedAll_eq_map, unmarkedAll_eq_map,
      map_eq_of_rel hes fun _ _ he => he]

/-- **All marks of an echo are there on what it echoes**, place by place. -/
theorem Echo.marks_le {m : NodeRef → NodeRef → Prop} (h : Echo m e e') :
    List.Forall₂ (fun mark mark' => mark' = true → mark = true) e.marks e'.marks := by
  induction h with
  | literal hi | localVar hi | placeholder hi => exact .cons hi.hasErrors .nil
  | field hi _ ih | property hi _ ih | methodGroup hi _ ih | call hi _ ih | conversion hi _ ih =>
    exact .cons hi.hasErrors ih
  | assignment hi _ _ ihl ihr => exact .cons hi.hasErrors (List.rel_append ihl ihr)
  | @update _ _ _ _ _ entries entries' _ _ hi _ hl _ _ hf ihr ihe =>
    refine .cons hi.hasErrors (.cons hf (List.rel_append ihr ?_))
    rw [marksOfEntries_eq_flatMap, marksOfEntries_eq_flatMap]
    exact List.rel_flatMap (List.forall₂_iff_zip.2 ⟨hl, fun hp => ihe _ hp⟩) fun _ _ hp => hp
  | @bad _ _ _ es es' hi hl _ ihe =>
    refine .cons hi.hasErrors ?_
    rw [marksOfAll_eq_flatMap, marksOfAll_eq_flatMap]
    exact List.rel_flatMap (List.forall₂_iff_zip.2 ⟨hl, fun hp => ihe _ hp⟩) fun _ _ hp => hp

end Marks

end UpdateExpr
