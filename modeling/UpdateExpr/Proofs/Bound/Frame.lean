import UpdateExpr.Proofs.Bound.NodeRun
import UpdateExpr.Proofs.Symbol.Reversal
import UpdateExpr.Proofs.Symbol.Lookup

/-!
# What binding sees, and what it leaves behind

Of an arena, binding an expression sees the nodes that the expression leads to. Of the state, it
sees the types that are known and the file, but none of the diagnostics that were reported before.
What it leaves behind are types that it added, and diagnostics that it put behind the others.

Both are said by one relation between two computations, the one on an arena and the other on an
arena with the same nodes where the expression leads to: from the same types they give the same
answer, leave the same types and add the same diagnostics, whatever was reported before. Each rule
of the binder is in this relation with itself if the rule for nested expressions is.

## Main definitions

* `Arena.Coincides`: two arenas with the same nodes as far as some references lead
* `Binder.over`: a binder that reads another arena
* `Framed`: two computations that do the same, whatever was reported before

## Main results

* `Framed.bind`: one computation after another
* `Binder.framed_member`, `Binder.framed_initializers`, `Binder.framed_node`: the rules
* `Binder.framed_expr`: expressions of any depth
-/

namespace UpdateExpr

/-! ## Arenas -/

/-- Two arenas hold the same nodes under some references, and these lead to nothing but each
other. -/
structure Arena.Coincides (a a' : Arena) (p : NodeRef → Prop) : Prop where
  get?_eq : ∀ {r}, p r → a'.get? r = a.get? r
  parts : ∀ {r shape}, p r → a.shape? r = some shape → ∀ part ∈ shape.parts, p part

namespace Arena.Coincides

variable {a a' : Arena} {p : NodeRef → Prop} {r : NodeRef}

theorem shape?_eq (h : a.Coincides a' p) (hr : p r) : a'.shape? r = a.shape? r := by
  rw [Arena.shape?, Arena.shape?, h.get?_eq hr]

theorem span_eq (h : a.Coincides a' p) (hr : p r) : a'.span r = a.span r := by
  rw [Arena.span, Arena.span, h.get?_eq hr]

theorem name_eq (h : a.Coincides a' p) (hr : p r) : a'.name r = a.name r := by
  rw [Arena.name, Arena.name, h.shape?_eq hr]

end Arena.Coincides

/-- A binder that reads another arena. -/
def Binder.over (b : Binder) (a : Arena) : Binder :=
  { b with arena := a }

@[simp] theorem Binder.arena_over (b : Binder) (a : Arena) : (b.over a).arena = a := rfl

@[simp] theorem Binder.scope_over (b : Binder) (a : Arena) : (b.over a).scope = b.scope := rfl

@[simp] theorem Binder.options_over (b : Binder) (a : Arena) : (b.over a).options = b.options := rfl

/-! ## Computations in a frame -/

/-- Two computations do the same: from the same types they give the same answer, which is of a kind,
leave the same types and put the same diagnostics behind what was reported before. -/
def Framed {α : Type} (kind : α → Prop) (x x' : BindM α) : Prop :=
  ∀ types file, ∃ a types' more, kind a ∧ types ≤ types' ∧ ∀ entries,
    x ⟨types, ⟨file, entries⟩⟩ = (a, ⟨types', ⟨file, entries ++ more⟩⟩) ∧
    x' ⟨types, ⟨file, entries⟩⟩ = (a, ⟨types', ⟨file, entries ++ more⟩⟩)

/-- Any answer. -/
abbrev Whatever {α : Type} : α → Prop :=
  fun _ => True

namespace Framed

variable {α β : Type} {kind : α → Prop} {result : β → Prop} {x x' : BindM α} {f f' : α → BindM β}

theorem pure {a : α} (h : kind a) : Framed kind (pure a) (pure a) :=
  fun types _ => ⟨a, types, [], h, le_refl types, fun entries => by
    rw [List.append_nil]
    exact ⟨rfl, rfl⟩⟩

/-- **One computation after another.** -/
theorem bind (h : Framed kind x x') (hf : ∀ a, kind a → Framed result (f a) (f' a)) :
    Framed result (x >>= f) (x' >>= f') := by
  intro types file
  obtain ⟨a, types₁, more₁, ha, hle₁, hx⟩ := h types file
  obtain ⟨c, types₂, more₂, hc, hle₂, hc'⟩ := hf a ha types₁ file
  refine ⟨c, types₂, more₁ ++ more₂, hc, hle₁.trans hle₂, fun entries => ?_⟩
  rw [bind_apply, bind_apply, (hx entries).1, (hx entries).2, ← List.append_assoc]
  exact hc' (entries ++ more₁)

/-- A look at the types that are known. -/
theorem types {f f' : TypeTable → BindM β} (h : ∀ t, Framed result (f t) (f' t)) :
    Framed result (BindM.types >>= f) (BindM.types >>= f') :=
  fun t file => h t t file

/-- A question about symbols. -/
theorem ask {question : QueryM α}
    (h : ∀ types, types ≤ (question { types }).2.types) :
    Framed Whatever (BindM.ask question) (BindM.ask question) :=
  fun types _ => ⟨((question { types }).1, (question { types }).2.notes),
    (question { types }).2.types, [], trivial, h types, fun entries => by
      rw [List.append_nil]
      exact ⟨rfl, rfl⟩⟩

end Framed

/-! ## Questions -/

theorem le_classify (s : SymbolTable) (source target : TypeId) (q : QueryState) :
    q.types ≤ (s.classify source target q).2.types :=
  (steady_classify TypeTable.hereditary_true (fun _ _ => trivial) trivial trivial).grows.le

theorem le_lookup (s : SymbolTable) (ty : TypeId) (query : LookupQuery) (q : QueryState) :
    q.types ≤ (s.lookup ty query q).2.types :=
  (steady_lookup TypeTable.hereditary_true (fun _ _ => trivial) trivial).grows.le

/-! ## Expressions from some nodes -/

/-- An expression that was bound from one of some nodes. -/
def BoundExpr.From (p : NodeRef → Prop) (e : BoundExpr) : Prop :=
  p e.node

namespace BoundExpr

variable {p : NodeRef → Prop} {e : BoundExpr} {r : NodeRef}

theorem from_failure (h : p r) (candidates : List MemberId) (es : List BoundExpr) :
    (failure r candidates es).From p :=
  h

theorem From.addErrors (h : e.From p) (faulty : Bool) : (e.addErrors faulty).From p := by
  simpa [From, node, BoundExpr.addErrors] using h

theorem from_setNode (e : BoundExpr) (h : p r) : (e.setNode r).From p := by
  simpa [From, node, setNode] using h

end BoundExpr

open BoundExpr (from_failure)

namespace Binder

variable {b : Binder} {a' : Arena} {p : NodeRef → Prop} {node : NodeRef} {e : BoundExpr}

/-! ## Reports -/

section Reports

theorem framed_report (h : b.arena.Coincides a' p) (hn : p node) (issue : Issue)
    (args : List String) :
    Framed Whatever (b.report node issue args) ((b.over a').report node issue args) := by
  intro types file
  refine ⟨(), types, [.ofCode file (b.arena.span node) issue.code args], trivial, le_refl types,
    fun entries => ⟨rfl, ?_⟩⟩
  rw [report_apply, arena_over, h.span_eq hn]
  rfl

theorem framed_reportNotes (h : b.arena.Coincides a' p) (hn : p node) (notes : List UseSite) :
    Framed Whatever (b.reportNotes node notes) ((b.over a').reportNotes node notes) := by
  intro types file
  refine ⟨!notes.isEmpty, types, notes.map (UseSite.diagnostic file (b.arena.span node)), trivial,
    le_refl types, fun entries => ?_⟩
  have told (s : BindState) : s.tellNotes (b.arena.span node) notes =
      ⟨s.types, ⟨s.bag.file, s.bag.entries ++
        notes.map (UseSite.diagnostic s.bag.file (b.arena.span node))⟩⟩ := by
    rw [← s.types_tellNotes (b.arena.span node) notes, ← s.entries_tellNotes,
      ← s.file_tellNotes (b.arena.span node) notes]
  rw [reportNotes_apply, reportNotes_apply, arena_over, h.span_eq hn, told]
  exact ⟨rfl, rfl⟩

theorem framed_typeName (ty? : Option TypeId) :
    Framed Whatever (b.typeName ty?) ((b.over a').typeName ty?) :=
  .types fun _ => .pure trivial

theorem framed_memberName (m : MemberId) :
    Framed Whatever (b.memberName m) ((b.over a').memberName m) :=
  .types fun _ => .pure trivial

/-- A message that names the first of some members. -/
theorem framed_named {α : Type} {kind : α → Prop} {f f' : String → BindM α} (fallback : String)
    (members : List Candidate) (hf : ∀ name, Framed kind (f name) (f' name)) :
    Framed kind
      (match members with
        | [] => pure fallback >>= f
        | c :: _ => b.memberName c.member >>= f)
      (match members with
        | [] => pure fallback >>= f'
        | c :: _ => (b.over a').memberName c.member >>= f') := by
  cases members with
  | nil => exact hf fallback
  | cons c members => exact (framed_memberName c.member).bind fun name _ => hf name

end Reports

/-! ## Values -/

section Values

theorem framed_readable (h : b.arena.Coincides a' p) (he : e.From p) :
    Framed (·.From p) (b.readable e) ((b.over a').readable e) := by
  cases e with
  | methodGroup info receiver methods =>
    unfold readable
    refine framed_named "" methods fun name => ?_
    refine (framed_report h he .methodGroupAsValue [name]).bind fun _ _ => ?_
    exact .pure (from_failure he _ _)
  | _ => exact .pure he

theorem framed_assignable (h : b.arena.Coincides a' p) (he : e.From p) (inInitializer : Bool) :
    Framed (·.From p) (b.assignable inInitializer e) ((b.over a').assignable inInitializer e) := by
  unfold assignable
  have hsame : (b.over a').objection? inInitializer e = b.objection? inInitializer e := by
    cases e <;> rfl
  rw [hsame]
  split
  · exact .pure he
  cases b.objection? inInitializer e with
  | none => exact .pure he
  | some objection =>
    refine (framed_memberName objection.2).bind fun name _ => ?_
    refine (framed_report h he objection.1 [name]).bind fun _ _ => ?_
    exact .pure (from_failure he _ _)

theorem framed_conversionOf (h : b.arena.Coincides a' p) (he : e.From p) (target : TypeId) :
    Framed Whatever (b.conversionOf e target) ((b.over a').conversionOf e target) := by
  unfold conversionOf
  split
  · exact .types fun _ => .pure trivial
  cases e.ty? with
  | none => exact .pure trivial
  | some ty =>
    refine (Framed.ask fun types => le_classify _ _ _ { types }).bind fun answer _ => ?_
    exact (framed_reportNotes h he answer.2).bind fun _ _ => .pure trivial

theorem framed_convert (h : b.arena.Coincides a' p) (he : e.From p) (target : TypeId) :
    Framed (·.From p) (b.convert e target) ((b.over a').convert e target) := by
  refine (framed_conversionOf h he target).bind ?_
  rintro ⟨conversion, faulty⟩ -
  dsimp only
  split
  · exact .pure (he.addErrors faulty)
  split
  · exact .pure he
  refine (framed_typeName e.ty?).bind fun source _ => ?_
  refine (framed_typeName (some target)).bind fun target _ => ?_
  exact (framed_report h he _ [source, target]).bind fun _ _ => .pure he

theorem framed_fit (h : b.arena.Coincides a' p) (left : BoundExpr) (he : e.From p) :
    Framed (·.From p) (b.fit left e) ((b.over a').fit left e) := by
  unfold fit
  split
  · exact .pure he
  cases left.ty? with
  | none => exact .pure he
  | some ty =>
    dsimp only
    split
    · exact .pure he
    · exact framed_convert h he ty

end Values

/-! ## Members -/

section Members

theorem framed_reportLookup (h : b.arena.Coincides a' p) (hn : p node) (l : Lookup) (ty : TypeId)
    (name : String) :
    Framed Whatever (b.reportLookup node l ty name) ((b.over a').reportLookup node l ty name) := by
  unfold reportLookup
  refine framed_named name l.candidates fun member => ?_
  cases l.verdict with
  | notInvocable => exact framed_report h hn .memberNotInvocable [member]
  | staticMember => exact framed_report h hn .staticMember [member]
  | inaccessible => exact framed_report h hn .memberInaccessible [member]
  | absent | wrongArity | viable =>
    exact (framed_typeName (some ty)).bind fun receiver _ =>
      framed_report h hn .memberNotFound [receiver, name]

theorem from_access (hn : p node) (receiver : BoundExpr) (faulty : Bool)
    (members : List Candidate) : (b.access node receiver faulty members).From p := by
  unfold access
  split
  · exact hn
  · split <;> exact hn

/-- **A name behind a receiver.** -/
theorem framed_member (h : b.arena.Coincides a' p) (hn : p node) (receiver : BoundExpr)
    (name : String) (arity : Nat) (invoked : Bool) :
    Framed (·.From p) (b.member node receiver name arity invoked)
      ((b.over a').member node receiver name arity invoked) := by
  unfold member
  cases receiver.ty? with
  | none =>
    exact (framed_report h hn .memberNotFound _).bind fun _ _ => .pure (from_failure hn _ _)
  | some ty =>
    dsimp only
    split
    · exact .pure (from_failure hn _ _)
    refine (Framed.ask fun types => le_lookup _ _ _ { types }).bind fun answer _ => ?_
    refine (framed_reportNotes h hn answer.2).bind fun faulty _ => ?_
    split
    · exact .pure (from_access hn _ _ _)
    · exact (framed_reportLookup h hn answer.1 ty name).bind fun _ _ => .pure (from_failure hn _ _)

theorem framed_invoke (h : b.arena.Coincides a' p) (hn : p node) (target : BoundExpr)
    (name : String) :
    Framed (·.From p) (b.invoke node target name) ((b.over a').invoke node target name) := by
  cases target with
  | methodGroup info receiver methods =>
    unfold invoke
    dsimp only
    cases methods.find? (·.params.isEmpty) with
    | some m => exact .pure hn
    | none =>
      exact (framed_report h hn .noParameterlessOverload [name]).bind fun _ _ =>
        .pure (from_failure hn _ _)
  | _ => exact .pure (from_failure hn _ _)

end Members

/-! ## Nodes -/

/-- The rule for nested expressions is one that sees some nodes only. -/
def FramedNested (p : NodeRef → Prop) (nested nested' : NodeRef → BindM BoundExpr) : Prop :=
  ∀ node, p node → Framed (·.From p) (nested node) (nested' node)

section Nodes

variable {nested nested' : NodeRef → BindM BoundExpr}

theorem framed_operand {α : Type} {kind : α → Prop} {f f' : BoundExpr → BindM α}
    (h : b.arena.Coincides a' p) (hk : FramedNested p nested nested') (hn : p node)
    (hf : ∀ e, e.From p → Framed kind (f e) (f' e)) :
    Framed kind (nested node >>= fun e => b.readable e >>= f)
      (nested' node >>= fun e => (b.over a').readable e >>= f') :=
  (hk node hn).bind fun _ he => (framed_readable h he).bind hf

theorem framed_name (h : b.arena.Coincides a' p) (hn : p node) (name : String) :
    Framed (·.From p) (b.name node name) ((b.over a').name node name) := by
  unfold Binder.name
  rw [scope_over]
  cases b.scope.lookup? name with
  | some v => exact .pure hn
  | none => exact (framed_report h hn .unknownName _).bind fun _ _ => .pure (from_failure hn _ _)

theorem framed_memberNode (h : b.arena.Coincides a' p) (hk : FramedNested p nested nested')
    (hn : p node) (invoked : Bool) :
    Framed (·.From p) (b.memberNode nested node invoked)
      ((b.over a').memberNode nested' node invoked) := by
  unfold memberNode
  rw [arena_over, h.shape?_eq hn]
  cases hs : b.arena.shape? node with
  | none => exact .pure (from_failure hn _ _)
  | some shape =>
    cases shape with
    | access target nameNode =>
      have hparts := h.parts hn hs
      have hname : p nameNode := hparts _ (by simp [NodeShape.parts])
      refine framed_operand h hk (hparts _ (by simp [NodeShape.parts])) fun receiver _ => ?_
      dsimp only
      rw [h.name_eq hname]
      split
      · exact .pure (from_failure hn _ _)
      · refine (framed_member h hname receiver _ 0 invoked).bind fun e _ => ?_
        exact .pure (BoundExpr.from_setNode e hn)
    | _ => exact .pure (from_failure hn _ _)

theorem framed_callNode (h : b.arena.Coincides a' p) (hk : FramedNested p nested nested')
    {target : NodeRef} (hn : p node) (ht : p target) :
    Framed (·.From p) (b.callNode nested node target)
      ((b.over a').callNode nested' node target) := by
  refine (framed_memberNode h hk ht true).bind fun method _ => ?_
  rw [arena_over, h.shape?_eq ht]
  dsimp only
  split
  · next _ nameNode hs =>
    rw [h.name_eq (h.parts ht hs _ (by simp [NodeShape.parts]))]
    exact framed_invoke h hn method _
  · rw [h.name_eq ht]
    exact framed_invoke h hn method _

/-! ### Updates -/

theorem framed_checkCloneType (h : b.arena.Coincides a' p) (hn : p node)
    (receiver returned : TypeId) :
    Framed Whatever (b.checkCloneType node receiver returned)
      ((b.over a').checkCloneType node receiver returned) := by
  refine (Framed.ask fun types => le_derivesFrom _ _ _ _ { types }).bind fun answer _ => ?_
  dsimp only
  split
  · exact .pure trivial
  refine (framed_typeName (some receiver)).bind fun receiver _ => ?_
  refine (framed_typeName (some returned)).bind fun returned _ => ?_
  exact (framed_report h hn .cloneReturnType _).bind fun _ _ => .pure trivial

theorem framed_checkCloneChoice (h : b.arena.Coincides a' p) (hn : p node) (receiver : TypeId)
    (choice : Candidate) (others : List Candidate) :
    Framed Whatever (b.checkCloneChoice node receiver choice others)
      ((b.over a').checkCloneChoice node receiver choice others) := by
  unfold checkCloneChoice
  rw [options_over]
  cases b.options.reportAmbiguousClone with
  | false => exact .pure trivial
  | true =>
    cases others with
    | nil => exact .pure trivial
    | cons other others =>
      refine (framed_typeName (some receiver)).bind fun receiver _ => ?_
      refine (framed_memberName choice.member).bind fun choice _ => ?_
      refine (framed_memberName other.member).bind fun other _ => ?_
      exact (framed_report h hn .ambiguousClone _).bind fun _ _ => .pure trivial

theorem framed_chooseClone (h : b.arena.Coincides a' p) (hn : p node) (receiver : TypeId) :
    Framed Whatever (b.chooseClone node receiver) ((b.over a').chooseClone node receiver) := by
  unfold chooseClone
  split
  · exact .pure trivial
  refine (Framed.ask fun types => le_lookup _ _ _ { types }).bind fun answer _ => ?_
  dsimp only
  split
  · refine (framed_typeName (some receiver)).bind fun receiver _ => ?_
    exact (framed_report h hn .noCloneMethod _).bind fun _ _ => .pure trivial
  · refine (framed_checkCloneChoice h hn receiver _ _).bind fun clear _ => ?_
    exact (framed_checkCloneType h hn receiver _).bind fun derives _ => .pure trivial

theorem framed_receiver (h : b.arena.Coincides a' p) (hk : FramedNested p nested nested')
    (hn : p node) :
    Framed (fun r => r.1.From p) (b.receiver nested node) ((b.over a').receiver nested' node) := by
  refine framed_operand h hk hn fun e he => ?_
  cases e.ty?.filter (· ≠ .void) with
  | some ty => exact .pure he
  | none =>
    exact (framed_report h hn .invalidUpdateReceiver []).bind fun _ _ => .pure (he.addErrors true)

theorem framed_initializer (h : b.arena.Coincides a' p) (hk : FramedNested p nested nested')
    (copy : BoundExpr) (hn : p node) :
    Framed Whatever (b.initializer nested copy node)
      ((b.over a').initializer nested' copy node) := by
  unfold initializer
  rw [arena_over, h.shape?_eq hn]
  cases hs : b.arena.shape? node with
  | none => exact .pure trivial
  | some shape =>
    cases shape with
    | initializer nameNode valueNode =>
      have hparts := h.parts hn hs
      have hname : p nameNode := hparts _ (by simp [NodeShape.parts])
      have hvalue : p valueNode := hparts _ (by simp [NodeShape.parts])
      dsimp only
      rw [h.name_eq hname]
      split
      · exact framed_operand h hk hvalue fun _ _ => .pure trivial
      · refine (framed_member h hname copy _ 0 false).bind fun target ht => ?_
        refine (framed_assignable h ht true).bind fun target _ => ?_
        refine framed_operand h hk hvalue fun value hv => ?_
        exact (framed_fit h target hv).bind fun _ _ => .pure trivial
    | _ => exact .pure trivial

theorem framed_initializers (h : b.arena.Coincides a' p) (hk : FramedNested p nested nested')
    (copy : BoundExpr) {nodes : List NodeRef} (hn : ∀ node ∈ nodes, p node) :
    Framed Whatever (b.initializers nested copy nodes)
      ((b.over a').initializers nested' copy nodes) := by
  induction nodes with
  | nil => exact .pure trivial
  | cons node rest ih =>
    rw [List.forall_mem_cons] at hn
    refine (framed_initializer h hk copy hn.1).bind fun bound _ => ?_
    exact (ih hn.2).bind fun others _ => .pure trivial

theorem framed_update (h : b.arena.Coincides a' p) (hk : FramedNested p nested nested')
    (hn : p node) :
    Framed (·.From p) (b.update nested node) ((b.over a').update nested' node) := by
  unfold update
  rw [arena_over, h.shape?_eq hn]
  cases hs : b.arena.shape? node with
  | none => exact .pure (from_failure hn _ _)
  | some shape =>
    cases shape with
    | update receiverNode entries list =>
      obtain ⟨hr, hentries⟩ := List.forall_mem_cons.1 (h.parts hn hs)
      refine (framed_receiver h hk hr).bind fun receiver _ => ?_
      refine (framed_chooseClone h hr receiver.2).bind fun clone _ => ?_
      exact (framed_initializers h hk _ hentries).bind fun bound _ => .pure hn
    | _ => exact .pure (from_failure hn _ _)

/-! ### Any node -/

theorem from_literal (hn : p node) (value : LiteralValue) : (literal node value).From p := by
  cases value <;> exact hn

/-- **The rule for one node.** -/
theorem framed_node (h : b.arena.Coincides a' p) (hk : FramedNested p nested nested')
    (hn : p node) : Framed (·.From p) (b.node nested node) ((b.over a').node nested' node) := by
  unfold Binder.node
  rw [arena_over, h.get?_eq hn]
  cases hg : b.arena.get? node with
  | none => exact .pure (from_failure hn _ _)
  | some n =>
    obtain ⟨shape, span, missing⟩ := n
    have hs : b.arena.shape? node = some shape := by simp [Arena.shape?, hg]
    have hparts := h.parts hn hs
    cases missing with
    | true => exact .pure (from_failure hn _ _)
    | false =>
      cases shape with
      | token kind =>
        cases kind with
        | identifier => exact framed_name h hn ""
        | trueKeyword | falseKeyword | nullKeyword => exact .pure hn
        | _ => exact .pure (from_failure hn _ _)
      | identifier name => exact framed_name h hn name
      | literal value text flags => exact .pure (from_literal hn value)
      | access target nameNode => exact framed_memberNode h hk hn false
      | call target => exact framed_callNode h hk hn (hparts _ (by simp [NodeShape.parts]))
      | paren inner => exact hk inner (hparts _ (by simp [NodeShape.parts]))
      | update receiver entries list => exact framed_update h hk hn
      | initializer name value => exact .pure (from_failure hn _ _)

/-- **Expressions of any depth.** -/
theorem framed_expr (h : b.arena.Coincides a' p) (depth : Nat) :
    FramedNested p (b.expr depth) ((b.over a').expr depth) := by
  induction depth with
  | zero =>
    exact fun node hn =>
      (framed_report h hn .nestedTooDeeply []).bind fun _ _ => .pure (from_failure hn _ _)
  | succ depth ih => exact fun node hn => framed_node h ih hn

end Nodes

end Binder

end UpdateExpr
