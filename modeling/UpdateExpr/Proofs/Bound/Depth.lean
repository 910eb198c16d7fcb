import UpdateExpr.Proofs.Bound.NodeRun
import UpdateExpr.Proofs.Symbol.Notes
import UpdateExpr.Proofs.Syntax.Holds
import UpdateExpr.Proofs.Syntax.ReadBack

/-!
# How deep binding goes

Reading and binding both have a limit for nesting, but they do not count alike. Members and updates
are read one after another behind an expression, however many there are; they are bound by binding
the expression in front of them first, one level further down. So a text without problems may well
be nested too deeply to be bound, and how many levels it takes is seen from its tree.

## Main definitions

* `SyntaxTree.frames`: the number of levels that a tree takes
* `Binder.Deepens`, `Binder.TooDeep`: something is nested too deeply, exactly under a condition

## Main results

* `Binder.deepens_expr`: a tree is nested too deeply exactly where it takes more levels than are
  left
* `Binder.tooDeep_iff`: the same of a text without problems
* `Binder.tooDeep_of_chain`: a text without problems that is nested too deeply
-/

namespace UpdateExpr

namespace SyntaxTree

mutual

/-- The number of levels that binding a tree takes. A call binds what is in front of its member. -/
def frames : SyntaxTree → Nat
  | identifier _ | literal _ _ _ _ | keyword _ _ => 1
  | access target _ _ => frames target + 1
  | call target _ => frames target
  | paren inner _ => frames inner + 1
  | update receiver entries _ _ => max (frames receiver) (entryFrames entries) + 1

/-- The number of levels that the values of some initializers take. -/
def entryFrames : List (Initializer SyntaxTree) → Nat
  | [] => 0
  | ⟨_, value, _⟩ :: entries => max (frames value) (entryFrames entries)

end

theorem frames_pos : ∀ t : SyntaxTree, 0 < t.frames
  | identifier _ | literal _ _ _ _ | keyword _ _ => Nat.zero_lt_one
  | access _ _ _ | paren _ _ | update _ _ _ _ => Nat.succ_pos _
  | call target _ => frames_pos target

end SyntaxTree

namespace Binder

/-- What was reported from one state to another says that something is nested too deeply exactly
under a condition. -/
def Deepens (s s' : BindState) (p : Prop) : Prop :=
  ∃ more, s'.bag.entries = s.bag.entries ++ more ∧
    ((∃ d ∈ more, d.code = Issue.nestedTooDeeply.code) ↔ p)

/-- From one state to another, it was reported that something is nested too deeply. -/
def TooDeep (s s' : BindState) : Prop :=
  ∃ d ∈ s'.bag.entries.drop s.bag.entries.length, d.code = Issue.nestedTooDeeply.code

/-! ## Steps -/

section Steps

variable {p p' : Prop} {s s₁ s' : BindState} {types : TypeTable} {span : Span}

theorem Deepens.of_entries_eq (h : s'.bag.entries = s.bag.entries) : Deepens s s' False :=
  ⟨[], by simpa using h, by simp⟩

theorem Deepens.refl : Deepens s s False :=
  .of_entries_eq rfl

theorem Deepens.congr (h : Deepens s s' p) (hp : p ↔ p') : Deepens s s' p' := by
  obtain ⟨more, he, hm⟩ := h
  exact ⟨more, he, hm.trans hp⟩

theorem Deepens.trans (h : Deepens s s₁ p) (h' : Deepens s₁ s' p') : Deepens s s' (p ∨ p') := by
  obtain ⟨more, he, hm⟩ := h
  obtain ⟨more', he', hm'⟩ := h'
  refine ⟨more ++ more', by rw [he', he, List.append_assoc], ?_⟩
  simp only [List.mem_append, or_and_right, exists_or, hm, hm']

theorem Deepens.then (h : Deepens s s₁ p) (h' : Deepens s₁ s' False) : Deepens s s' p :=
  (h.trans h').congr (iff_of_eq (or_false p))

theorem Deepens.after (h : Deepens s s₁ False) (h' : Deepens s₁ s' p) : Deepens s s' p :=
  (h.trans h').congr (iff_of_eq (false_or p))

theorem Deepens.reported_iff (h : Deepens s s' p) : TooDeep s s' ↔ p := by
  obtain ⟨more, he, hm⟩ := h
  rw [TooDeep, he, List.drop_left, hm]

theorem deepens_of_codes {more : List Diagnostic} (h : s'.bag.entries = s.bag.entries ++ more)
    (hm : ∀ d ∈ more, ∃ issue, issue ≠ Issue.nestedTooDeeply ∧ d.code = issue.code) :
    Deepens s s' False := by
  refine ⟨more, h, iff_false_intro ?_⟩
  rintro ⟨d, hd, hcode⟩
  obtain ⟨issue, hne, hi⟩ := hm d hd
  exact hne (Issue.code_eq_iff.1 (hi.symm.trans hcode))

theorem deepens_tell (issue : Issue) (h : issue ≠ .nestedTooDeeply) (args : List String) :
    Deepens s (s.tell issue.code span args) False := by
  refine deepens_of_codes (s.entries_tell span issue.code args) ?_
  rw [List.forall_mem_singleton]
  exact ⟨issue, h, rfl⟩

theorem deepens_tellNotes {notes : List UseSite}
    (h : ∀ note ∈ notes, note.code = Issue.baseTypeUnresolved.code) :
    Deepens s ((s.withTypes types).tellNotes span notes) False := by
  refine deepens_of_codes ((s.withTypes types).entries_tellNotes span notes) fun d hd => ?_
  obtain ⟨note, hn, rfl⟩ := List.mem_map.1 hd
  exact ⟨.baseTypeUnresolved, nofun, h note hn⟩

end Steps

/-! ## Values and members -/

section Uses

variable {b : Binder} {nested : NodeRef → BindM BoundExpr} {node : NodeRef} {p : Prop}
  {e e' left right receiver : BoundExpr} {name : String} {arity : Nat} {invoked : Bool}
  {ty : TypeId} {s s' : BindState}

theorem ReadRun.deepens (h : b.ReadRun e s e' s') : Deepens s s' False := by
  cases h with
  | value _ => exact .refl
  | group name _ => exact deepens_tell .methodGroupAsValue nofun _

theorem OperandRun.deepens (hn : ∀ {e s'}, nested node s = (e, s') → Deepens s s' p)
    (h : b.OperandRun nested node s e s') : Deepens s s' p := by
  obtain ⟨ho, hr⟩ := h
  exact (hn ho).then hr.deepens

theorem ConversionRun.deepens {conversion : Conversion} {faulty : Bool}
    (h : b.ConversionRun e ty s conversion faulty s') : Deepens s s' False := by
  cases h with
  | null _ => exact .refl
  | typeless _ _ => exact .refl
  | @classified source _ _ _ _ hc =>
    have hnotes := b.symbols.notesBases_classify source ty { types := s.types } nofun
    rw [hc] at hnotes
    exact deepens_tellNotes hnotes

theorem ConvertRun.deepens (h : b.ConvertRun e ty s e' s') : Deepens s s' False := by
  cases h with
  | same hc => exact hc.deepens
  | implicit hc _ _ => exact hc.deepens
  | refused issue args hc _ hi =>
    refine hc.deepens.then (deepens_tell issue ?_ _)
    rintro rfl
    simp [conversionIssues] at hi

theorem FitRun.deepens (h : b.FitRun left right s e' s') : Deepens s s' False := by
  cases h with
  | kept _ => exact .refl
  | converted _ _ _ hc => exact hc.deepens

theorem objection?_ne {inInitializer : Bool} {issue : Issue} {m : MemberId}
    (h : b.objection? inInitializer e = some (issue, m)) : issue ≠ .nestedTooDeeply := by
  rintro rfl
  exact absurd (objection?_mem h) (by decide)

theorem AssignRun.deepens {inInitializer : Bool} (h : b.AssignRun inInitializer e s e' s') :
    Deepens s s' False := by
  cases h with
  | faulty _ => exact .refl
  | accepted _ _ => exact .refl
  | refused name _ ho => exact deepens_tell _ (objection?_ne ho) _

theorem MemberRun.deepens (h : b.MemberRun node receiver name arity invoked s e s') :
    Deepens s s' False := by
  have hnotes : ∀ {ty l q},
      b.symbols.lookup ty (b.query name arity invoked) { types := s.types } = (l, q) →
      ∀ note ∈ q.notes, note.code = Issue.baseTypeUnresolved.code := by
    intro ty l q hl
    have hnotes := b.symbols.notesBases_lookup ty (b.query name arity invoked)
      { types := s.types } nofun
    rwa [hl] at hnotes
  cases h with
  | typeless args _ => exact deepens_tell .memberNotFound nofun _
  | faulty _ => exact .refl
  | found _ _ hl _ => exact deepens_tellNotes (hnotes hl)
  | missing issue args _ _ hl hi =>
    refine (deepens_tellNotes (hnotes hl)).then (deepens_tell issue ?_ _)
    rintro rfl
    simp [lookupIssues] at hi

/-- A member is as deep as what is in front of it. -/
theorem AccessRun.deepens {target nameNode : NodeRef}
    (hs : b.arena.shape? node = some (.access target nameNode))
    (hn : ∀ {e s'}, nested target s = (e, s') → Deepens s s' p)
    (h : b.AccessRun nested node invoked s e s') : Deepens s s' p := by
  cases h with
  | other hno => exact absurd hs (hno _ _)
  | nameless hs' ho _ =>
    rw [hs] at hs'
    cases hs'
    exact ho.deepens hn
  | named hs' ho _ hm =>
    rw [hs] at hs'
    cases hs'
    exact (ho.deepens hn).then hm.deepens

theorem InvokeRun.deepens (h : b.InvokeRun node e s e' s') : Deepens s s' False := by
  cases h with
  | called _ _ => exact .refl
  | overloads name _ => exact deepens_tell .noParameterlessOverload nofun _
  | other _ => exact .refl

end Uses

/-! ## Updates -/

section Updates

variable {b : Binder} {nested : NodeRef → BindM BoundExpr} {node : NodeRef} {p : Prop}
  {e copy : BoundExpr} {ty : TypeId} {depth : Nat} {s s' : BindState}

theorem ReceiverRun.deepens (hn : ∀ {e s'}, nested node s = (e, s') → Deepens s s' p)
    (h : b.ReceiverRun nested node s e ty s') : Deepens s s' p := by
  cases h with
  | typed ho _ _ => exact ho.deepens hn
  | refused ho => exact (ho.deepens hn).then (deepens_tell .invalidUpdateReceiver nofun _)

theorem CloneRun.deepens {choice : CloneChoice} (h : b.CloneRun ty s choice s') :
    Deepens s s' False := by
  cases h with
  | faulty _ => exact .refl
  | chosen _ _ _ _ _ => exact .of_entries_eq rfl
  | absent types span args => exact deepens_tell .noCloneMethod nofun _
  | doubtful d ds _ he hi =>
    refine deepens_of_codes he fun d' hd => ?_
    obtain ⟨issue, hissue, hcode⟩ := hi d' hd
    refine ⟨issue, ?_, hcode⟩
    rintro rfl
    simp [cloneIssues] at hissue

theorem InitializerRun.deepens {init : BoundInitializer} {nameNode valueNode : NodeRef}
    (hs : b.arena.shape? node = some (.initializer nameNode valueNode))
    (hn : ∀ {s e s'}, nested valueNode s = (e, s') → Deepens s s' p)
    (h : b.InitializerRun nested copy node s init s') : Deepens s s' p := by
  cases h with
  | other hno => exact absurd hs (hno _ _)
  | bare hs' _ ho =>
    rw [hs] at hs'
    cases hs'
    exact ho.deepens hn
  | named hs' _ hm ha ho hf =>
    rw [hs] at hs'
    cases hs'
    exact ((hm.deepens.then ha.deepens).after (ho.deepens hn)).then hf.deepens

/-- Some initializers are as deep as the deepest value. -/
theorem InitializersRun.deepens {entries : List (Initializer SyntaxTree)} {nodes : List NodeRef}
    {inits : List BoundInitializer} (hheld : b.arena.HoldsEntries entries nodes)
    (hn : ∀ entry ∈ entries, ∀ {value s e s'}, b.arena.Holds entry.value value →
      nested value s = (e, s') → Deepens s s' (depth < entry.value.frames))
    (h : b.InitializersRun nested copy nodes s inits s') :
    Deepens s s' (depth < SyntaxTree.entryFrames entries) := by
  induction entries generalizing nodes s inits with
  | nil =>
    obtain rfl : nodes = [] := hheld
    cases h
    exact Deepens.refl.congr (by simp [SyntaxTree.entryFrames])
  | cons entry entries ih =>
    obtain ⟨name, value, span⟩ := entry
    obtain ⟨first, rest, n, v, rfl, hnode, -, hvalue, hrest⟩ := hheld
    rw [List.forall_mem_cons] at hn
    cases h with
    | cons hinit hinits =>
      have hfirst := hinit.deepens (Arena.shape?_of_get? hnode) fun h => hn.1 hvalue h
      refine (hfirst.trans (ih hrest hn.2 hinits)).congr ?_
      rw [SyntaxTree.entryFrames, lt_max_iff]

/-- An update is as deep as its receiver or the deepest value. -/
theorem UpdateRun.deepens {receiver : NodeRef} {nodes : List NodeRef} {list : ListSpan}
    {tree : SyntaxTree} {entries : List (Initializer SyntaxTree)}
    (hs : b.arena.shape? node = some (.update receiver nodes list))
    (hr : ∀ {s e s'}, nested receiver s = (e, s') → Deepens s s' (depth < tree.frames))
    (hheld : b.arena.HoldsEntries entries nodes)
    (hn : ∀ entry ∈ entries, ∀ {value s e s'}, b.arena.Holds entry.value value →
      nested value s = (e, s') → Deepens s s' (depth < entry.value.frames))
    (h : b.UpdateRun nested node s e s') :
    Deepens s s' (depth < max tree.frames (SyntaxTree.entryFrames entries)) := by
  cases h with
  | other hno => exact absurd hs (hno _ _ _)
  | intro hs' hreceiver hclone _ hinits _ =>
    rw [hs] at hs'
    cases hs'
    have hfront := (hreceiver.deepens hr).then hclone.deepens
    refine (hfront.trans (hinits.deepens hheld hn)).congr ?_
    rw [lt_max_iff]

end Updates

/-! ## Nodes -/

section Nodes

variable {b : Binder} {node : NodeRef} {e : BoundExpr} {depth : Nat} {s s' : BindState}
  {tree : SyntaxTree}

theorem name_deepens {name : String} (h : b.name node name s = (e, s')) : Deepens s s' False := by
  unfold Binder.name at h
  cases hv : b.scope.lookup? name with
  | some v =>
    rw [hv] at h
    obtain ⟨-, rfl⟩ := Prod.mk.inj h
    exact .refl
  | none =>
    rw [hv] at h
    obtain ⟨-, rfl⟩ := Prod.mk.inj h
    exact deepens_tell .unknownName nofun _

/-- **A whole tree is nested too deeply exactly where it takes more levels than are left.** -/
theorem deepens_expr (hw : tree.IsWhole) (hh : b.arena.Holds tree node)
    (h : b.expr depth node s = (e, s')) : Deepens s s' (depth < tree.frames) := by
  induction depth generalizing tree node s e s' with
  | zero =>
    obtain ⟨-, rfl⟩ := Prod.mk.inj h
    refine ⟨_, s.entries_tell _ _ _, iff_of_true ⟨_, List.mem_singleton_self _, rfl⟩ ?_⟩
    exact tree.frames_pos
  | succ depth ih =>
    replace h : b.node (b.expr depth) node s = (e, s') := h
    have leaf : False ↔ depth + 1 < 1 := by simp
    cases hw with
    | @identifier id hid =>
      have hnode : b.arena.get? node = some ⟨.identifier id.name, id.span, id.missing⟩ := hh
      rw [hid.missing] at hnode
      simp only [Binder.node, hnode] at h
      exact (name_deepens h).congr leaf
    | @literal value text flags span _ =>
      have hnode : b.arena.get? node = some ⟨.literal value text flags, span, false⟩ := hh
      simp only [Binder.node, hnode] at h
      obtain ⟨-, rfl⟩ := Prod.mk.inj h
      exact Deepens.refl.congr leaf
    | @keyword kind span hk =>
      have hnode : b.arena.get? node = some ⟨.token kind, span, false⟩ := hh
      cases kind <;> cases hk
      all_goals
        simp only [Binder.node, hnode] at h
        obtain ⟨-, rfl⟩ := Prod.mk.inj h
        exact Deepens.refl.congr leaf
    | access ht _ =>
      obtain ⟨t, m, hnode, htarget, -⟩ := hh
      simp only [Binder.node, hnode] at h
      have hrun := (access_run h).deepens (Arena.shape?_of_get? hnode) fun h => ih ht htarget h
      exact hrun.congr (by rw [SyntaxTree.frames, Nat.add_lt_add_iff_right])
    | call hc =>
      obtain ⟨c, hcall, t, m, hnode, htarget, -⟩ := hh
      cases hc with
      | access ht _ =>
      simp only [Binder.node, hcall] at h
      obtain ⟨ha, hi⟩ := call_run h
      have hrun := ha.deepens (Arena.shape?_of_get? hnode) fun h => ih ht htarget h
      refine (hrun.then hi.deepens).congr ?_
      rw [SyntaxTree.frames, SyntaxTree.frames, Nat.add_lt_add_iff_right]
    | paren hi =>
      obtain ⟨i, hnode, hinner⟩ := hh
      simp only [Binder.node, hnode] at h
      exact (ih hi hinner h).congr (by rw [SyntaxTree.frames, Nat.add_lt_add_iff_right])
    | update hr _ hv =>
      obtain ⟨n, nodes, hnode, hreceiver, hentries⟩ := hh
      simp only [Binder.node, hnode] at h
      have hrun := (update_run h).deepens (Arena.shape?_of_get? hnode)
        (fun h => ih hr hreceiver h) hentries fun entry hentry _ _ _ _ hheld h =>
          ih (hv entry hentry) hheld h
      exact hrun.congr (by rw [SyntaxTree.frames, Nat.add_lt_add_iff_right])

end Nodes

/-! ## Texts -/

section Texts

/-- What was read as a whole tree is nested too deeply where it takes more levels than allowed. -/
theorem deepens_bind {p : Parsed} (hw : p.tree.IsWhole) (symbols : SymbolTable) (scope : Scope)
    (options : BindOptions) (s : BindState) :
    Deepens s (bind ⟨p.arena, symbols, scope, options⟩ (some p.root) s).2
      (options.maxDepth < p.tree.frames) :=
  deepens_expr (b := ⟨p.arena, symbols, scope, options⟩) hw p.holds_root Prod.mk.eta.symm

/-- **A text without problems is nested too deeply where its tree takes more levels than allowed**,
and only there, whatever the symbols and the scope. -/
theorem tooDeep_iff {text : String} (hp : (parse text).problems = []) (symbols : SymbolTable)
    (scope : Scope) (options : BindOptions) (s : BindState) :
    TooDeep s (bind ⟨(parse text).arena, symbols, scope, options⟩ (some (parse text).root) s).2 ↔
      options.maxDepth < (parse text).tree.frames :=
  (deepens_bind (isWhole_parse hp) symbols scope options s).reported_iff

/-- Members behind a variable, one after another. -/
def chain : Nat → Expr
  | 0 => .name "a"
  | n + 1 => .access (chain n) "b"

/-- The text of such members. -/
def chainText (n : Nat) : String :=
  .ofList (Word.line (chain n).words)

/-- Members are not nested for whoever reads them. -/
theorem within_chain (n depth : Nat) : (chain n).Within (depth + 1) := by
  induction n with
  | zero => exact .name
  | succ n ih =>
    refine .access ih ?_
    cases n <;> trivial

theorem isValid_chain (n : Nat) : ∀ w ∈ (chain n).words, w.IsValid := by
  induction n with
  | zero => decide
  | succ n ih =>
    rw [chain, Expr.words, List.forall_mem_append]
    exact ⟨ih, by decide⟩

/-- Each of them takes a level of its own. -/
theorem frames_chain {p : Token → Prop} {tree : SyntaxTree} {n : Nat}
    (h : tree.Writes p (chain n)) : tree.frames = n + 1 := by
  induction n generalizing tree with
  | zero =>
    cases h
    rfl
  | succ n ih =>
    cases h with
    | access ht _ => rw [SyntaxTree.frames, ih ht]

/-- **Members are read without a problem, however many there are**, and take a level each. -/
theorem parse_chainText (n : Nat) :
    (parse (chainText n)).problems = [] ∧ (parse (chainText n)).tree.frames = n + 1 := by
  have hs : Spaced (chain n).words (chainText n).toList := by
    rw [chainText, String.toList_ofList]
    exact Word.spaced_line _
  obtain ⟨hp, hw⟩ := parse_of_spaced (within_chain n 255) (isValid_chain n) hs
  exact ⟨hp, frames_chain hw⟩

/-- Two members take three levels. -/
theorem tooDeep_iff_of_chain : (parse (chainText 2)).problems = [] ∧
    (TooDeep ⟨{}, { file := "w.wex" }⟩
      (bind ⟨(parse (chainText 2)).arena, {}, {}, { maxDepth := 2 }⟩
        (some (parse (chainText 2)).root) ⟨{}, { file := "w.wex" }⟩).2 ↔
        2 < (parse (chainText 2)).tree.frames) :=
  have hp := (parse_chainText 2).1
  ⟨hp, tooDeep_iff hp {} {} { maxDepth := 2 } _⟩

/-- A class with a field of its own type. -/
def chainTable : SymbolTable where
  definitions := #[{ name := "D", members := [⟨0⟩] }]
  members := #[{ owner := ⟨0⟩, name := "b", shape := .field (TypeTable.plain ⟨0⟩ {}).1 false }]

/-- A text about a variable of that class, with the settings that are used unless told otherwise. -/
def chainBinder (text : String) : Binder where
  arena := (parse text).arena
  symbols := chainTable
  scope := { locals := [("a", ⟨⟨0⟩, (TypeTable.plain ⟨0⟩ {}).1⟩)], declared := 1 }

/-- The types with that class. -/
def chainState : BindState :=
  ⟨(TypeTable.plain ⟨0⟩ {}).2, { file := "w.wex" }⟩

/-- As many members as expressions may be nested are read without a problem, and are nested too
deeply to be bound. -/
theorem tooDeep_of_chain : (parse (chainText maxBindDepth)).problems = [] ∧
    (chainBinder (chainText maxBindDepth)).options.maxDepth = maxParseDepth ∧
    TooDeep chainState ((chainBinder (chainText maxBindDepth)).bind
      (some (parse (chainText maxBindDepth)).root) chainState).2 := by
  obtain ⟨hp, hframes⟩ := parse_chainText maxBindDepth
  refine ⟨hp, rfl, (deepens_bind (isWhole_parse hp) chainTable _ {} chainState).reported_iff.2 ?_⟩
  rw [hframes]
  exact Nat.lt_succ_self _

end Texts

end Binder

end UpdateExpr
