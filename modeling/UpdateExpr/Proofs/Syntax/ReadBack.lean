import UpdateExpr.Proofs.Related
import UpdateExpr.Proofs.Syntax.Holds
import UpdateExpr.Proofs.Syntax.Spaced

/-!
# Reading an expression back

The arena of a text is read back node by node, as an expression that is written: a name from its
node, a literal from the part of the text that its node covers, and everything else from its parts.
An expression that is written down word by word, with blanks between the words, is read as an arena
that reads back as just this expression.

## Main definitions

* `Arena.readFrom?`, `Arena.read?`: the expression that a node of an arena stands for

## Main results

* `Arena.readFrom?_of_writes`: a node that holds the tree of an expression reads back as it
* `parse_of_spaced`: an expression that is written down is read without a problem
* `read?_parse_of_spaced`: it reads back as the expression
-/

namespace UpdateExpr

/-! ## Reading nodes -/

namespace Arena

/-- The name that a node is; none where it is missing, and for any other node. -/
def name? (a : Arena) (r : NodeRef) : Option String :=
  match a.get? r with
  | some ⟨.identifier name, _, false⟩ => some name
  | _ => none

/-- The literal that a node stands for, if it says what the characters under it mean. -/
def literal? (text : List Char) (span : Span) (shape : NodeShape) : Option Expr :=
  if literalShape? (span.slice text) = some shape then
    some (.literal (.ofList (span.slice text)))
  else none

/-- The initializer that a node stands for: a value, with a name unless none is referred to. -/
def initializer? (a : Arena) (read : NodeRef → Option Expr) (r : NodeRef) :
    Option (Option String × Expr) :=
  match a.shape? r with
  | some (.initializer none value) => (read value).map (none, ·)
  | some (.initializer name value) => do return (some (← a.name? name), ← read value)
  | _ => none

/-- The expression that a node stands for, where it is no deeper than `n` nodes. Only members are
called, and a missing node stands for nothing. -/
def readFrom? (a : Arena) (text : List Char) : Nat → NodeRef → Option Expr
  | 0, _ => none
  | n + 1, r =>
    match a.get? r with
    | some ⟨.identifier name, _, false⟩ => some (.name name)
    | some ⟨.token kind, span, false⟩ => literal? text span (.token kind)
    | some ⟨.literal value chars flags, span, false⟩ =>
      literal? text span (.literal value chars flags)
    | some ⟨.access target member, _, false⟩ => do
      return .access (← readFrom? a text n target) (← a.name? member)
    | some ⟨.call target, _, false⟩ =>
      match a.get? target with
      | some ⟨.access operand member, _, false⟩ => do
        return .call (← readFrom? a text n operand) (← a.name? member)
      | _ => none
    | some ⟨.paren inner, _, false⟩ => do return .paren (← readFrom? a text n inner)
    | some ⟨.update receiver entries list, _, false⟩ => do
      return .update (← readFrom? a text n receiver)
        (← entries.mapM (a.initializer? (readFrom? a text n))) list.trailingComma
    | _ => none

/-- The expression that a node of the arena of a text stands for. A way that never repeats a node is
no longer than the arena. -/
def read? (a : Arena) (text : String) (r : NodeRef) : Option Expr :=
  a.readFrom? text.toList a.size r

end Arena

/-! ## Trees of expressions -/

section Writes

variable {a : Arena} {text : List Char} {r : NodeRef}

/-- A token stands in a text, and if it is a literal then it says what its characters mean. -/
structure Token.ReadsIn (text : List Char) (t : Token) : Prop where
  slice : t.span.slice text = t.lexeme.toList
  shape : t.kind ∈ literalKinds → literalShape? t.lexeme.toList = some t.shape

theorem Word.StandsIn.readsIn {w : Word} {t : Token} (h : w.StandsIn text t) : t.ReadsIn text :=
  ⟨h.slice, h.shape⟩

theorem Arena.name?_of_writes {id : Identifier} {name : String} (hw : id.Writes name)
    (h : a.get? r = some id.node) : a.name? r = some name := by
  simp only [name?, h, Identifier.node, hw.missing, hw.name]

theorem Arena.literal?_of_readsIn {t : Token} (h : t.ReadsIn text) (hk : t.kind ∈ literalKinds) :
    literal? text t.span t.shape = some (.literal t.lexeme) := by
  rw [literal?, h.slice, if_pos (h.shape hk), String.ofList_toList]

/-- The node of a literal says what its token says. -/
theorem Arena.get?_of_holds_tree {t : Token} (h : a.Holds t.tree r) :
    a.get? r = some ⟨t.shape, t.span, false⟩ := by
  unfold Token.tree at h
  unfold Token.shape
  split at h <;> simp_all [Arena.Holds]

/-- An initializer reads back as what it writes, if its value does. -/
theorem Arena.initializer?_of_writes {read : NodeRef → Option Expr} {id : Option Identifier}
    {e : Option String × Expr} {n v : NodeRef} {span : Span}
    (h : a.get? r = some ⟨.initializer n v, span, false⟩) (hn : a.HoldsName id n)
    (hw : Option.Rel Identifier.Writes id e.1) (hv : read v = some e.2) :
    a.initializer? read r = some e := by
  obtain ⟨name, e⟩ := e
  have hs : a.shape? r = some (.initializer n v) := shape?_of_get? h
  cases hw with
  | none =>
    obtain rfl : n = none := hn
    simp only [initializer?, hs, hv, Option.map_some]
  | @some id name hw =>
    have hname := name?_of_writes hw hn
    cases n with
    | none => cases hn
    | some n => simp only [initializer?, hs, hname, hv]; rfl

theorem Arena.mapM_initializer?_of_writes {read : NodeRef → Option Expr}
    {entries : List (Initializer SyntaxTree)} {es : List (Option String × Expr)}
    {nodes : List NodeRef} (h : a.HoldsEntries entries nodes)
    (hn : List.Forall₂ (fun entry e => Option.Rel Identifier.Writes entry.name e.1) entries es)
    (hv : ∀ x ∈ entries.zip es, ∀ v, a.Holds x.1.value v → read v = some x.2.2) :
    nodes.mapM (a.initializer? read) = some es := by
  induction hn generalizing nodes with
  | nil =>
    obtain rfl : nodes = [] := h
    rfl
  | @cons entry e entries es hname _ ih =>
    obtain ⟨name, value, span⟩ := entry
    obtain ⟨node, rest, n, v, rfl, hnode, hheld, hvalue, hrest⟩ := h
    rw [List.zip_cons_cons, List.forall_mem_cons] at hv
    have hentry := initializer?_of_writes hnode hheld hname (hv.1 v hvalue)
    simp only [List.mapM_cons, hentry, ih hrest hv.2]
    rfl

/-- The value of an initializer has less nodes than all initializers together. -/
theorem SyntaxTree.nodeCount_le_entryCount {entry : Initializer SyntaxTree}
    {entries : List (Initializer SyntaxTree)} (h : entry ∈ entries) :
    entry.value.nodeCount ≤ entryCount entries := by
  induction entries with
  | nil => cases h
  | cons first entries ih =>
    obtain ⟨name, value, span⟩ := first
    simp only [entryCount]
    rcases List.mem_cons.1 h with rfl | h
    · show value.nodeCount ≤ _
      omega
    · have := ih h
      omega

/-- **A node that holds the tree of an expression reads back as the expression.** -/
theorem Arena.readFrom?_of_writes {tree : SyntaxTree} {e : Expr}
    (hw : tree.Writes (Token.ReadsIn text) e) {n : Nat} (hn : tree.nodeCount ≤ n)
    (h : a.Holds tree r) : a.readFrom? text n r = some e := by
  induction n generalizing tree e r with
  | zero => cases tree <;> simp [SyntaxTree.nodeCount] at hn
  | succ n ih =>
    cases hw with
    | @literal t ht hk =>
      have hnode := get?_of_holds_tree h
      have hread := literal?_of_readsIn ht hk
      revert hnode hread
      generalize hshape : t.shape = shape
      intro hnode hread
      have hkind : (∃ kind, shape = .token kind) ∨ ∃ value chars flags,
          shape = .literal value chars flags := by
        subst hshape
        unfold Token.shape
        split <;> simp
      rcases hkind with ⟨kind, rfl⟩ | ⟨value, chars, flags, rfl⟩
      all_goals
        simp only [readFrom?, hnode]
        exact hread
    | name hid =>
      have hnode : a.get? r = _ := h
      simp only [readFrom?, hnode, Identifier.node, hid.missing, hid.name]
    | paren hi =>
      obtain ⟨i, hnode, hinner⟩ := h
      rw [SyntaxTree.nodeCount] at hn
      simp only [readFrom?, hnode, ih hi (by omega) hinner]
      rfl
    | access ht hm =>
      obtain ⟨t, m, hnode, htarget, hmember⟩ := h
      rw [SyntaxTree.nodeCount] at hn
      simp only [readFrom?, hnode, ih ht (by omega) htarget, name?_of_writes hm hmember]
      rfl
    | call ht hm =>
      obtain ⟨c, hcall, t, m, hnode, htarget, hmember⟩ := h
      rw [SyntaxTree.nodeCount, SyntaxTree.nodeCount] at hn
      simp only [readFrom?, hcall, hnode, ih ht (by omega) htarget, name?_of_writes hm hmember]
      rfl
    | @update receiver e entries es list span hr hnames hv =>
      obtain ⟨c, nodes, hnode, hreceiver, hentries⟩ := h
      rw [SyntaxTree.nodeCount] at hn
      have hread := mapM_initializer?_of_writes hentries hnames fun x hx v hvalue => by
        have := SyntaxTree.nodeCount_le_entryCount (List.of_mem_zip hx).1
        exact ih (hv x hx) (by omega) hvalue
      simp only [readFrom?, hnode, ih hr (by omega) hreceiver, hread]
      rfl

end Writes

/-! ## Texts -/

section Texts

variable {e : Expr} {text : String}

/-- **An expression that is written down is read without a problem**, as its tree. -/
theorem parse_of_spaced (hd : e.Within maxParseDepth) (hv : ∀ w ∈ e.words, w.IsValid)
    (hs : Spaced e.words text.toList) :
    (parse text).problems = [] ∧ (parse text).tree.Writes (Token.ReadsIn text.toList) e := by
  obtain ⟨ts, stop, htokens, hwords⟩ := Token.ofText_of_spaced hs hv
  have hlast : (Token.ofText text.toList).dropLast = ts := by
    rw [htokens, List.dropLast_concat]
  have hall := exists_of_forall₂ hwords.flip
  have hproblem : ∀ t ∈ Token.ofText text.toList, t.problem? = none ∧ t.InRange := by
    rw [htokens, List.forall_mem_append]
    refine ⟨fun t ht => ?_, fun t ht => ?_⟩
    · obtain ⟨w, -, hw⟩ := hall t ht
      exact ⟨hw.problem, hw.inRange⟩
    · rw [List.mem_singleton] at ht
      subst ht
      exact ⟨rfl, Token.inRange_of_ne nofun⟩
  refine parseTokens_of_spells (Token.ended_ofText _) (fun t ht => (hproblem t ht).1)
    (fun t ht => (hproblem t ht).2) hd ?_ ?_
  · rw [hlast]
    exact hwords.imp fun _ _ h => h.spells
  · rw [hlast]
    intro t ht
    obtain ⟨w, -, hw⟩ := hall t ht
    exact hw.readsIn

/-- The arena of a text reads back as what its tree writes. -/
theorem Parsed.read?_of_writes {p : Parsed} (hw : p.tree.Writes (Token.ReadsIn text.toList) e) :
    p.arena.read? text (some p.root) = some e := by
  refine Arena.readFrom?_of_writes hw ?_ p.holds_root
  have hsize := SyntaxTree.size_layOut p.tree {}
  show _ ≤ (p.tree.layOut {}).2.size
  omega

/-- **An expression that is written down reads back**: its text, with any blanks between the words,
has no problems, and the arena of the text stands for the expression. -/
theorem read?_parse_of_spaced (hd : e.Within maxParseDepth) (hv : ∀ w ∈ e.words, w.IsValid)
    (hs : Spaced e.words text.toList) :
    (parse text).problems = [] ∧
      (parse text).arena.read? text (some (parse text).root) = some e := by
  obtain ⟨hp, hw⟩ := parse_of_spaced hd hv hs
  exact ⟨hp, Parsed.read?_of_writes hw⟩

/-- An update of what a call returns, with a name, a bare update and a comma behind it. -/
theorem read?_parse_of_line :
    (parse " d . Next ( ) with { X = 1 , d with { } , } with { }").problems = [] ∧
      (parse " d . Next ( ) with { X = 1 , d with { } , } with { }").arena.read?
          " d . Next ( ) with { X = 1 , d with { } , } with { }"
          (some (parse " d . Next ( ) with { X = 1 , d with { } , } with { }").root) =
        some (.update (.update (.call (.name "d") "Next")
          [(some "X", .literal "1"), (none, .update (.name "d") [] false)] true) [] false) := by
  refine read?_parse_of_spaced ?_ (by decide +kernel) ?_
  · refine .update (.update (.call .name trivial) ?_ (by simp)) (by simp) (by simp)
    simp only [List.forall_mem_cons]
    exact ⟨.literal, .update .name (by simp) (by simp), by simp⟩
  · convert Word.spaced_line _ using 1
    decide +kernel

end Texts

end UpdateExpr
