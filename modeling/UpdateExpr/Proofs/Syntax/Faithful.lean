import UpdateExpr.Proofs.Syntax.Extent
import UpdateExpr.Proofs.Syntax.Holds
import UpdateExpr.Proofs.Syntax.Moved

/-!
# Nodes that stand for themselves

In a text without problems every node stands for the part of the text at its span. The parts of a
node stand in it, one behind another, and what stands at the span of an expression is, as a text of
its own, read as this expression again.

A node is made of the tokens between two places. So where it stands is known from the places, and
the text between them has the same tokens, only that their spans are counted from the start of that
text.

## Main definitions

* `Span.Chain`: spans that stand one behind another
* `Position.Clean`: tokens without problems that lead from one place to another
* `Arena.ReadsAlone`: the text at a span is read as what a node holds
* `Arena.Faithful`: a node stands for the text at its span

## Main results

* `Forms.parse_slice`: the text of a tree is read as the tree
* `parse_faithful`: every node of a text without problems stands for the text at its span
-/

namespace UpdateExpr

/-! ## Spans one behind another -/

namespace Span

/-- Spans that are not empty stand one behind another between two positions. -/
def Chain : Nat → Nat → List Span → Prop
  | lo, hi, [] => lo ≤ hi
  | lo, hi, s :: ss => lo ≤ s.start ∧ s.start < s.stop ∧ Chain s.stop hi ss

variable {lo hi lo' hi' : Nat} {ss : List Span}

theorem Chain.le (h : Chain lo hi ss) : lo ≤ hi := by
  induction ss generalizing lo with
  | nil => exact h
  | cons s ss ih =>
    obtain ⟨hlo, hlt, hss⟩ := h
    exact Nat.le_trans hlo (Nat.le_trans (Nat.le_of_lt hlt) (ih hss))

theorem Chain.mono (h : Chain lo hi ss) (hlo : lo' ≤ lo) (hhi : hi ≤ hi') :
    Chain lo' hi' ss := by
  induction ss generalizing lo lo' with
  | nil => exact Nat.le_trans hlo (Nat.le_trans h hhi)
  | cons s ss ih =>
    obtain ⟨hs, hlt, hss⟩ := h
    exact ⟨Nat.le_trans hlo hs, hlt, ih hss (Nat.le_refl _)⟩

/-- Each of the spans lies between the two positions. -/
theorem Chain.within (h : Chain lo hi ss) : ∀ s ∈ ss, lo ≤ s.start ∧ s.stop ≤ hi := by
  induction ss generalizing lo with
  | nil => exact nofun
  | cons s ss ih =>
    obtain ⟨hlo, hlt, hss⟩ := h
    intro s' hs'
    rcases List.mem_cons.1 hs' with rfl | hs'
    · exact ⟨hlo, hss.le⟩
    · obtain ⟨hstart, hstop⟩ := ih hss s' hs'
      exact ⟨by omega, hstop⟩

theorem Chain.pairwise (h : Chain lo hi ss) : ss.Pairwise fun s s' => s.stop ≤ s'.start := by
  induction ss generalizing lo with
  | nil => exact .nil
  | cons s ss ih =>
    obtain ⟨-, -, hss⟩ := h
    exact .cons (fun s' hs' => (hss.within s' hs').1) (ih hss)

end Span

/-! ## Tokens between two places -/

namespace Position

variable {text : List Char} {p q r : Position} {ts us : List Token} {t : Token}

/-- From a place of a text, some tokens lead to another place, and none of them has a problem. -/
structure Clean (text : List Char) (p : Position) (ts : List Token) (q : Position) : Prop where
  of : p.Of text
  yields : p.Yields ts q
  sound : ∀ t ∈ ts, t.problem? = none

theorem Clean.append (h : Clean text p (ts ++ us) r) :
    ∃ q, Clean text p ts q ∧ Clean text q us r := by
  obtain ⟨q, hts, hus⟩ := yields_append.1 h.yields
  obtain ⟨hsound, hsound'⟩ := List.forall_mem_append.1 h.sound
  exact ⟨q, ⟨h.of, hts, hsound⟩, hts.leads.of h.of, hus, hsound'⟩

theorem Clean.cons (h : Clean text p (t :: ts) q) :
    t.span = ⟨p.tokenStart, p.after.offset⟩ ∧ p.tokenStart < p.after.offset ∧
      Clean text p.after ts q := by
  obtain ⟨hk, rfl, hyields⟩ := yields_cons.1 h.yields
  exact ⟨p.token_span, tokenStart_lt_after hk, h.of.after, hyields,
    (List.forall_mem_cons.1 h.sound).2⟩

theorem Clean.nil (h : Clean text p [] q) : q = p :=
  yields_nil.1 h.yields

theorem Clean.le (h : Clean text p ts q) : p.offset ≤ q.offset :=
  h.yields.leads.le

theorem Clean.endOf_eq (h : Clean text p ts q) : endOf p.offset ts = q.offset := by
  induction ts generalizing p with
  | nil => rw [h.nil, endOf_nil]
  | cons t ts ih =>
    obtain ⟨hspan, -, hts⟩ := h.cons
    rw [endOf_cons, hspan, ih hts]

/-- Where some tokens stand. -/
theorem Clean.span_eq (h : Clean text p (t :: ts) q) :
    Span.mk t.span.start (endOf t.span.stop ts) = ⟨p.tokenStart, q.offset⟩ := by
  obtain ⟨hspan, -, hts⟩ := h.cons
  rw [hspan, hts.endOf_eq]

theorem Clean.lt (h : Clean text p (t :: ts) q) : p.tokenStart < q.offset := by
  obtain ⟨-, hlt, hts⟩ := h.cons
  exact Nat.lt_of_lt_of_le hlt hts.le

end Position

open Position

section Forms

variable {text : List Char} {p q : Position} {ts : List Token} {n : Nat} {e : SyntaxTree}
  {nested : List Token → SyntaxTree → Prop}

/-- A tree stands between the places of its tokens. -/
theorem FormsLevel.span_eq_of_clean (h : FormsLevel nested ts e) (hc : Clean text p ts q) :
    e.span = ⟨p.tokenStart, q.offset⟩ ∧ p.tokenStart < q.offset := by
  obtain ⟨t, us, rfl, hspan⟩ := h.span_eq
  exact ⟨hspan.trans hc.span_eq, hc.lt⟩

theorem Forms.span_eq_of_clean (h : Forms n ts e) (hc : Clean text p ts q) :
    e.span = ⟨p.tokenStart, q.offset⟩ ∧ p.tokenStart < q.offset := by
  obtain ⟨t, us, rfl, hspan⟩ := h.span_eq
  exact ⟨hspan.trans hc.span_eq, hc.lt⟩

theorem FormsEntry.span_eq_of_clean {entry : Initializer SyntaxTree}
    (h : FormsEntry nested ts entry) (hc : Clean text p ts q) :
    entry.span = ⟨p.tokenStart, q.offset⟩ ∧ p.tokenStart < q.offset := by
  cases h with
  | bare _ | named _ _ _ => exact ⟨hc.span_eq, hc.lt⟩

/-- Initializers stand one behind another. -/
theorem FormsEntries.chain {entries : List (Initializer SyntaxTree)} {trailing : Bool}
    (h : FormsEntries nested ts entries trailing) (hc : Clean text p ts q) :
    Span.Chain p.offset q.offset (entries.map Initializer.span) := by
  induction h generalizing p with
  | nil => exact hc.le
  | last h =>
    obtain ⟨hspan, hlt⟩ := h.span_eq_of_clean hc
    rw [List.map_singleton, hspan]
    exact ⟨p.offset_le_tokenStart, hlt, Nat.le_refl _⟩
  | trailing h _ =>
    obtain ⟨r, hc, hcomma⟩ := hc.append
    obtain ⟨hspan, hlt⟩ := h.span_eq_of_clean hc
    rw [List.map_singleton, hspan]
    exact ⟨p.offset_le_tokenStart, hlt, hcomma.le⟩
  | cons h _ _ _ ih =>
    obtain ⟨r, hc, hmore⟩ := hc.append
    obtain ⟨-, -, hmore⟩ := hmore.cons
    obtain ⟨hspan, hlt⟩ := h.span_eq_of_clean hc
    rw [List.map_cons, hspan]
    exact ⟨p.offset_le_tokenStart, hlt, (ih hmore).mono r.offset_le_after (Nat.le_refl _)⟩

/-- **The text of a tree is read as the tree**, at its place in that text. -/
theorem Forms.parse_slice (h : Forms n ts e) (hn : n ≤ maxParseDepth) (hc : Clean text p ts q) :
    (parse (.ofList (e.span.slice text))).problems = [] ∧
      (parse (.ofList (e.span.slice text))).tree.mapSpans (· + e.span.start) = e := by
  obtain ⟨t, us, rfl, -⟩ := h.span_eq
  obtain ⟨hspan, -⟩ := h.span_eq_of_clean hc
  have hstart : e.span.start = p.tokenStart := by rw [hspan]
  have htokens := hc.yields.ofText_slice hc.of (List.cons_ne_nil _ _)
  rw [← hspan, ← hstart] at htokens
  generalize e.span.slice text = slice at htokens ⊢
  have hsound : ∀ t ∈ Token.ofText slice, t.problem? = none := by
    refine problem?_of_mem_tokens fun t ht => ?_
    have hmoved := hc.sound (t.mapSpan (· + e.span.start)) (by
      rw [htokens]
      exact List.mem_map_of_mem ht)
    rw [Token.problem?, Option.map_eq_none_iff] at hmoved ⊢
    exact hmoved
  -- The tokens of the slice form the tree that was there before it was moved to its place.
  rw [htokens] at h
  obtain ⟨e', hforms, heq⟩ := h.exists_of_moved
  obtain ⟨hproblems, htree⟩ := parseTokens_of_forms (Token.ended_ofText slice) hsound (hforms _ hn)
  rw [parse, String.toList_ofList, htree]
  exact ⟨hproblems, heq⟩

end Forms

/-! ## Nodes -/

namespace Arena

/-- Where a node stands; a reference to none stands nowhere. -/
def spanAt? (a : Arena) (r : NodeRef) : Option Span :=
  (a.get? r).map Node.span

/-- The text at a span is read without problems, and as what an arena holds at a node, but for the
place where it stands. -/
structure ReadsAlone (a : Arena) (text : List Char) (r : NodeRef) (s : Span) : Prop where
  problems : (parse (.ofList (s.slice text))).problems = []
  same : ∃ e, (parse (.ofList (s.slice text))).arena.Holds e
      (some (parse (.ofList (s.slice text))).root) ∧
    a.Holds (e.mapSpans (· + s.start)) r

/-- A node stands for the text at its span: the nodes it refers to stand in it, one behind another,
and an expression is what the text is read as. -/
structure Faithful (a : Arena) (text : List Char) (n : Node) : Prop where
  lt : n.span.start < n.span.stop
  chain : Span.Chain n.span.start n.span.stop (n.shape.parts.filterMap a.spanAt?)
  alone : (∀ name value, n.shape ≠ .initializer name value) →
    ∀ r, a.get? r = some n → a.ReadsAlone text r n.span

variable {a b : Arena} {r r' : NodeRef}

/-- What is held at a node depends on the node only. -/
theorem Holds.congr {e : SyntaxTree} (h : a.Holds e r) (hr : a.get? r = a.get? r') :
    a.Holds e r' := by
  cases e <;> simpa only [Holds, hr] using h

end Arena

section Nodes

variable {text : List Char} {p q : Position} {ts : List Token} {n : Nat} {e : SyntaxTree}
  {a b : Arena}

/-- What tokens form is read from their text alone, wherever it is held. -/
theorem Forms.readsAlone (h : Forms n ts e) (hn : n ≤ maxParseDepth) (hc : Clean text p ts q)
    {r : NodeRef} (hr : b.Holds e r) : b.ReadsAlone text r e.span := by
  obtain ⟨hproblems, htree⟩ := h.parse_slice hn hc
  refine ⟨hproblems, _, Parsed.holds_root _, ?_⟩
  rw [htree]
  exact hr

/-- The node of an expression stands for its text, if its parts stand one behind another. -/
theorem Forms.faithful (h : Forms n ts e) (hn : n ≤ maxParseDepth) (hc : Clean text p ts q)
    (hb : (e.layOut a).2 ≤ b) {m : Node} (hm : b.get? (some (e.layOut a).1) = some m)
    (hs : m.span = e.span)
    (hparts : Span.Chain p.tokenStart q.offset (m.shape.parts.filterMap b.spanAt?)) :
    b.Faithful text m := by
  obtain ⟨hspan, hlt⟩ := h.span_eq_of_clean hc
  refine ⟨?_, ?_, fun _ r hr => ?_⟩
  · rw [hs, hspan]
    exact hlt
  · rw [hs, hspan]
    exact hparts
  · rw [hs]
    exact h.readsAlone hn hc (((e.holds_layOut a).mono hb).congr (hm.trans hr.symm))

end Nodes

/-! ### Parts -/

section Parts

variable {a b : Arena}

theorem Arena.spanAt?_of_le {r : NodeRef} {n : Node} (h : a ≤ b) (hn : a.get? r = some n) :
    b.spanAt? r = some n.span := by
  rw [spanAt?, get?_of_le h hn, Option.map_some]

theorem SyntaxTree.spanAt?_layOut (t : SyntaxTree) (h : (t.layOut a).2 ≤ b) :
    b.spanAt? (some (t.layOut a).1) = some t.span := by
  cases t <;> exact Arena.spanAt?_of_le h (Arena.get?_push_size _ _)

theorem Identifier.spanAt?_push (id : Identifier) (h : a.push id.node ≤ b) :
    b.spanAt? (some a.size) = some id.span :=
  Arena.spanAt?_of_le h (Arena.get?_push_size _ _)

/-- The nodes of a name and a value added to an arena, and the node of their initializer. -/
def Initializer.layOut (entry : Initializer SyntaxTree) (a : Arena) : Nat × Arena :=
  (entry.value.layOut (a.addName entry.name).2).2.add
    ⟨.initializer (a.addName entry.name).1
      (some (entry.value.layOut (a.addName entry.name).2).1), entry.span, false⟩

theorem SyntaxTree.layOutEntries_cons_eq (entry : Initializer SyntaxTree)
    (entries : List (Initializer SyntaxTree)) (a : Arena) :
    layOutEntries (entry :: entries) a =
      (some (entry.layOut a).1 :: (layOutEntries entries (entry.layOut a).2).1,
        (layOutEntries entries (entry.layOut a).2).2) := rfl

theorem SyntaxTree.spansAt_layOutEntries (entries : List (Initializer SyntaxTree))
    (h : (layOutEntries entries a).2 ≤ b) :
    (layOutEntries entries a).1.filterMap b.spanAt? = entries.map Initializer.span := by
  induction entries generalizing a with
  | nil => rfl
  | cons entry entries ih =>
    have hrest := (le_layOutEntries entries (entry.layOut a).2).trans h
    have hnode : b.spanAt? (some (entry.layOut a).1) = some entry.span :=
      Arena.spanAt?_of_le hrest (Arena.get?_push_size _ _)
    rw [layOutEntries_cons_eq]
    exact (List.filterMap_cons_some hnode).trans (congrArg (entry.span :: ·) (ih h))

end Parts

/-! ### Trees -/

section Trees

variable {text : List Char} {p q : Position} {ts : List Token} {n : Nat} {e : SyntaxTree}
  {a b : Arena}

/-- The nodes of what some tokens form stand for themselves when they are laid out. -/
def LaysFaithful (text : List Char) (b : Arena) (ts : List Token) (e : SyntaxTree) : Prop :=
  ∀ {p q : Position} {a : Arena}, Clean text p ts q → (e.layOut a).2 ≤ b →
    a.All (b.Faithful text) → (e.layOut a).2.All (b.Faithful text)

/-- What is laid out last stands for itself, if its parts stand one behind another. -/
theorem Forms.all_push {m : Node} (h : Forms n ts e) (hn : n ≤ maxParseDepth)
    (hc : Clean text p ts q) {a' : Arena} (he : e.layOut a = a'.add m) (hb : a'.push m ≤ b)
    (hs : m.span = e.span)
    (hparts : Span.Chain p.tokenStart q.offset (m.shape.parts.filterMap b.spanAt?))
    (ha : a'.All (b.Faithful text)) : (a'.push m).All (b.Faithful text) := by
  refine ha.push (h.faithful (a := a) hn hc (by rw [he]; exact hb) ?_ hs hparts)
  rw [he]
  exact Arena.get?_of_le hb (Arena.get?_push_size a' m)

/-- A node that refers to no others stands for itself. -/
theorem Forms.all_push_leaf {m : Node} (h : Forms n ts e) (hn : n ≤ maxParseDepth)
    (hc : Clean text p ts q) (he : e.layOut a = a.add m) (hb : a.push m ≤ b) (hs : m.span = e.span)
    (hparts : m.shape.parts = []) (ha : a.All (b.Faithful text)) :
    (a.push m).All (b.Faithful text) := by
  refine h.all_push hn hc he hb hs ?_ ha
  rw [hparts]
  exact Nat.le_of_lt (h.span_eq_of_clean hc).2

theorem Identifier.all_push {t : Token} (hk : t.kind = .identifier)
    (hc : Clean text p [t] q) (hb : a.push t.identifier.node ≤ b)
    (ha : a.All (b.Faithful text)) : (a.push t.identifier.node).All (b.Faithful text) :=
  Forms.all_push_leaf (n := 1) (FormsLevel.name hk) (by decide) hc rfl hb rfl rfl ha

theorem Token.laysFaithful_tree {t : Token} (hk : t.kind ∈ literalKinds) (hr : t.InRange) :
    LaysFaithful text b [t] t.tree := by
  intro p q a hc hb ha
  have hleaf : ∃ m, t.tree.layOut a = a.add m ∧ m.span = t.tree.span ∧ m.shape.parts = [] := by
    unfold Token.tree
    split <;> exact ⟨_, rfl, rfl, rfl⟩
  obtain ⟨m, he, hs, hparts⟩ := hleaf
  rw [he] at hb ⊢
  exact Forms.all_push_leaf (n := 1) (FormsLevel.literal hk hr) (by decide) hc he hb hs hparts ha

/-- A member stands behind its target. -/
theorem LaysFaithful.access {before : List Token} {target : SyntaxTree} {dot name : Token}
    (hn : n + 1 ≤ maxParseDepth) (h : FormsLevel (Forms n) before target) (ho : target.IsOperand)
    (hd : dot.kind = .dot) (hname : name.kind = .identifier)
    (ht : LaysFaithful text b before target) :
    LaysFaithful text b (before ++ [dot, name])
      (.access target name.identifier ⟨target.span.start, name.span.stop⟩) := by
  intro p q a hc hb ha
  have hform : Forms (n + 1) _ _ := FormsLevel.access h ho hd hname
  obtain ⟨r, hbefore, hrest⟩ := hc.append
  obtain ⟨-, -, hlast⟩ := hrest.cons
  have hbname := (Arena.le_push _ _).trans hb
  have hbtarget := (Arena.le_push _ _).trans hbname
  refine hform.all_push hn hc rfl hb rfl ?_
    (Identifier.all_push hname hlast hbname (ht hbefore hbtarget ha))
  obtain ⟨hspan, hlt⟩ := h.span_eq_of_clean hbefore
  have hmember : Forms (n + 1) [name] _ := FormsLevel.name hname
  obtain ⟨hspan', hlt'⟩ := hmember.span_eq_of_clean hlast
  have htarget := target.spanAt?_layOut hbtarget
  have hfield := name.identifier.spanAt?_push hbname
  have hle := r.after.offset_le_tokenStart
  show Span.Chain _ _ ([some _, some _].filterMap b.spanAt?)
  rw [List.filterMap_cons_some htarget, List.filterMap_cons_some hfield, hspan,
    show name.identifier.span = _ from hspan']
  exact ⟨Nat.le_refl _, hlt, Nat.le_trans r.offset_le_after hle, hlt', Nat.le_refl _⟩

/-- The nodes of an initializer stand for themselves, if this is so of those of its value. -/
theorem FormsEntry.all_layOut {entry : Initializer SyntaxTree}
    (ih : ∀ ts e, Forms n ts e → LaysFaithful text b ts e) (h : FormsEntry (Forms n) ts entry)
    (hc : Clean text p ts q) (hb : (entry.layOut a).2 ≤ b) (ha : a.All (b.Faithful text)) :
    (entry.layOut a).2.All (b.Faithful text) := by
  have hbvalue := (Arena.le_push _ _).trans hb
  obtain ⟨hspan, hlt⟩ := h.span_eq_of_clean hc
  have hpush : (entry.value.layOut (a.addName entry.name).2).2.All (b.Faithful text) →
      Span.Chain p.tokenStart q.offset ([(a.addName entry.name).1,
        some (entry.value.layOut (a.addName entry.name).2).1].filterMap b.spanAt?) →
      (entry.layOut a).2.All (b.Faithful text) := by
    refine fun hparts hchain => hparts.push ⟨?_, ?_, fun hne => absurd rfl (hne _ _)⟩
    · rw [hspan]
      exact hlt
    · rw [hspan]
      exact hchain
  have hvalue := entry.value.spanAt?_layOut hbvalue
  cases h with
  | bare h =>
    refine hpush (ih _ _ h hc hbvalue ha) ?_
    obtain ⟨hspan, hlt⟩ := h.span_eq_of_clean hc
    rw [List.filterMap_cons_none rfl, List.filterMap_cons_some hvalue, hspan]
    exact ⟨Nat.le_refl _, hlt, Nat.le_refl _⟩
  | @named name eq us value hname heq h =>
    have hsplit : Clean text p ([name] ++ eq :: us) q := hc
    obtain ⟨r, hfirst, hrest⟩ := hsplit.append
    obtain ⟨-, -, hlast⟩ := hrest.cons
    have hbname := (value.le_layOut (a.push name.identifier.node)).trans hbvalue
    refine hpush (ih _ _ h hlast hbvalue (Identifier.all_push hname hfirst hbname ha)) ?_
    have hmember : Forms (n + 1) [name] _ := FormsLevel.name hname
    obtain ⟨hspan, hlt⟩ := hmember.span_eq_of_clean hfirst
    obtain ⟨hspan', hlt'⟩ := h.span_eq_of_clean hlast
    have hfield := name.identifier.spanAt?_push hbname
    have hle := r.after.offset_le_tokenStart
    show Span.Chain _ _ ([some _, some _].filterMap b.spanAt?)
    rw [List.filterMap_cons_some hfield, List.filterMap_cons_some hvalue, hspan',
      show name.identifier.span = _ from hspan]
    exact ⟨Nat.le_refl _, hlt, Nat.le_trans r.offset_le_after hle, hlt', Nat.le_refl _⟩

theorem FormsEntries.all_layOut {entries : List (Initializer SyntaxTree)} {trailing : Bool}
    (ih : ∀ ts e, Forms n ts e → LaysFaithful text b ts e)
    (h : FormsEntries (Forms n) ts entries trailing) (hc : Clean text p ts q)
    (hb : (SyntaxTree.layOutEntries entries a).2 ≤ b) (ha : a.All (b.Faithful text)) :
    (SyntaxTree.layOutEntries entries a).2.All (b.Faithful text) := by
  induction h generalizing p a with
  | nil => exact ha
  | last h => exact h.all_layOut ih hc hb ha
  | trailing h _ =>
    obtain ⟨r, hc, -⟩ := hc.append
    exact h.all_layOut ih hc hb ha
  | cons h _ _ _ ihs =>
    obtain ⟨r, hc, hmore⟩ := hc.append
    obtain ⟨-, -, hmore⟩ := hmore.cons
    rw [SyntaxTree.layOutEntries_cons_eq] at hb ⊢
    exact ihs hmore hb (h.all_layOut ih hc ((SyntaxTree.le_layOutEntries _ _).trans hb) ha)

theorem FormsLevel.laysFaithful (hn : n + 1 ≤ maxParseDepth)
    (ih : ∀ ts e, Forms n ts e → LaysFaithful text b ts e) (h : FormsLevel (Forms n) ts e) :
    LaysFaithful text b ts e := by
  -- What is on the left goes by this induction, and what is nested by the one on the depth. A node
  -- is laid out behind its parts, whose tokens are some of its own.
  induction h with
  | literal hk hr => exact Token.laysFaithful_tree hk hr
  | name hk => exact fun hc hb ha => Identifier.all_push hk hc hb ha
  | @paren op close ts inner ho h hcl =>
    intro p q a hc hb ha
    have hform : Forms (n + 1) _ _ := FormsLevel.paren ho h hcl
    obtain ⟨-, hop, hinside⟩ := hc.cons
    obtain ⟨r, hinside, hclose⟩ := hinside.append
    have hbinner := (Arena.le_push _ _).trans hb
    refine hform.all_push hn hc rfl hb rfl ?_ (ih _ _ h hinside hbinner ha)
    obtain ⟨hspan, hlt⟩ := h.span_eq_of_clean hinside
    have hle := Nat.le_trans (Nat.le_of_lt hop) p.after.offset_le_tokenStart
    show Span.Chain _ _ ([some _].filterMap b.spanAt?)
    rw [List.filterMap_cons_some (inner.spanAt?_layOut hbinner), hspan]
    exact ⟨hle, hlt, hclose.le⟩
  | access h ho hd hname iht => exact LaysFaithful.access hn h ho hd hname iht
  | @call before target dot name op close h ho hd hname hop hcl iht =>
    intro p q a hc hb ha
    have hform : Forms (n + 1) _ _ := FormsLevel.call h ho hd hname hop hcl
    have haccess : Forms (n + 1) _ _ := FormsLevel.access h ho hd hname
    have hsplit : Clean text p ((before ++ [dot, name]) ++ [op, close]) q := by
      rw [List.append_assoc]
      exact hc
    obtain ⟨r, hmember, hmarks⟩ := hsplit.append
    have hbaccess := (Arena.le_push _ _).trans hb
    refine hform.all_push hn hc rfl hb rfl ?_
      (LaysFaithful.access hn h ho hd hname iht hmember hbaccess ha)
    obtain ⟨hspan, hlt⟩ := haccess.span_eq_of_clean hmember
    have hmember := Arena.spanAt?_of_le hbaccess (Arena.get?_push_size _ _)
    show Span.Chain _ _ ([some _].filterMap b.spanAt?)
    rw [List.filterMap_cons_some hmember, show Span.mk _ _ = _ from hspan]
    exact ⟨Nat.le_refl _, hlt, hmarks.le⟩
  | @update before us receiver key op close entries trailing h hk ho hs hcl iht =>
    intro p q a hc hb ha
    have hform : Forms (n + 1) _ _ := FormsLevel.update h hk ho hs hcl
    obtain ⟨r, hbefore, hrest⟩ := hc.append
    obtain ⟨-, -, hrest⟩ := hrest.cons
    obtain ⟨-, -, hrest⟩ := hrest.cons
    obtain ⟨r', hlist, hclose⟩ := hrest.append
    have hbentries := (Arena.le_push _ _).trans hb
    have hbreceiver := (SyntaxTree.le_layOutEntries entries _).trans hbentries
    refine hform.all_push hn hc rfl hb rfl ?_
      (hs.all_layOut ih hlist hbentries (iht hbefore hbreceiver ha))
    obtain ⟨hspan, hlt⟩ := h.span_eq_of_clean hbefore
    have hchain := hs.chain hlist
    have hle := Nat.le_trans r.offset_le_after r.after.offset_le_after
    show Span.Chain _ _ ((some _ ::
      (SyntaxTree.layOutEntries entries (receiver.layOut a).2).1).filterMap b.spanAt?)
    rw [List.filterMap_cons_some (receiver.spanAt?_layOut hbreceiver),
      SyntaxTree.spansAt_layOutEntries entries hbentries, hspan]
    exact ⟨Nat.le_refl _, hlt, hchain.mono hle hclose.le⟩

/-- **The nodes of what tokens form stand for themselves.** -/
theorem Forms.laysFaithful (h : Forms n ts e) (hn : n ≤ maxParseDepth) :
    LaysFaithful text b ts e := by
  induction n generalizing ts e with
  | zero => exact h.elim
  | succ n ih => exact FormsLevel.laysFaithful hn (fun ts e h => ih h (Nat.le_of_succ_le hn)) h

end Trees

/-- The tokens of a text lead from its start to its end. -/
theorem exists_clean {text : List Char} (h : ∀ t ∈ Token.ofText text, t.problem? = none) :
    ∃ q, Clean text (.start text) (Token.ofText text).dropLast q := by
  obtain ⟨q, -, -, hyields⟩ := (Position.start text).exists_yields_end
  exact ⟨q, of_start text, hyields, fun t ht => h t ((List.dropLast_sublist _).subset ht)⟩

/-- **Every node of a text without problems stands for the text at its span.** The span is not
empty. The nodes that the node refers to stand in it, one behind another in the order of the text.
Unless the node is an initializer, the text at its span is read, as a text of its own, without
problems, and as what the node holds: the same nodes in all but the place, which is counted from the
start of the span. -/
theorem parse_faithful {text : String} (h : (parse text).problems = []) {r : NodeRef} {n : Node}
    (hn : (parse text).arena.get? r = some n) :
    n.span.start < n.span.stop ∧
      (∀ s ∈ n.shape.parts.filterMap (parse text).arena.spanAt?,
        n.span.start ≤ s.start ∧ s.stop ≤ n.span.stop) ∧
      (n.shape.parts.filterMap (parse text).arena.spanAt?).Pairwise
        (fun s s' => s.stop ≤ s'.start) ∧
      ((∀ name value, n.shape ≠ .initializer name value) →
        (parse text).arena.ReadsAlone text.toList r n.span) := by
  obtain ⟨hsound, hforms⟩ := forms_parse h
  obtain ⟨q, hclean⟩ := exists_clean hsound
  have hall : (parse text).arena.All ((parse text).arena.Faithful text.toList) :=
    hforms.laysFaithful (Nat.le_refl _) hclean (le_refl _) Arena.all_empty
  have hnode := hall r n hn
  exact ⟨hnode.lt, hnode.chain.within, hnode.chain.pairwise, fun hne => hnode.alone hne r hn⟩

/-- A text with an update as a value in another one. -/
def updateInUpdate : String :=
  "x with { a = y.f() with { b } }"

/-- The value in such a text is an update of its own, from 13 to 29. -/
theorem parse_faithful_of_value :
    (parse updateInUpdate).problems = [] ∧
    (parse updateInUpdate).arena.get? (some 8) =
      some ⟨.update (some 5) [some 7] ⟨⟨25, 28⟩, false⟩, ⟨13, 29⟩, false⟩ ∧
    (Span.mk 13 29).slice updateInUpdate.toList = "y.f() with { b }".toList ∧
    (parse updateInUpdate).arena.ReadsAlone updateInUpdate.toList (some 8) ⟨13, 29⟩ := by
  have hp : (parse updateInUpdate).problems = [] := by decide +kernel
  have hn : (parse updateInUpdate).arena.get? (some 8) =
      some ⟨.update (some 5) [some 7] ⟨⟨25, 28⟩, false⟩, ⟨13, 29⟩, false⟩ := by
    decide +kernel
  obtain ⟨-, -, -, halone⟩ := parse_faithful hp hn
  exact ⟨hp, hn, by decide +kernel, halone nofun⟩

end UpdateExpr
