import UpdateExpr.Proofs.Syntax.Layout
import UpdateExpr.Syntax.Parser

/-!
# Trees in an arena

An arena holds a tree at a node if the node and the nodes it refers to say what the tree says, part
by part. Laying out a tree gives such a node, so that what is known of the tree can be followed
through the arena.

## Main definitions

* `Arena.Holds`: an arena holds a tree at a node

## Main results

* `Arena.Holds.mono`: a tree stays where it is when nodes are added
* `SyntaxTree.holds_layOut`: a tree that is laid out is held
-/

namespace UpdateExpr

namespace Arena

/-- An arena holds a name at a node, and nothing where there is no name. -/
def HoldsName (a : Arena) : Option Identifier → NodeRef → Prop
  | none, r => r = none
  | some id, r => a.get? r = some id.node

mutual

/-- An arena holds a tree at a node. -/
def Holds (a : Arena) : SyntaxTree → NodeRef → Prop
  | .identifier id, r => a.get? r = some id.node
  | .literal value text flags span, r => a.get? r = some ⟨.literal value text flags, span, false⟩
  | .keyword kind span, r => a.get? r = some ⟨.token kind, span, false⟩
  | .access target member span, r => ∃ t m, a.get? r = some ⟨.access t m, span, false⟩ ∧
      Holds a target t ∧ a.get? m = some member.node
  | .call target span, r => ∃ t, a.get? r = some ⟨.call t, span, false⟩ ∧ Holds a target t
  | .paren inner span, r => ∃ i, a.get? r = some ⟨.paren i, span, false⟩ ∧ Holds a inner i
  | .update receiver entries list span, r => ∃ n es,
      a.get? r = some ⟨.update n es list, span, false⟩ ∧ Holds a receiver n ∧
        HoldsEntries a entries es

/-- An arena holds some initializers at some nodes, one by one. -/
def HoldsEntries (a : Arena) : List (Initializer SyntaxTree) → List NodeRef → Prop
  | [], es => es = []
  | ⟨name, value, span⟩ :: entries, es => ∃ e rest n v, es = e :: rest ∧
      a.get? e = some ⟨.initializer n v, span, false⟩ ∧ HoldsName a name n ∧ Holds a value v ∧
        HoldsEntries a entries rest

end

variable {a a' : Arena} {r : NodeRef}

theorem HoldsName.mono {id : Option Identifier} (h : a.HoldsName id r) (hle : a ≤ a') :
    a'.HoldsName id r := by
  cases id with
  | none => exact h
  | some id => exact get?_of_le hle h

mutual

/-- **A tree stays where it is when nodes are added.** -/
theorem Holds.mono : ∀ {t : SyntaxTree} {r : NodeRef}, a.Holds t r → a ≤ a' → a'.Holds t r
  | .identifier _, _, h, hle | .literal _ _ _ _, _, h, hle | .keyword _ _, _, h, hle =>
    get?_of_le hle h
  | .access _ _ _, _, ⟨t, m, h, ht, hm⟩, hle =>
    ⟨t, m, get?_of_le hle h, ht.mono hle, get?_of_le hle hm⟩
  | .call _ _, _, ⟨t, h, ht⟩, hle | .paren _ _, _, ⟨t, h, ht⟩, hle =>
    ⟨t, get?_of_le hle h, ht.mono hle⟩
  | .update _ _ _ _, _, ⟨n, es, h, hr, he⟩, hle =>
    ⟨n, es, get?_of_le hle h, hr.mono hle, he.mono hle⟩

theorem HoldsEntries.mono : ∀ {entries : List (Initializer SyntaxTree)} {es : List NodeRef},
    a.HoldsEntries entries es → a ≤ a' → a'.HoldsEntries entries es
  | [], _, h, _ => h
  | _ :: _, _, ⟨e, rest, n, v, hes, h, hn, hv, hrest⟩, hle =>
    ⟨e, rest, n, v, hes, get?_of_le hle h, hn.mono hle, hv.mono hle, hrest.mono hle⟩

end

theorem holdsName_addName (id : Option Identifier) (a : Arena) :
    (a.addName id).2.HoldsName id (a.addName id).1 := by
  cases id with
  | none => rfl
  | some id => exact get?_push_size a id.node

end Arena

namespace SyntaxTree

open Arena

mutual

/-- **A tree that is laid out is held**, at the node of the whole. -/
theorem holds_layOut : ∀ (t : SyntaxTree) (a : Arena),
    (t.layOut a).2.Holds t (some (t.layOut a).1)
  | identifier _, a | literal _ _ _ _, a | keyword _ _, a => get?_push_size a _
  | access target member _, a => by
    have htarget := (holds_layOut target a).mono (le_push _ member.node)
    have hmember := get?_push_size (target.layOut a).2 member.node
    exact ⟨_, _, get?_push_size _ _, htarget.mono (le_push _ _), get?_of_le (le_push _ _) hmember⟩
  | call target _, a | paren target _, a =>
    ⟨_, get?_push_size _ _, (holds_layOut target a).mono (le_push _ _)⟩
  | update receiver entries _ _, a => by
    have hreceiver := (holds_layOut receiver a).mono (le_layOutEntries entries _)
    have hentries := holds_layOutEntries entries (receiver.layOut a).2
    exact ⟨_, _, get?_push_size _ _, hreceiver.mono (le_push _ _), hentries.mono (le_push _ _)⟩

theorem holds_layOutEntries : ∀ (entries : List (Initializer SyntaxTree)) (a : Arena),
    (layOutEntries entries a).2.HoldsEntries entries (layOutEntries entries a).1
  | [], _ => rfl
  | ⟨name, value, span⟩ :: entries, a => by
    have hname := (holdsName_addName name a).mono (le_layOut value _)
    have hvalue := holds_layOut value (a.addName name).2
    have hpush := le_push (value.layOut (a.addName name).2).2
      ⟨.initializer (a.addName name).1 (some (value.layOut (a.addName name).2).1), span, false⟩
    have hle := le_layOutEntries entries
      ((value.layOut (a.addName name).2).2.push
        ⟨.initializer (a.addName name).1 (some (value.layOut (a.addName name).2).1), span, false⟩)
    exact ⟨_, _, _, _, rfl, get?_of_le hle (get?_push_size _ _), hname.mono (hpush.trans hle),
      hvalue.mono (hpush.trans hle), holds_layOutEntries entries _⟩

end

end SyntaxTree

/-- The arena of a text holds the tree of the text at the root. -/
theorem Parsed.holds_root (p : Parsed) : p.arena.Holds p.tree (some p.root) :=
  p.tree.holds_layOut {}

end UpdateExpr
