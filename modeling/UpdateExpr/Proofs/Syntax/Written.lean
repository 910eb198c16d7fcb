import Mathlib.Data.List.Forall2
import Mathlib.Data.Option.Basic
import UpdateExpr.Proofs.Syntax.Grammar

/-!
# Written expressions

An expression as it is written, before it has a place in any text: a tree whose leaves are words,
and the words in which it is written down. The sequences of tokens of the grammar are those that
match the words of such an expression, so the grammar can be followed expression by expression.

## Main definitions

* `Word`, `Word.Matches`: what is written between blanks, and the tokens that it becomes
* `Expr`, `Expr.words`: an expression, and the words in which it is written
* `Expr.Within`: an expression of the grammar, of limited nesting
* `Spells`: some tokens match some words
* `SyntaxTree.Writes`: a tree is that of an expression

## Main results

* `Grammar.exists_spells`: what the grammar derives spells an expression
-/

namespace UpdateExpr

/-! ## Words -/

/-- What is written between blanks. -/
inductive Word where
  /-- A literal, by its characters. -/
  | literal (text : String)
  | name (text : String)
  /-- A token that is always written alike. -/
  | mark (kind : TokenKind)
  deriving DecidableEq, Repr

namespace Word

/-- The characters of a word. -/
def text : Word → String
  | .literal chars | .name chars => chars
  | .mark kind => kind.text

/-- A word for a comma, or none. -/
def comma (there : Bool) : List Word :=
  if there then [.mark .comma] else []

/-- The words in front of the value of an initializer. -/
def target : Option String → List Word
  | none => []
  | some member => [.name member, .mark .equals]

end Word

/-- The kinds of tokens that are literals. -/
def literalKinds : List TokenKind :=
  [.number, .string, .trueKeyword, .falseKeyword, .nullKeyword]

/-- A token is what a word becomes: a literal with its characters, a name, or a certain mark. -/
def Word.Matches : Word → Token → Prop
  | .literal text, t => t.kind ∈ literalKinds ∧ t.lexeme = text
  | .name text, t => t.kind = .identifier ∧ t.value = text
  | .mark kind, t => t.kind = kind

/-- Some tokens match some words, one by one. -/
abbrev Spells (ws : List Word) (ts : List Token) : Prop :=
  List.Forall₂ Word.Matches ws ts

/-! ## Expressions -/

/-- An expression as it is written. -/
inductive Expr where
  /-- A literal, by its characters. -/
  | literal (text : String)
  | name (text : String)
  | paren (inner : Expr)
  /-- A member of an expression. -/
  | access (target : Expr) (member : String)
  /-- A call of a member of an expression. -/
  | call (target : Expr) (member : String)
  /-- An update. Each entry has a value, and a name if it is written with one; a comma may stand
  behind the last entry. -/
  | update (receiver : Expr) (entries : List (Option String × Expr)) (trailing : Bool)
  deriving Repr

namespace Expr

mutual

/-- The words in which an expression is written. -/
def words : Expr → List Word
  | literal text => [.literal text]
  | name text => [.name text]
  | paren inner => .mark .openParen :: (words inner ++ [.mark .closeParen])
  | access target member => words target ++ [.mark .dot, .name member]
  | call target member =>
    words target ++ [.mark .dot, .name member, .mark .openParen, .mark .closeParen]
  | update receiver entries trailing =>
    words receiver ++ .mark .withKeyword :: .mark .openBrace ::
      (entryWords trailing entries ++ [.mark .closeBrace])

/-- The words of some initializers, with a comma behind each but the last, and maybe there. -/
def entryWords (trailing : Bool) : List (Option String × Expr) → List Word
  | [] => []
  | (name?, value) :: rest =>
    Word.target name? ++
      (words value ++ (Word.comma (trailing || !rest.isEmpty) ++ entryWords trailing rest))

end

/-- Members of an expression can be written behind it. -/
def IsOperand : Expr → Prop
  | update _ _ _ => False
  | _ => True

/-- An expression of the grammar in which any expression has less than a number of parentheses and
initializers around it. -/
inductive Within : Nat → Expr → Prop
  | literal {n : Nat} {text : String} : Within (n + 1) (.literal text)
  | name {n : Nat} {text : String} : Within (n + 1) (.name text)
  | paren {n : Nat} {inner : Expr} (h : Within n inner) : Within (n + 1) (.paren inner)
  | access {n : Nat} {target : Expr} {member : String} (h : Within (n + 1) target)
    (ho : target.IsOperand) : Within (n + 1) (.access target member)
  | call {n : Nat} {target : Expr} {member : String} (h : Within (n + 1) target)
    (ho : target.IsOperand) : Within (n + 1) (.call target member)
  | update {n : Nat} {receiver : Expr} {entries : List (Option String × Expr)} {trailing : Bool}
    (hr : Within (n + 1) receiver) (he : ∀ entry ∈ entries, Within n entry.2)
    (ht : trailing = true → entries ≠ []) : Within (n + 1) (.update receiver entries trailing)

end Expr

/-! ## Tokens that spell -/

section Spells

variable {w : Word} {vs ws : List Word} {t : Token} {ts us : List Token}

theorem spells_cons : Spells (w :: ws) ts ↔ ∃ t us, w.Matches t ∧ Spells ws us ∧ ts = t :: us :=
  List.forall₂_cons_left_iff

theorem spells_singleton : Spells [w] ts ↔ ∃ t, w.Matches t ∧ ts = [t] := by
  simp [spells_cons]

/-- Some words behind others are spelled by tokens behind others. -/
theorem spells_append : Spells (vs ++ ws) ts ↔
    ∃ us us', Spells vs us ∧ Spells ws us' ∧ ts = us ++ us' := by
  induction vs generalizing ts with
  | nil => simp
  | cons v vs ih =>
    simp only [List.cons_append, spells_cons, ih]
    constructor
    · rintro ⟨t, _, ht, ⟨us, us', hu, hu', rfl⟩, rfl⟩
      exact ⟨t :: us, us', ⟨t, us, ht, hu, rfl⟩, hu', rfl⟩
    · rintro ⟨_, us', ⟨t, us, ht, hu, rfl⟩, hu', rfl⟩
      exact ⟨t, us ++ us', ht, ⟨us, us', hu, hu', rfl⟩, rfl⟩

theorem Spells.append (h : Spells ws ts) (h' : Spells vs us) : Spells (ws ++ vs) (ts ++ us) :=
  List.rel_append h h'

theorem Spells.cons (h : w.Matches t) (hs : Spells ws ts) : Spells (w :: ws) (t :: ts) :=
  List.Forall₂.cons h hs

theorem Spells.single (h : w.Matches t) : Spells [w] [t] :=
  List.Forall₂.cons h .nil

theorem spells_comma {there : Bool} : Spells (Word.comma there) ts ↔
    (there = false ∧ ts = []) ∨ (there = true ∧ ∃ t, t.kind = .comma ∧ ts = [t]) := by
  cases there <;> simp [Word.comma, spells_cons, Word.Matches]

theorem paren_spells {e : Expr} (h : Spells (Expr.paren e).words ts) :
    ∃ op inner close, ts = op :: (inner ++ [close]) ∧ op.kind = .openParen ∧
      Spells e.words inner ∧ close.kind = .closeParen := by
  obtain ⟨op, us, ho, hus, rfl⟩ := spells_cons.1 h
  obtain ⟨inner, last, hi, hlast, rfl⟩ := spells_append.1 hus
  obtain ⟨close, hc, rfl⟩ := spells_singleton.1 hlast
  exact ⟨op, inner, close, rfl, ho, hi, hc⟩

theorem access_spells {e : Expr} {member : String} (h : Spells (Expr.access e member).words ts) :
    ∃ before dot name, ts = before ++ [dot, name] ∧ Spells e.words before ∧ dot.kind = .dot ∧
      (Word.name member).Matches name := by
  obtain ⟨before, us, hbefore, hus, rfl⟩ := spells_append.1 h
  obtain ⟨dot, last, hd, hlast, rfl⟩ := spells_cons.1 hus
  obtain ⟨name, hn, rfl⟩ := spells_singleton.1 hlast
  exact ⟨before, dot, name, rfl, hbefore, hd, hn⟩

theorem call_spells {e : Expr} {member : String} (h : Spells (Expr.call e member).words ts) :
    ∃ before dot name op close, ts = before ++ [dot, name, op, close] ∧ Spells e.words before ∧
      dot.kind = .dot ∧ (Word.name member).Matches name ∧ op.kind = .openParen ∧
      close.kind = .closeParen := by
  obtain ⟨before, us, hbefore, hus, rfl⟩ := spells_append.1 h
  obtain ⟨dot, us₁, hd, hus₁, rfl⟩ := spells_cons.1 hus
  obtain ⟨name, us₂, hn, hus₂, rfl⟩ := spells_cons.1 hus₁
  obtain ⟨op, last, ho, hlast, rfl⟩ := spells_cons.1 hus₂
  obtain ⟨close, hc, rfl⟩ := spells_singleton.1 hlast
  exact ⟨before, dot, name, op, close, rfl, hbefore, hd, hn, ho, hc⟩

theorem update_spells {e : Expr} {entries : List (Option String × Expr)} {trailing : Bool}
    (h : Spells (Expr.update e entries trailing).words ts) :
    ∃ before key op es close, ts = before ++ key :: op :: (es ++ [close]) ∧
      Spells e.words before ∧ key.kind = .withKeyword ∧ op.kind = .openBrace ∧
      Spells (Expr.entryWords trailing entries) es ∧ close.kind = .closeBrace := by
  obtain ⟨before, us, hbefore, hus, rfl⟩ := spells_append.1 h
  obtain ⟨key, us₁, hk, hus₁, rfl⟩ := spells_cons.1 hus
  obtain ⟨op, us₂, ho, hus₂, rfl⟩ := spells_cons.1 hus₁
  obtain ⟨es, last, hes, hlast, rfl⟩ := spells_append.1 hus₂
  obtain ⟨close, hc, rfl⟩ := spells_singleton.1 hlast
  exact ⟨before, key, op, es, close, rfl, hbefore, hk, ho, hes, hc⟩

/-- The tokens of an initializer are those of its value, with a name and an equals sign in front if
it has a name. -/
theorem entry_spells {entry : Option String × Expr}
    (h : Spells (Word.target entry.1 ++ entry.2.words) ts) :
    (entry.1 = none ∧ Spells entry.2.words ts) ∨
      ∃ text name eq value, entry.1 = some text ∧ ts = name :: eq :: value ∧
        (Word.name text).Matches name ∧ eq.kind = .equals ∧ Spells entry.2.words value := by
  obtain ⟨target, value, htarget, hvalue, rfl⟩ := spells_append.1 h
  cases hname : entry.1 with
  | none =>
    rw [hname] at htarget
    obtain rfl : target = [] := List.forall₂_nil_left_iff.1 htarget
    exact .inl ⟨rfl, hvalue⟩
  | some text =>
    rw [hname] at htarget
    obtain ⟨name, us, hn, hus, rfl⟩ := spells_cons.1 htarget
    obtain ⟨eq, he, rfl⟩ := spells_singleton.1 hus
    exact .inr ⟨text, name, eq, value, rfl, rfl, hn, he, hvalue⟩

/-- The tokens of some initializers are those of the first one, a comma unless it is the last one
and has none behind it, and those of the others. -/
theorem entries_spell {entry : Option String × Expr} {es : List (Option String × Expr)}
    {trailing : Bool} (h : Spells (Expr.entryWords trailing (entry :: es)) ts) :
    ∃ first comma more, ts = first ++ (comma ++ more) ∧
      Spells (Word.target entry.1 ++ entry.2.words) first ∧
      Spells (Word.comma (trailing || !es.isEmpty)) comma ∧
      Spells (Expr.entryWords trailing es) more := by
  have hassoc : Spells ((Word.target entry.1 ++ entry.2.words) ++
      (Word.comma (trailing || !es.isEmpty) ++ Expr.entryWords trailing es)) ts := by
    simpa only [Expr.entryWords, List.append_assoc] using h
  obtain ⟨first, us, hfirst, hus, rfl⟩ := spells_append.1 hassoc
  obtain ⟨comma, more, hcomma, hmore, rfl⟩ := spells_append.1 hus
  exact ⟨first, comma, more, rfl, hfirst, hcomma, hmore⟩

end Spells

open Grammar

/-! ## Trees that write expressions -/

section Trees

/-- A name of a tree is a certain one, and is not missing. -/
structure Identifier.Writes (id : Identifier) (text : String) : Prop where
  name : id.name = text
  missing : id.missing = false

/-- The tree of a token that is a literal. -/
def Token.tree (t : Token) : SyntaxTree :=
  match t.kind with
  | .number => .literal (.ofNumber t.value.toList t.flags) t.value t.flags t.span
  | .string => .literal (.text t.value) t.lexeme t.flags t.span
  | kind => .keyword kind t.span

/-- A tree is that of an expression, with tokens of a kind as its literals. Where its parts stand in
the text does not matter. -/
inductive SyntaxTree.Writes (p : Token → Prop) : SyntaxTree → Expr → Prop
  | literal {t : Token} (h : p t) (hk : t.kind ∈ literalKinds) : Writes p t.tree (.literal t.lexeme)
  | name {id : Identifier} {text : String} (h : id.Writes text) :
    Writes p (.identifier id) (.name text)
  | paren {inner : SyntaxTree} {e : Expr} {span : Span} (h : Writes p inner e) :
    Writes p (.paren inner span) (.paren e)
  | access {target : SyntaxTree} {e : Expr} {id : Identifier} {member : String} {span : Span}
    (h : Writes p target e) (hm : id.Writes member) :
    Writes p (.access target id span) (.access e member)
  | call {target : SyntaxTree} {e : Expr} {id : Identifier} {member : String} {inner span : Span}
    (h : Writes p target e) (hm : id.Writes member) :
    Writes p (.call (.access target id inner) span) (.call e member)
  | update {receiver : SyntaxTree} {e : Expr} {entries : List (Initializer SyntaxTree)}
    {es : List (Option String × Expr)} {list : ListSpan} {span : Span} (hr : Writes p receiver e)
    (hn : List.Forall₂ (fun entry e => Option.Rel Identifier.Writes entry.name e.1) entries es)
    (hv : ∀ x ∈ entries.zip es, Writes p x.1.value x.2.2) :
    Writes p (.update receiver entries list span) (.update e es list.trailingComma)

/-- An initializer of a tree is that of an expression. -/
structure Initializer.Writes (p : Token → Prop) (entry : Initializer SyntaxTree)
    (e : Option String × Expr) : Prop where
  name : Option.Rel Identifier.Writes entry.name e.1
  value : entry.value.Writes p e.2

theorem SyntaxTree.Writes.of_entries {p : Token → Prop} {receiver : SyntaxTree} {e : Expr}
    {entries : List (Initializer SyntaxTree)} {es : List (Option String × Expr)} {list : ListSpan}
    {span : Span} (hr : receiver.Writes p e) (h : List.Forall₂ (Initializer.Writes p) entries es) :
    Writes p (.update receiver entries list span) (.update e es list.trailingComma) :=
  .update hr (h.imp fun _ _ h => h.name) fun _ hx => (List.forall₂_zip h hx).value

end Trees

/-! ## What the grammar derives -/

section Derives

open Computability

variable {n : Nat} {l : Language Token} {ts us : List Token}

/-- The sequences of a language spell expressions of limited nesting. -/
def AllSpell (n : Nat) (l : Language Token) : Prop :=
  ∀ ts ∈ l, ∃ e : Expr, e.Within n ∧ Spells e.words ts

theorem exists_spells_primary (hl : AllSpell n l) (hts : ts ∈ primary l) :
    ∃ e : Expr, e.Within (n + 1) ∧ e.IsOperand ∧ Spells e.words ts := by
  rcases primary_cases hts with ⟨t, rfl, hk⟩ | ⟨op, inner, close, rfl, ho, hi, hc⟩
  · by_cases hn : t.kind = .identifier
    · exact ⟨.name t.value, .name, trivial, Spells.single ⟨hn, rfl⟩⟩
    · have hlit : t.kind ∈ literalKinds := by
        revert hk hn
        generalize t.kind = k
        revert k
        decide
      exact ⟨.literal t.lexeme, .literal, trivial, Spells.single ⟨hlit, rfl⟩⟩
  · obtain ⟨e, he, hs⟩ := hl inner hi
    exact ⟨.paren e, .paren he, trivial, Spells.cons ho (hs.append (Spells.single hc))⟩

/-- Members behind an operand make up an operand. -/
theorem exists_spells_members (hus : us ∈ member∗) :
    ∀ {e : Expr} {ts : List Token}, e.Within (n + 1) → e.IsOperand → Spells e.words ts →
      ∃ e' : Expr, e'.Within (n + 1) ∧ e'.IsOperand ∧ Spells e'.words (ts ++ us) := by
  refine kstar_induction (p := fun us => ∀ {e : Expr} {ts : List Token}, e.Within (n + 1) →
    e.IsOperand → Spells e.words ts →
      ∃ e' : Expr, e'.Within (n + 1) ∧ e'.IsOperand ∧ Spells e'.words (ts ++ us)) ?_ ?_ hus
  · intro e ts he ho hs
    exact ⟨e, he, ho, by simpa using hs⟩
  · intro _ us hm _ ih e ts he ho hs
    obtain ⟨dot, name, call, rfl, hd, hn, hc⟩ := member_cases hm
    rcases (Language.mem_add _ _ _).1 hc with
      rfl | ⟨_, ⟨op, hop, rfl⟩, _, ⟨close, hclose, rfl⟩, rfl⟩
    · have hmore : Spells [.mark .dot, .name name.value] [dot, name] :=
        Spells.cons hd (Spells.single ⟨hn, rfl⟩)
      have := ih (e := .access e name.value) (.access he ho) trivial (hs.append hmore)
      simpa only [List.append_assoc] using this
    · have hmore : Spells [.mark .dot, .name name.value, .mark .openParen, .mark .closeParen]
          [dot, name, op, close] :=
        Spells.cons hd (Spells.cons ⟨hn, rfl⟩ (Spells.cons hop (Spells.single hclose)))
      have := ih (e := .call e name.value) (.call he ho) trivial (hs.append hmore)
      simpa only [List.append_assoc, List.cons_append, List.nil_append] using this

theorem exists_spells_init (hl : AllSpell n l) (hts : ts ∈ init l) :
    ∃ entry : Option String × Expr, entry.2.Within n ∧
      Spells (Word.target entry.1 ++ entry.2.words) ts := by
  rcases init_cases hts with ⟨name, eq, value, rfl, hname, heq, hv⟩ | hts
  · obtain ⟨e, he, hs⟩ := hl value hv
    have htarget : Spells (Word.target (some name.value)) [name, eq] :=
      Spells.cons ⟨hname, rfl⟩ (Spells.single heq)
    exact ⟨(some name.value, e), he, htarget.append hs⟩
  · obtain ⟨e, he, hs⟩ := hl ts hts
    have htarget : Spells (Word.target none) [] := .nil
    exact ⟨(none, e), he, htarget.append hs⟩

theorem exists_spells_entries (hl : AllSpell n l) (hts : ts ∈ 1 + entries l) :
    ∃ (es : List (Option String × Expr)) (trailing : Bool), (∀ entry ∈ es, entry.2.Within n) ∧
      (trailing = true → es ≠ []) ∧ Spells (Expr.entryWords trailing es) ts := by
  rcases (Language.mem_add _ _ _).1 hts with rfl | hts
  · exact ⟨[], false, nofun, nofun, .nil⟩
  obtain ⟨first, hf, items, hi, last, hlast, rfl⟩ := mem_entries.1 hts
  obtain ⟨trailing, htrailing⟩ : ∃ trailing, Spells (Word.comma trailing) last := by
    rcases hlast with rfl | ⟨c, hc, rfl⟩
    · exact ⟨false, .nil⟩
    · exact ⟨true, Spells.single hc⟩
  -- The induction is along the items behind the first one, each of which is first in its turn.
  suffices h : ∀ first ∈ init l, ∃ es, (∀ entry ∈ es, entry.2.Within n) ∧ es ≠ [] ∧
      Spells (Expr.entryWords trailing es) (first ++ (items ++ last)) by
    obtain ⟨es, he, hne, hs⟩ := h first hf
    exact ⟨es, trailing, he, fun _ => hne, hs⟩
  clear hts hf hlast
  refine kstar_induction (p := fun items => ∀ first ∈ init l, ∃ es,
    (∀ entry ∈ es, entry.2.Within n) ∧ es ≠ [] ∧
      Spells (Expr.entryWords trailing es) (first ++ (items ++ last))) ?_ ?_ hi
  · intro first hf
    obtain ⟨entry, he, hs⟩ := exists_spells_init hl hf
    refine ⟨[entry], by simpa using he, by simp, ?_⟩
    simpa [Expr.entryWords] using hs.append htrailing
  · rintro _ items ⟨_, ⟨c, hc, rfl⟩, second, hsecond, rfl⟩ - ih first hf
    obtain ⟨entry, he, hs⟩ := exists_spells_init hl hf
    obtain ⟨es, hes, hne, hrest⟩ := ih second hsecond
    refine ⟨entry :: es, List.forall_mem_cons.2 ⟨he, hes⟩, by simp, ?_⟩
    have hcomma : Spells (Word.comma (trailing || !es.isEmpty)) [c] := by
      rw [spells_comma]
      exact .inr ⟨by simp [hne], c, hc, rfl⟩
    simpa [Expr.entryWords] using hs.append (hcomma.append hrest)

/-- Updates behind an expression make up an expression. -/
theorem exists_spells_updates (hl : AllSpell n l) (hus : us ∈ (update l)∗) :
    ∀ {e : Expr} {ts : List Token}, e.Within (n + 1) → Spells e.words ts →
      ∃ e' : Expr, e'.Within (n + 1) ∧ Spells e'.words (ts ++ us) := by
  refine kstar_induction (p := fun us => ∀ {e : Expr} {ts : List Token}, e.Within (n + 1) →
    Spells e.words ts → ∃ e' : Expr, e'.Within (n + 1) ∧ Spells e'.words (ts ++ us)) ?_ ?_ hus
  · intro e ts he hs
    exact ⟨e, he, by simpa using hs⟩
  · intro _ us hu _ ih e ts he hs
    obtain ⟨key, op, es, close, rfl, hk, ho, hes, hc⟩ := update_cases hu
    obtain ⟨entries, trailing, hentries, hne, hwords⟩ := exists_spells_entries hl hes
    have hmore : Spells (.mark .withKeyword :: .mark .openBrace ::
        (Expr.entryWords trailing entries ++ [.mark .closeBrace])) (key :: op :: (es ++ [close])) :=
      Spells.cons hk (Spells.cons ho (hwords.append (Spells.single hc)))
    have := ih (e := .update e entries trailing) (.update he hentries hne) (hs.append hmore)
    simpa only [List.append_assoc] using this

/-- **What the grammar derives spells an expression.** -/
theorem Grammar.exists_spells (n : Nat) : AllSpell n (Grammar.expr n) := by
  induction n with
  | zero => exact nofun
  | succ n ih =>
    rintro _ ⟨_, ⟨first, hf, ms, hm, rfl⟩, ws, hw, rfl⟩
    obtain ⟨e, he, ho, hs⟩ := exists_spells_primary ih hf
    obtain ⟨e₁, he₁, -, hs₁⟩ := exists_spells_members hm he ho hs
    exact exists_spells_updates ih hw he₁ hs₁

end Derives

end UpdateExpr
