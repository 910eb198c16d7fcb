import Mathlib.Computability.Language
import UpdateExpr.Syntax.Parser

/-!
# The grammar of expressions

The sequences of tokens that write an expression, as languages over tokens. The rules are those of
the grammar

* `expr := operand ('with' '{' [init (',' init)* [',']] '}')*`
* `init := IDENT '=' expr | expr`
* `operand := primary ('.' IDENT ['(' ')'])*`
* `primary := NUMBER | STRING | 'true' | 'false' | 'null' | IDENT | '(' expr ')'`

Each is a function of the language of nested expressions, which stand in parentheses and as values
of initializers. So `Grammar.expr n` holds the expressions with less than `n` of these around any
expression within.

## Main definitions

* `Grammar.token`: a token of a kind
* `Grammar.primary`, `Grammar.operand`, `Grammar.update`: the rules
* `Grammar.expr`: expressions of limited nesting

## Main results

* `Grammar.mem_kstar_of_append`: a repetition goes on with one more item
* `Grammar.entries_of_append`: a list of initializers goes on behind a comma
-/

namespace UpdateExpr

namespace Grammar

open Computability

/-- One token of a kind. -/
def token (kind : TokenKind) : Language Token :=
  {ts | ∃ t, t.kind = kind ∧ ts = [t]}

/-- A literal, a name, or an expression in parentheses. -/
def primary (nested : Language Token) : Language Token :=
  token .number + token .string + token .trueKeyword + token .falseKeyword + token .nullKeyword +
    token .identifier + token .openParen * nested * token .closeParen

/-- A member of what stands before it, and its call. -/
def member : Language Token :=
  token .dot * token .identifier * (1 + token .openParen * token .closeParen)

/-- An expression with some members behind it. -/
def operand (nested : Language Token) : Language Token :=
  primary nested * member∗

/-- One change of an update. -/
def init (nested : Language Token) : Language Token :=
  token .identifier * token .equals * nested + nested

/-- Some changes with commas between them, and maybe one behind them. -/
def entries (nested : Language Token) : Language Token :=
  init nested * (token .comma * init nested)∗ * (1 + token .comma)

/-- A change of some members of what stands before it. -/
def update (nested : Language Token) : Language Token :=
  token .withKeyword * token .openBrace * (1 + entries nested) * token .closeBrace

/-- The expressions in which any expression has less than a number of parentheses and initializers
around it. -/
def expr : Nat → Language Token
  | 0 => 0
  | n + 1 => operand (expr n) * (update (expr n))∗

variable {ts us : List Token} {t : Token} {l nested : Language Token} {kind : TokenKind}

theorem singleton_mem_token (h : t.kind = kind) : [t] ∈ token kind :=
  ⟨t, h, rfl⟩

theorem mem_primary : ts ∈ primary nested ↔
    ts ∈ token .number ∨ ts ∈ token .string ∨ ts ∈ token .trueKeyword ∨ ts ∈ token .falseKeyword ∨
      ts ∈ token .nullKeyword ∨ ts ∈ token .identifier ∨
      ts ∈ token .openParen * nested * token .closeParen := by
  simp only [primary, Language.mem_add, or_assoc]

/-- **A repetition goes on with one more item.** -/
theorem mem_kstar_of_append (h : ts ∈ l) (hs : us ∈ l∗) : ts ++ us ∈ l∗ := by
  rw [← Language.one_add_self_mul_kstar_eq_kstar]
  exact .inr (Language.append_mem_mul h hs)

/-- The induction along a repetition, from the first item on. -/
theorem kstar_induction {p : List Token → Prop} (nil : p [])
    (append : ∀ ts us, ts ∈ l → us ∈ l∗ → p us → p (ts ++ us)) (h : ts ∈ l∗) : p ts := by
  obtain ⟨items, rfl, hitems⟩ := Language.mem_kstar.1 h
  clear h
  induction items with
  | nil => exact nil
  | cons item items ih =>
    rw [List.forall_mem_cons] at hitems
    exact append _ _ hitems.1 (Language.join_mem_kstar hitems.2) (ih hitems.2)

/-- A list of changes is a first one, others behind commas, and maybe a last comma. -/
theorem mem_entries : ts ∈ entries nested ↔ ∃ first ∈ init nested,
    ∃ rest ∈ (token .comma * init nested)∗, ∃ last, (last = [] ∨ last ∈ token .comma) ∧
      first ++ (rest ++ last) = ts := by
  simp only [entries, Language.mem_mul, Language.mem_add, Language.mem_one]
  constructor
  · rintro ⟨_, ⟨first, hf, rest, hr, rfl⟩, last, hl, rfl⟩
    exact ⟨first, hf, rest, hr, last, hl, (List.append_assoc _ _ _).symm⟩
  · rintro ⟨first, hf, rest, hr, last, hl, rfl⟩
    exact ⟨_, ⟨first, hf, rest, hr, rfl⟩, last, hl, List.append_assoc _ _ _⟩

/-- One change is a list of changes. -/
theorem entries_of_init (h : ts ∈ init nested) : ts ∈ entries nested :=
  mem_entries.2 ⟨ts, h, [], Language.nil_mem_kstar _, [], .inl rfl, List.append_nil ts⟩

/-- A comma may stand behind the last change. -/
theorem entries_of_comma (h : ts ∈ init nested) (ht : t.kind = .comma) :
    ts ++ [t] ∈ entries nested :=
  mem_entries.2 ⟨ts, h, [], Language.nil_mem_kstar _, [t], .inr (singleton_mem_token ht), rfl⟩

/-- **A list of changes goes on behind a comma.** -/
theorem entries_of_append (h : ts ∈ init nested) (ht : t.kind = .comma)
    (hs : us ∈ entries nested) : ts ++ t :: us ∈ entries nested := by
  obtain ⟨first, hf, rest, hr, last, hl, rfl⟩ := mem_entries.1 hs
  have hc : [t] ++ first ∈ token .comma * init nested :=
    Language.append_mem_mul (singleton_mem_token ht) hf
  refine mem_entries.2 ⟨ts, h, _, mem_kstar_of_append hc hr, last, hl, ?_⟩
  simp only [List.append_assoc, List.cons_append, List.nil_append]

/-! ## First tokens

The parser chooses by the kind of the next token, and in front of an initializer by that of the
token behind it. -/

/-- The kind of the first token. -/
def head? (ts : List Token) : Option TokenKind :=
  ts.head?.map (·.kind)

/-- The kinds of tokens that are an expression by themselves. -/
def atoms : List TokenKind :=
  [.number, .string, .trueKeyword, .falseKeyword, .nullKeyword, .identifier]

/-- The kinds of tokens that an expression starts with. -/
def starters : List TokenKind :=
  .openParen :: atoms

/-- The kinds of tokens that stand behind a nested expression, or behind the whole. -/
def followers : List TokenKind :=
  [.endOfFile, .closeParen, .comma, .closeBrace]

@[simp] theorem head?_nil : head? [] = none := rfl

@[simp] theorem head?_cons (t : Token) (ts : List Token) : head? (t :: ts) = some t.kind := rfl

theorem head?_append (ts us : List Token) : head? (ts ++ us) = (head? ts).or (head? us) := by
  cases ts <;> rfl

/-! ## The parts of what is derived -/

theorem member_cases (h : ts ∈ member) :
    ∃ dot name call, ts = dot :: name :: call ∧ dot.kind = .dot ∧ name.kind = .identifier ∧
      call ∈ 1 + token .openParen * token .closeParen := by
  obtain ⟨_, ⟨_, ⟨dot, hd, rfl⟩, _, ⟨name, hn, rfl⟩, rfl⟩, call, hc, rfl⟩ := h
  exact ⟨dot, name, call, rfl, hd, hn, hc⟩

theorem update_cases (h : ts ∈ update nested) :
    ∃ key op es close, ts = key :: op :: (es ++ [close]) ∧ key.kind = .withKeyword ∧
      op.kind = .openBrace ∧ es ∈ 1 + entries nested ∧ close.kind = .closeBrace := by
  obtain ⟨_, ⟨_, ⟨_, ⟨key, hk, rfl⟩, _, ⟨op, ho, rfl⟩, rfl⟩, es, he, rfl⟩, _, ⟨close, hc, rfl⟩,
    rfl⟩ := h
  exact ⟨key, op, es, close, rfl, hk, ho, he, hc⟩

/-- A primary is a single token or stands in parentheses. -/
theorem primary_cases (h : ts ∈ primary nested) :
    (∃ t, ts = [t] ∧ t.kind ∈ atoms) ∨
      ∃ op inner close, ts = op :: inner ++ [close] ∧ op.kind = .openParen ∧ inner ∈ nested ∧
        close.kind = .closeParen := by
  rcases mem_primary.1 h with h | h | h | h | h | h | h
  case inr.inr.inr.inr.inr.inr =>
    obtain ⟨_, ⟨_, ⟨op, ho, rfl⟩, inner, hi, rfl⟩, _, ⟨close, hc, rfl⟩, rfl⟩ := h
    exact .inr ⟨op, inner, close, rfl, ho, hi, hc⟩
  all_goals
    obtain ⟨t, ht, rfl⟩ := h
    exact .inl ⟨t, rfl, by simp [ht, atoms]⟩

theorem init_cases (h : ts ∈ init nested) :
    (∃ name eq value, ts = name :: eq :: value ∧ name.kind = .identifier ∧ eq.kind = .equals ∧
      value ∈ nested) ∨ ts ∈ nested := by
  rcases (Language.mem_add _ _ _).1 h with
    ⟨_, ⟨_, ⟨name, hn, rfl⟩, _, ⟨eq, he, rfl⟩, rfl⟩, value, hv, rfl⟩ | h
  · exact .inl ⟨name, eq, value, rfl, hn, he, hv⟩
  · exact .inr h

end Grammar

end UpdateExpr
