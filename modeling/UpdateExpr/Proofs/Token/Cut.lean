import Mathlib.Data.List.Basic
import Mathlib.Data.List.TakeWhile
import UpdateExpr.Proofs.Syntax.Position
import UpdateExpr.Proofs.Token.Escape

/-!
# Tokens of a part of a text

A lexeme is the longest one that starts where it starts, so the scanner looks at what stands behind
it. Still, a text may be cut anywhere behind a lexeme without a change of it: what could not go on
with the lexeme cannot do so when less of it is there. So the tokens of a part of a text that starts
at one token and ends behind another are the tokens between the two, with their places counted from
the start of the part.

## Main definitions

* `Span.map`, `Token.mapSpan`: the same at other places
* `Position.Cut`: two places with the same text behind them, up to where it is cut off from one
* `Position.Yields`: the tokens between two places

## Main results

* `Lexeme.first_cut`: a lexeme does not depend on where the text ends behind it
* `Position.Yields.cut`: nor do the tokens between two places
* `Position.Yields.ofText_slice`: the tokens of a part of a text
-/

namespace UpdateExpr

/-- A span with its ends at other places. -/
def Span.map (f : Nat → Nat) (s : Span) : Span :=
  ⟨f s.start, f s.stop⟩

/-- A token at another place. -/
def Token.mapSpan (f : Nat → Nat) (t : Token) : Token :=
  { t with span := t.span.map f }

/-! ## Lexemes -/

section Lists

variable {p : Char → Bool} {more z w : List Char}

/-- The characters that go on with a lexeme are found again if the text behind them is cut. -/
theorem takeWhile_append_eq (hm : ∀ c ∈ more, p c = true) (hz : ∀ c ∈ z.head?, p c = false) :
    (more ++ z).takeWhile p = more ∧ (more ++ z).dropWhile p = z := by
  rw [List.takeWhile_append_of_pos hm, List.dropWhile_append_of_pos hm]
  cases z with
  | nil => simp
  | cons d z => simp [hz d rfl]

theorem takeWhile_cut (h : (more ++ (z ++ w)).takeWhile p = more) :
    (more ++ z).takeWhile p = more ∧ (more ++ z).dropWhile p = z := by
  have hdrop : (more ++ (z ++ w)).dropWhile p = z ++ w := by
    have happend := List.takeWhile_append_dropWhile (p := p) (l := more ++ (z ++ w))
    rw [h] at happend
    exact List.append_cancel_left happend
  apply takeWhile_append_eq
  · intro c hc
    rw [← h] at hc
    exact List.mem_takeWhile_imp hc
  · intro c hc
    have hfirst := List.head?_dropWhile_not p (more ++ (z ++ w))
    have hmem : c ∈ (z ++ w).head? := List.mem_head?_append_of_mem_head? hc
    rw [hdrop, Option.mem_def.1 hmem] at hfirst
    simpa using hfirst

end Lists

namespace Lexeme

variable {c : Char} {digits cs more z w : List Char}

theorem stringTail_cut (h : (stringTail (more ++ (z ++ w))).taken = more) :
    stringTail (more ++ z) = { stringTail (more ++ (z ++ w)) with rest := z } := by
  generalize hcs : more ++ (z ++ w) = cs at h ⊢
  induction cs using stringTail.induct generalizing more with
  | case1 =>
    obtain ⟨rfl, hzw⟩ := List.append_eq_nil_iff.1 hcs
    obtain ⟨rfl, rfl⟩ := List.append_eq_nil_iff.1 hzw
    rfl
  | case2 cs | case3 cs =>
    subst h
    rfl
  | case4 =>
    subst h
    obtain ⟨rfl, rfl⟩ : z = [] ∧ w = [] := by simpa [stringTail] using hcs
    rfl
  | case5 c cs ih =>
    subst h
    simp only [stringTail, List.cons_append, List.cons.injEq, true_and] at hcs
    simp only [stringTail, List.cons_append, ih hcs rfl]
  | case6 c cs hquote hline hlast hescape ih =>
    subst h
    have hback : c ≠ '\\' := ne_backslash hlast hescape
    rw [stringTail_plain hquote hline hback] at hcs ⊢
    simp only [List.cons_append, List.cons.injEq, true_and] at hcs
    rw [List.cons_append, stringTail_plain hquote hline hback, ih hcs rfl]

/-- What stands behind the digits of a number does not go on with it. -/
structure EndsNumber (cs : List Char) : Prop where
  point : ∀ d ds, cs = '.' :: d :: ds → d.isDigit = false
  suffix : ∀ c ∈ cs.head?, ¬ (c = 'L' ∨ c = 'l')

theorem EndsNumber.cut (h : EndsNumber (z ++ w)) : EndsNumber z := by
  constructor
  · intro d ds hz
    exact h.point d (ds ++ w) (by simp [hz])
  · intro c hc
    exact h.suffix c (List.mem_head?_append_of_mem_head? hc)

theorem EndsNumber.numberTail_eq (h : EndsNumber cs) :
    numberTail digits cs = { kind := .number, taken := digits, value := digits, rest := cs } := by
  fun_cases numberTail digits cs with
  | case1 d cs hd => exact absurd hd (by simp [h.point d _ rfl])
  | case3 c cs _ hs => exact absurd hs (h.suffix c rfl)
  | case2 | case4 | case5 => rfl

/-- A number that takes its digits only is one that ends with them. -/
theorem endsNumber_of_taken (h : (numberTail digits cs).taken = digits) : EndsNumber cs := by
  fun_cases numberTail digits cs with
  | case1 d cs hd => simp [numberTail, hd] at h
  | case2 d cs hd =>
    constructor
    · rintro d' ds ⟨⟩
      simpa using hd
    · simp
  | case3 c cs hpoint hs => simp [numberTail, hs] at h
  | case4 c cs hpoint hs =>
    constructor
    · rintro d ds ⟨⟩
      exact (hpoint d ds rfl rfl).elim
    · simpa using hs
  | case5 => exact ⟨nofun, nofun⟩

theorem numberTail_cut (h : (numberTail digits (more ++ (z ++ w))).taken = digits ++ more) :
    numberTail digits (more ++ z) = { numberTail digits (more ++ (z ++ w)) with rest := z } := by
  by_cases hm : more = []
  · subst hm
    have hends := endsNumber_of_taken (by simpa using h)
    exact hends.cut.numberTail_eq.trans (by rw [List.nil_append, hends.numberTail_eq])
  · generalize hcs : more ++ (z ++ w) = cs at h ⊢
    fun_cases numberTail digits cs with
    | case1 d cs hd =>
      obtain rfl : '.' :: d :: cs.takeWhile Char.isDigit = more := by
        simpa [numberTail, hd] using h
      simp only [List.cons_append, List.cons.injEq, true_and] at hcs
      obtain ⟨ht, hr⟩ := takeWhile_cut (congrArg (List.takeWhile Char.isDigit) hcs)
      rw [List.cons_append, List.cons_append, numberTail, if_pos hd, ht, hr]
    | case3 c cs hpoint hs =>
      obtain rfl : [c] = more := by
        simpa [numberTail, hs] using h
      obtain rfl : z ++ w = cs := by simpa using hcs
      rw [List.singleton_append, numberTail]
      · rw [if_pos hs]
      · intro d ds hc hz
        exact hpoint d (ds ++ w) hc (by simp [hz])
    | case2 d cs hd | case4 c cs _ hd => exact absurd (by simpa [numberTail, hd] using h) hm
    | case5 => exact absurd (by simpa [numberTail] using h) hm

theorem ofNumber_cut (h : (ofNumber c (more ++ (z ++ w))).taken = c :: more) :
    ofNumber c (more ++ z) = { ofNumber c (more ++ (z ++ w)) with rest := z } := by
  generalize hcs : more ++ (z ++ w) = cs at h ⊢
  obtain ⟨suffix, htaken⟩ := numberTail_taken (c :: cs.takeWhile Char.isDigit)
    (cs.dropWhile Char.isDigit)
  have hmore : cs.takeWhile Char.isDigit ++ suffix = more := by
    simpa [ofNumber, htaken] using h
  rw [← hmore, List.append_assoc, ← List.append_assoc suffix] at hcs
  obtain ⟨ht, hr⟩ := takeWhile_cut (congrArg (List.takeWhile Char.isDigit) hcs)
  have hdrop : cs.dropWhile Char.isDigit = suffix ++ (z ++ w) := by
    rw [← List.append_assoc]
    exact List.append_cancel_left (List.takeWhile_append_dropWhile.trans hcs.symm)
  rw [ofNumber, ofNumber, ← hmore, List.append_assoc, ht, hr, hdrop]
  rw [hdrop] at htaken
  exact numberTail_cut htaken

theorem ofFraction_cut (h : (ofFraction (more ++ (z ++ w))).taken = '.' :: more) :
    ofFraction (more ++ z) = { ofFraction (more ++ (z ++ w)) with rest := z } := by
  have hmore : (more ++ (z ++ w)).takeWhile Char.isDigit = more := (List.cons.inj h).2
  obtain ⟨ht, hr⟩ := takeWhile_cut hmore
  rw [ofFraction, ofFraction, hmore, ht, hr]

theorem ofIdentifier_cut (h : (ofIdentifier c (more ++ (z ++ w))).taken = c :: more) :
    ofIdentifier c (more ++ z) = { ofIdentifier c (more ++ (z ++ w)) with rest := z } := by
  have hmore : (more ++ (z ++ w)).takeWhile isIdentifierPart = more := (List.cons.inj h).2
  obtain ⟨ht, hr⟩ := takeWhile_cut hmore
  rw [ofIdentifier, ofIdentifier, hmore, ht, hr]

theorem ofString_cut (h : (ofString (more ++ (z ++ w))).taken = '"' :: more) :
    ofString (more ++ z) = { ofString (more ++ (z ++ w)) with rest := z } := by
  rw [ofString, ofString, stringTail_cut (List.cons.inj h).2]

theorem single_cut {kind : TokenKind} (h : (single kind c (more ++ (z ++ w))).taken = c :: more) :
    single kind c (more ++ z) = { single kind c (more ++ (z ++ w)) with rest := z } := by
  obtain rfl : [] = more := (List.cons.inj h).2
  rfl

/-- A fraction starts with a digit that it takes. -/
theorem startsWithDigit_cut (hd : startsWithDigit (more ++ (z ++ w)) = true)
    (h : (more ++ (z ++ w)).takeWhile Char.isDigit = more) :
    startsWithDigit (more ++ z) = true := by
  cases more with
  | cons d more => exact hd
  | nil =>
    rw [List.nil_append] at hd h
    cases hzw : z ++ w with
    | nil => simp [hzw, startsWithDigit] at hd
    | cons d ds =>
      rw [hzw] at hd h
      simp [show d.isDigit = true from hd] at h

/-- **A lexeme does not depend on where the text ends behind it.** -/
theorem first_cut (h : (first c (more ++ (z ++ w))).taken = c :: more) :
    first c (more ++ z) = { first c (more ++ (z ++ w)) with rest := z } := by
  revert h
  unfold first
  split
  case h_7 =>
    by_cases hd : startsWithDigit (more ++ (z ++ w)) = true
    · simp only [hd, if_true]
      intro h
      rw [if_pos (startsWithDigit_cut hd (List.cons.inj h).2)]
      exact ofFraction_cut h
    · simp only [hd]
      intro h
      obtain rfl : [] = more := (List.cons.inj h).2
      have hz : ¬ startsWithDigit z = true := by
        cases z with
        | nil => exact nofun
        | cons d z => exact hd
      exact if_neg hz
  case h_8 => exact ofString_cut
  case h_9 =>
    split
    · exact ofNumber_cut
    · split
      · exact ofIdentifier_cut
      · exact single_cut
  all_goals exact single_cut

end Lexeme

/-! ## Places -/

namespace Position

variable {text w : List Char} {ts us : List Token} {p p' q r : Position} {k : Nat}

/-- Two places with the same text behind them, but that more follows behind one, which is further on
in its text. -/
structure Cut (k : Nat) (w : List Char) (p p' : Position) : Prop where
  rest : p.rest = p'.rest ++ w
  offset : p.offset = p'.offset + k

/-- The place behind a token is behind the characters that the token takes. -/
theorem exists_taken (h : p.token.kind ≠ .endOfFile) :
    ∃ c more, p.skipBlanks.rest = c :: (more ++ p.after.rest) ∧
      (Lexeme.first c (more ++ p.after.rest)).taken = c :: more ∧
      p.after.offset = p.skipBlanks.offset + byteLength (c :: more) := by
  rw [token, ne_eq, Token.next_kind_eq_endOfFile_iff] at h
  unfold after Token.next Token.atPosition
  cases hr : p.skipBlanks.rest with
  | nil => exact absurd hr h
  | cons c cs =>
    obtain ⟨more, hm⟩ := Lexeme.taken_eq_cons c cs
    have hcs : cs = more ++ (Lexeme.first c cs).rest := by
      have happend := Lexeme.taken_append_rest c cs
      rw [hm, List.cons_append, List.cons.injEq] at happend
      exact happend.2.symm
    exact ⟨c, more, congrArg (c :: ·) hcs, by rw [← hcs, hm], by rw [← hm]⟩

theorem Cut.skipBlanks (h : Cut k w p p') {c : Char} {cs : List Char}
    (hr : p.skipBlanks.rest = c :: (cs ++ w)) :
    p'.skipBlanks.rest = c :: cs ∧ Cut k w p.skipBlanks p'.skipBlanks := by
  have hblanks := List.takeWhile_append_dropWhile (p := isBlank) (l := p.rest)
  have hfirst := List.head?_dropWhile_not isBlank p.rest
  have hdrop : p.rest.dropWhile isBlank = c :: (cs ++ w) := hr
  rw [hdrop] at hblanks hfirst
  have hrest : p'.rest = p.rest.takeWhile isBlank ++ c :: cs := by
    have happend : p'.rest ++ w = (p.rest.takeWhile isBlank ++ c :: cs) ++ w := by
      rw [← h.rest, List.append_assoc, List.cons_append, hblanks]
    exact List.append_cancel_right happend
  obtain ⟨ht, hd⟩ : (p.rest.takeWhile isBlank ++ c :: cs).takeWhile isBlank =
        p.rest.takeWhile isBlank ∧
      (p.rest.takeWhile isBlank ++ c :: cs).dropWhile isBlank = c :: cs :=
    takeWhile_append_eq (fun _ hc => List.mem_takeWhile_imp hc) (by simpa using hfirst)
  have hskip : p'.skipBlanks = ⟨p'.offset + byteLength (p.rest.takeWhile isBlank), c :: cs⟩ := by
    rw [Position.skipBlanks, hrest, ht, hd]
  rw [hskip]
  refine ⟨rfl, hr, ?_⟩
  show p.offset + _ = _
  rw [h.offset]
  exact Nat.add_right_comm _ _ _

/-- **The next token is the same where the text behind it is cut off.** -/
theorem Cut.next (h : Cut k w p p') (hk : p.token.kind ≠ .endOfFile) {z : List Char}
    (hz : p.after.rest = z ++ w) :
    p.token = p'.token.mapSpan (· + k) ∧ Cut k w p.after p'.after := by
  obtain ⟨c, more, hr, htaken, -⟩ := exists_taken hk
  rw [hz] at hr htaken
  have hrest : (Lexeme.first c (more ++ (z ++ w))).rest = z ++ w := by
    have happend := Lexeme.taken_append_rest c (more ++ (z ++ w))
    rw [htaken, List.cons_append, List.cons.injEq] at happend
    exact List.append_cancel_left happend.2
  have hcut : p.skipBlanks.rest = c :: ((more ++ z) ++ w) := by rw [hr, List.append_assoc]
  obtain ⟨hr', -, ho⟩ := h.skipBlanks hcut
  have hfirst := Lexeme.first_cut htaken
  unfold token after Token.next Token.atPosition
  simp only [hr, hr', hfirst, ho, hrest]
  refine ⟨?_, rfl, Nat.add_right_comm _ _ _⟩
  simp only [Token.mapSpan, Span.map, Nat.add_right_comm]

/-! ## Tokens between two places -/

/-- From a place, some tokens are read up to another. -/
inductive Yields : Position → List Token → Position → Prop
  | nil {p : Position} : Yields p [] p
  | cons {p q : Position} {ts : List Token} (hk : p.token.kind ≠ .endOfFile)
    (h : Yields p.after ts q) : Yields p (p.token :: ts) q

theorem yields_cons {t : Token} :
    p.Yields (t :: ts) q ↔ t.kind ≠ .endOfFile ∧ t = p.token ∧ p.after.Yields ts q := by
  constructor
  · rintro (_ | ⟨hk, h⟩)
    exact ⟨hk, rfl, h⟩
  · rintro ⟨hk, rfl, h⟩
    exact .cons hk h

theorem yields_nil : p.Yields [] q ↔ q = p := by
  constructor
  · rintro ⟨⟩
    rfl
  · rintro rfl
    exact .nil

theorem yields_append : p.Yields (ts ++ us) r ↔ ∃ q, p.Yields ts q ∧ q.Yields us r := by
  induction ts generalizing p with
  | nil => simp [yields_nil]
  | cons t ts ih => simp [yields_cons, ih, and_assoc]

namespace Yields

theorem leads (h : p.Yields ts q) : p.Leads q := by
  induction h with
  | nil => exact .refl
  | cons _ _ ih => exact (Leads.after _).trans ih

/-- Tokens take the text up to where they end. -/
theorem exists_rest (h : p.Yields ts q) :
    ∃ cs, p.rest = cs ++ q.rest ∧ q.offset = p.offset + byteLength cs := by
  induction h with
  | nil => exact ⟨[], rfl, rfl⟩
  | @cons p q ts hk _ ih =>
    obtain ⟨c, more, hr, -, ho⟩ := exists_taken hk
    obtain ⟨cs, hcs, hq⟩ := ih
    have hblanks : p.rest = p.rest.takeWhile isBlank ++ p.skipBlanks.rest :=
      List.takeWhile_append_dropWhile.symm
    refine ⟨p.rest.takeWhile isBlank ++ (c :: more ++ cs), ?_, ?_⟩
    · rw [List.append_assoc, List.append_assoc, ← hcs, List.cons_append, ← hr, ← hblanks]
    · rw [hq, ho, byteLength_append, byteLength_append, ← Nat.add_assoc, ← Nat.add_assoc]
      rfl

/-- The first token starts behind the blanks, so these do not matter. -/
theorem skipBlanks (h : p.Yields ts q) (hne : ts ≠ []) : p.skipBlanks.Yields ts q := by
  cases h with
  | nil => exact absurd rfl hne
  | cons hk h =>
    rw [← p.token_skipBlanks] at hk ⊢
    rw [← p.after_skipBlanks] at h
    exact .cons hk h

end Yields

/-- The tokens of a text lead to the place where there is only its end. -/
theorem exists_yields_end (p : Position) : ∃ q, q.token.kind = .endOfFile ∧
    p.tokens = p.tokens.dropLast ++ [q.token] ∧ p.Yields p.tokens.dropLast q := by
  generalize hn : p.rest.length = n
  induction n using Nat.strongRecOn generalizing p with
  | ind n ih =>
    rw [tokens_eq]
    by_cases hk : p.token.kind = .endOfFile
    · rw [if_pos hk]
      exact ⟨p, hk, rfl, .nil⟩
    · have hlt : p.after.rest.length < n := hn ▸ Token.next_rest_length_lt hk
      obtain ⟨q, hend, htokens, hq⟩ := ih _ hlt p.after rfl
      rw [if_neg hk, List.dropLast_cons_of_ne_nil (tokens_ne_nil _)]
      exact ⟨q, hend, congrArg (p.token :: ·) htokens, .cons hk hq⟩

theorem problem?_of_mem_tokens (h : ∀ t ∈ p.tokens.dropLast, t.problem? = none) :
    ∀ t ∈ p.tokens, t.problem? = none := by
  obtain ⟨q, hend, htokens, -⟩ := p.exists_yields_end
  intro t ht
  rw [htokens, List.mem_append, List.mem_singleton] at ht
  rcases ht with ht | rfl
  · exact h t ht
  · exact problem?_of_endOfFile hend

/-- **The tokens between two places are those of the text between them.** -/
theorem Yields.cut (h : p.Yields ts q) (hc : Cut k q.rest p p') :
    ts = p'.tokens.dropLast.map (Token.mapSpan (· + k)) := by
  induction h generalizing p' with
  | nil =>
    have hrest : p'.rest = [] := List.append_left_eq_self.1 hc.rest.symm
    have hk : p'.token.kind = .endOfFile := by
      rw [token, Token.next_kind_eq_endOfFile_iff, Position.skipBlanks, hrest]
      rfl
    rw [tokens_eq, if_pos hk]
    rfl
  | @cons p q ts hk h ih =>
    obtain ⟨cs, hcs, -⟩ := h.exists_rest
    obtain ⟨htoken, hafter⟩ := hc.next hk hcs
    have hk' : p'.token.kind ≠ .endOfFile := by
      rw [htoken] at hk
      exact hk
    rw [tokens_eq, if_neg hk', List.dropLast_cons_of_ne_nil (tokens_ne_nil _), List.map_cons,
      ← htoken, ← ih hafter]

/-- **The tokens of a part of a text** that starts with a token and ends with one are those between
the two, at their places in the part. -/
theorem Yields.ofText_slice (h : p.Yields ts q) (hp : p.Of text) (hne : ts ≠ []) :
    ts = (Token.ofText (Span.slice ⟨p.tokenStart, q.offset⟩ text)).dropLast.map
      (Token.mapSpan (· + p.tokenStart)) := by
  have hskip := h.skipBlanks hne
  obtain ⟨front, rfl, ho⟩ := hp.skipBlanks
  obtain ⟨cs, hcs, hq⟩ := hskip.exists_rest
  have hslice := Span.slice_append front cs q.rest
  rw [List.append_assoc, ← hcs, ← ho, ← hq] at hslice
  rw [tokenStart, hslice]
  exact hskip.cut ⟨hcs, (Nat.zero_add _).symm⟩

end Position

end UpdateExpr
