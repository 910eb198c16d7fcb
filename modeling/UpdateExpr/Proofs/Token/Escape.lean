import UpdateExpr.Token.Lexeme

/-!
# Where strings end

Behind its opening quote a string goes up to the first quote or newline that is not escaped, or to
the end of the text. What is escaped is told by the backslashes in front of it: they escape each
other from left to right, so one of them is left over just where their number is odd.

## Main definitions

* `Unescaped`: some characters of a string do not escape the one behind them
* `GoesOn`: no character of a string ends it
* `decoded`: what the characters of a string stand for

## Main results

* `goesOn_or_exists_end`: a string goes on up to the end of the text, or there is a first character
  that ends it
* `Lexeme.stringTail_append`, `Lexeme.stringTail_of_goesOn`: reading a string up to where it may end
-/

namespace UpdateExpr

/-- Some characters of a string do not escape the one behind them: the number of backslashes at
their end is even. -/
def Unescaped (front : List Char) : Prop :=
  (front.reverse.takeWhile (· == '\\')).length % 2 = 0

instance (front : List Char) : Decidable (Unescaped front) :=
  inferInstanceAs (Decidable (_ = _))

/-- No character of a string ends it: each quote or newline in it is escaped. -/
def GoesOn (body : List Char) : Prop :=
  ∀ front c back, body = front ++ c :: back → Unescaped front → c ≠ '"' ∧ c ≠ '\n'

/-- What the characters of a string stand for. A backslash that escapes nothing stands for
nothing. -/
def decoded : List Char → List Char
  | [] | ['\\'] => []
  | '\\' :: c :: cs => Lexeme.unescape c :: decoded cs
  | c :: cs => c :: decoded cs

variable {c : Char} {cs body : List Char}

/-! ## From the front -/

/-- A character that is neither a backslash at the end nor one in front of another is no
backslash. -/
theorem ne_backslash (hlast : c = '\\' → cs = [] → False)
    (hescape : ∀ d ds, c = '\\' → cs = d :: ds → False) : c ≠ '\\' := by
  rintro rfl
  cases cs with
  | nil => exact hlast rfl rfl
  | cons d ds => exact hescape d ds rfl rfl

theorem decoded_plain (hc : c ≠ '\\') : decoded (c :: cs) = c :: decoded cs := by
  rw [decoded] <;> simp_all

theorem unescaped_nil : Unescaped [] :=
  rfl

theorem not_unescaped_backslash : ¬ Unescaped ['\\'] := by
  decide

theorem unescaped_cons (hc : c ≠ '\\') : Unescaped (c :: body) ↔ Unescaped body := by
  have hlast : [c].takeWhile (· == '\\') = [] := by simp [hc]
  rw [Unescaped, Unescaped, List.reverse_cons, List.takeWhile_append, hlast, List.append_nil]
  split
  · next h => rw [← h]
  · rfl

/-- An escape in front takes two characters, whatever the second one is. -/
theorem unescaped_escape : Unescaped ('\\' :: c :: body) ↔ Unescaped body := by
  rw [Unescaped, Unescaped, List.reverse_cons, List.reverse_cons, List.append_assoc,
    List.singleton_append, List.takeWhile_append]
  split
  · next h =>
    by_cases hc : c = '\\'
    · simp [hc, h]
    · simp [hc, h]
  · rfl

theorem goesOn_nil : GoesOn [] := by
  intro front c back h
  simp at h

theorem goesOn_backslash : GoesOn ['\\'] := by
  intro front c back h _
  cases front with
  | nil =>
    cases h
    decide
  | cons d front => simp at h

theorem goesOn_cons (hc : c ≠ '\\') : GoesOn (c :: body) ↔ (c ≠ '"' ∧ c ≠ '\n') ∧ GoesOn body := by
  constructor
  · intro h
    refine ⟨h [] c body rfl unescaped_nil, fun front d back hb hu => ?_⟩
    exact h (c :: front) d back (congrArg (c :: ·) hb) ((unescaped_cons hc).2 hu)
  · rintro ⟨hfirst, h⟩ front d back hb hu
    cases front with
    | nil =>
      cases hb
      exact hfirst
    | cons e front =>
      simp only [List.cons_append, List.cons.injEq] at hb
      obtain ⟨rfl, rfl⟩ := hb
      exact h front d back rfl ((unescaped_cons hc).1 hu)

theorem goesOn_escape : GoesOn ('\\' :: c :: body) ↔ GoesOn body := by
  constructor
  · intro h front d back hb hu
    exact h ('\\' :: c :: front) d back (congrArg ('\\' :: c :: ·) hb) (unescaped_escape.2 hu)
  · intro h front d back hb hu
    match front with
    | [] =>
      cases hb
      decide
    | [e] =>
      cases hb
      exact absurd hu not_unescaped_backslash
    | e :: f :: front =>
      simp only [List.cons_append, List.cons.injEq] at hb
      obtain ⟨rfl, rfl, rfl⟩ := hb
      exact h front d back rfl (unescaped_escape.1 hu)

/-- **A string goes on up to the end of the text, or there is a first character that ends it.** -/
theorem goesOn_or_exists_end (cs : List Char) : GoesOn cs ∨ ∃ body c rest,
    cs = body ++ c :: rest ∧ GoesOn body ∧ Unescaped body ∧ (c = '"' ∨ c = '\n') := by
  induction cs using decoded.induct with
  | case1 => exact .inl goesOn_nil
  | case2 => exact .inl goesOn_backslash
  | case3 c cs ih =>
    rcases ih with ih | ⟨body, d, rest, rfl, hb, hu, hd⟩
    · exact .inl (goesOn_escape.2 ih)
    · exact .inr ⟨'\\' :: c :: body, d, rest, rfl, goesOn_escape.2 hb, unescaped_escape.2 hu, hd⟩
  | case4 c cs hlast hescape ih =>
    have hback : c ≠ '\\' := ne_backslash hlast hescape
    by_cases hc : c = '"' ∨ c = '\n'
    · exact .inr ⟨[], c, cs, rfl, goesOn_nil, unescaped_nil, hc⟩
    · rw [not_or] at hc
      rcases ih with ih | ⟨body, d, rest, rfl, hb, hu, hd⟩
      · exact .inl ((goesOn_cons hback).2 ⟨hc, ih⟩)
      · exact .inr ⟨c :: body, d, rest, rfl, (goesOn_cons hback).2 ⟨hc, hb⟩,
          (unescaped_cons hback).2 hu, hd⟩

/-! ## Reading -/

namespace Lexeme

/-- A character that neither ends a string nor escapes another one stands for itself. -/
theorem stringTail_plain (hquote : c ≠ '"') (hline : c ≠ '\n') (hback : c ≠ '\\') :
    stringTail (c :: cs) = { stringTail cs with
      taken := c :: (stringTail cs).taken, value := c :: (stringTail cs).value } := by
  rw [stringTail] <;> simp_all

/-- **Characters that go on with a string are read one by one**, and the string goes on behind them
unless the last of them escapes what stands there. -/
theorem stringTail_append (h : GoesOn body) (hu : Unescaped body) :
    stringTail (body ++ cs) = { stringTail cs with
      taken := body ++ (stringTail cs).taken, value := decoded body ++ (stringTail cs).value } := by
  induction body using decoded.induct with
  | case1 => rfl
  | case2 => exact absurd hu not_unescaped_backslash
  | case3 c body ih =>
    rw [List.cons_append, List.cons_append, stringTail,
      ih (goesOn_escape.1 h) (unescaped_escape.1 hu), decoded]
    rfl
  | case4 c body hlast hescape ih =>
    have hback : c ≠ '\\' := ne_backslash hlast hescape
    obtain ⟨⟨hquote, hline⟩, hbody⟩ := (goesOn_cons hback).1 h
    rw [List.cons_append, stringTail_plain hquote hline hback,
      ih hbody ((unescaped_cons hback).1 hu), decoded_plain hback]
    rfl

/-- A string that nothing ends goes up to the end of the text. -/
theorem stringTail_of_goesOn (h : GoesOn body) : stringTail body =
    { kind := .string, taken := body, value := decoded body, flags := { unterminated := true },
      rest := [] } := by
  induction body using decoded.induct with
  | case1 | case2 => rfl
  | case3 c body ih => rw [stringTail, ih (goesOn_escape.1 h), decoded]
  | case4 c body hlast hescape ih =>
    have hback : c ≠ '\\' := ne_backslash hlast hescape
    obtain ⟨⟨hquote, hline⟩, hbody⟩ := (goesOn_cons hback).1 h
    rw [stringTail_plain hquote hline hback, ih hbody, decoded_plain hback]

end Lexeme

end UpdateExpr
