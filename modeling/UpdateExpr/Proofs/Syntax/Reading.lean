import UpdateExpr.Syntax.Parser

/-!
# Quiet reading

A rule of the parser reads some of the tokens ahead. If it reports nothing, it has read a sequence
of tokens off the front, and what it gives can be said in terms of that sequence. Here is the
calculus for such statements: one rule for each way in which the rules of the parser are put
together.

## Main definitions

* `ParseState.ahead`: the tokens that are still to be read
* `Token.Ended`: the end of the text stands at the end of some tokens, and nowhere else
* `Token.Sane`, `Token.InRange`: a token without a problem of its own, and without one as a number
* `ParseM.Reads`: what a rule reads, if it reports nothing

## Main results

* `ParseM.Reads.bind`: one rule after another
* `ParseM.Reads.current`, `ParseM.Reads.advance`: looking at a token, and reading it
* `ParseM.Reads.report`: a rule that reports is never quiet
-/

namespace UpdateExpr

namespace Token

/-- The end of the text stands at the end of some tokens, and nowhere else. -/
inductive Ended : List Token → Prop
  | last {t : Token} (h : t.kind = .endOfFile) : Ended [t]
  | cons {t : Token} {ts : List Token} (h : t.kind ≠ .endOfFile) (hs : Ended ts) : Ended (t :: ts)

/-- A token without a problem of its own. A name has characters. -/
structure Sane (t : Token) : Prop where
  problem : t.problem? = none
  name : t.kind = .identifier → t.value ≠ ""

/-- A token that is not a number too large for its type. -/
def InRange (t : Token) : Prop :=
  t.kind = .number → LiteralValue.ofNumber t.value.toList t.flags ≠ .invalid

theorem Ended.tail {t : Token} {ts : List Token} (h : Ended (t :: ts)) (ht : t.kind ≠ .endOfFile) :
    Ended ts := by
  cases h with
  | last he => exact absurd he ht
  | cons _ hs => exact hs

theorem inRange_of_ne {t : Token} (h : t.kind ≠ .number) : t.InRange :=
  fun hn => absurd hn h

theorem Sane.kind_ne_unknown {t : Token} (h : t.Sane) : t.kind ≠ .unknown := by
  intro hk
  have := h.problem
  simp [problem?, issue?, hk] at this

end Token

namespace ParseState

/-- The tokens that are still to be read. -/
def ahead (s : ParseState) : List Token :=
  s.current :: s.later

/-- Nothing was left out so far, and the end of the text is still ahead. -/
structure Fit (s : ParseState) : Prop where
  cut : s.cut = false
  ended : Token.Ended s.ahead

variable {s : ParseState} {t : Token} {ts : List Token}

theorem ahead_advance (h : s.ahead = t :: ts) (hs : ts ≠ []) : s.advance.ahead = ts := by
  obtain ⟨rfl, rfl⟩ := List.cons.inj h
  unfold advance
  cases hl : s.later with
  | nil => exact absurd hl hs
  | cons u us => rfl

@[simp] theorem problems_advance (s : ParseState) : s.advance.problems = s.problems := by
  unfold advance
  split <;> rfl

@[simp] theorem cut_advance (s : ParseState) : s.advance.cut = s.cut := by
  unfold advance
  split <;> rfl

@[simp] theorem problems_skipToEnd (s : ParseState) : s.skipToEnd.problems = s.problems := by
  unfold skipToEnd
  generalize s.later = ts
  induction ts generalizing s with
  | nil => rfl
  | cons t ts ih => exact (ih _).trans (problems_advance s)

theorem Fit.advance (h : s.Fit) (ht : s.current.kind ≠ .endOfFile) :
    s.ahead = s.current :: s.advance.ahead ∧ s.advance.Fit := by
  have hl : Token.Ended s.later := h.ended.tail ht
  have hne : s.later ≠ [] := by
    intro he
    rw [he] at hl
    cases hl
  have ha : s.advance.ahead = s.later := ahead_advance rfl hne
  exact ⟨by rw [ha]; rfl, ⟨by rw [cut_advance, h.cut], by rw [ha]; exact hl⟩⟩

/-- A report is heard, unless reports are cut off. -/
theorem length_problems_report (s : ParseState) (issue : Issue) (span : Span) (args : List String) :
    (s.report issue span args).problems.length =
      s.problems.length + if s.cut then 0 else 1 := by
  unfold report
  split <;> simp

end ParseState

namespace ParseM

/-- What a rule reads, if it starts where `here` holds of the tokens ahead and reports nothing: some
tokens off the front, all of them in range, and of these, if they are sane, `reads` holds together
with what the rule gives. -/
structure Reads {α : Type} (here : List Token → Prop) (m : ParseM α)
    (reads : α → List Token → Prop) : Prop where
  /-- Reports stay. -/
  mono : ∀ s : ParseState, s.problems.length ≤ (m s).2.problems.length
  quiet : ∀ s : ParseState, s.Fit → here s.ahead →
    (m s).2.problems.length = s.problems.length →
    ∃ ts, s.ahead = ts ++ (m s).2.ahead ∧ (m s).2.Fit ∧ (∀ t ∈ ts, t.InRange) ∧
      ((∀ t ∈ ts, t.Sane) → reads (m s).1 ts)

namespace Reads

variable {α β : Type} {here : List Token → Prop} {reads : α → List Token → Prop}
  {result : β → List Token → Prop} {m : ParseM α} {f : α → ParseM β} {k : ParseM β} {t : Token}

theorem pure {a : α} (h : reads a []) : Reads here (pure a) reads where
  mono _ := Nat.le_refl _
  quiet _ hs _ _ := ⟨[], rfl, hs, nofun, fun _ => h⟩

theorem weaken {reads' : α → List Token → Prop} (hm : Reads here m reads)
    (h : ∀ a ts, reads a ts → reads' a ts) : Reads here m reads' where
  mono := hm.mono
  quiet s hs hh hq := by
    obtain ⟨ts, ha, hf, hr, hreads⟩ := hm.quiet s hs hh hq
    exact ⟨ts, ha, hf, hr, fun hsane => h _ _ (hreads hsane)⟩

/-- What is read may be taken to be sane. -/
theorem of_sane {reads' : α → List Token → Prop} (hm : Reads here m reads)
    (h : ∀ a ts, (∀ t ∈ ts, t.Sane) → reads a ts → reads' a ts) : Reads here m reads' where
  mono := hm.mono
  quiet s hs hh hq := by
    obtain ⟨ts, ha, hf, hr, hreads⟩ := hm.quiet s hs hh hq
    exact ⟨ts, ha, hf, hr, fun hsane => h _ _ hsane (hreads hsane)⟩

theorem strengthen {here' : List Token → Prop} (hm : Reads here m reads)
    (h : ∀ ts, here' ts → here ts) : Reads here' m reads where
  mono := hm.mono
  quiet s hs hh := hm.quiet s hs (h _ hh)

/-- **One rule after another.** If both together are quiet, each of them is, since reports stay.
What the second one has to read is whatever completes what the first one read. -/
theorem bind (hm : Reads here m reads)
    (hf : ∀ a, Reads (fun _ => True) (f a) fun b us => ∀ ts, reads a ts → result b (ts ++ us)) :
    Reads here (m >>= f) result where
  mono s := Nat.le_trans (hm.mono s) ((hf _).mono _)
  quiet s hs hh hq := by
    have hm_le := hm.mono s
    have hf_le := (hf (m s).1).mono (m s).2
    have hq' : (f (m s).1 (m s).2).2.problems.length = s.problems.length := hq
    obtain ⟨ts, ha, hs₁, hr, hreads⟩ := hm.quiet s hs hh (by omega)
    obtain ⟨us, ha', hs₂, hr', hthen⟩ := (hf (m s).1).quiet (m s).2 hs₁ trivial (by omega)
    refine ⟨ts ++ us, ?_, hs₂, ?_, fun hsane => ?_⟩
    · rw [ha, ha', List.append_assoc]
      rfl
    · exact List.forall_mem_append.2 ⟨hr, hr'⟩
    · obtain ⟨hts, hus⟩ := List.forall_mem_append.1 hsane
      exact hthen hus ts (hreads hts)

/-- **A rule may look at the token that is read next.** -/
theorem current {f : Token → ParseM β}
    (hf : ∀ t, Reads (fun ts => here ts ∧ ts.head? = some t) (f t) result) :
    Reads here (currentToken >>= f) result where
  mono s := (hf s.current).mono s
  quiet s hs hh := (hf s.current).quiet s hs ⟨hh, rfl⟩

/-- A rule may look at all that was gathered. -/
theorem get {f : ParseState → ParseM β}
    (hf : ∀ s : ParseState, Reads (fun ts => here ts ∧ ts = s.ahead) (f s) result) :
    Reads here (MonadState.get >>= f) result where
  mono s := (hf s).mono s
  quiet s hs hh := (hf s).quiet s hs ⟨hh, rfl⟩

/-- The span of what was read is of no matter. -/
theorem spanFrom {start : Nat} {f : Span → ParseM β} (hf : ∀ span, Reads here (f span) result) :
    Reads here (UpdateExpr.spanFrom start >>= f) result where
  mono s := (hf _).mono s
  quiet s := (hf _).quiet s

/-- **A token is read**, unless it is the end of the text. -/
theorem advance (ht : t.kind ≠ .endOfFile) (hr : t.InRange)
    (hk : Reads (fun ts => here (t :: ts)) k fun b ts => result b (t :: ts)) :
    Reads (fun ts => here ts ∧ ts.head? = some t) (UpdateExpr.advance >>= fun _ => k) result where
  mono s := by
    have := hk.mono s.advance
    rwa [ParseState.problems_advance] at this
  quiet s hs hh hq := by
    obtain ⟨hh, hhead⟩ := hh
    obtain rfl : s.current = t := Option.some.inj hhead
    obtain ⟨ha, hs'⟩ := hs.advance ht
    have hq' : (k s.advance).2.problems.length = s.advance.problems.length := by
      rw [ParseState.problems_advance]
      exact hq
    obtain ⟨ts, ha', hs'', hr', hreads⟩ := hk.quiet s.advance hs' (ha ▸ hh) hq'
    refine ⟨s.current :: ts, ?_, hs'', ?_, fun hsane => ?_⟩
    · rw [ha, ha', List.cons_append]
      rfl
    · exact List.forall_mem_cons.2 ⟨hr, hr'⟩
    · exact hreads (List.forall_mem_cons.1 hsane).2

/-- A name is met without a change of the tokens. -/
theorem meet {name : String} (hk : Reads here k result) :
    Reads here (modify (·.meet name) >>= fun _ => k) result where
  mono s := hk.mono (s.meet name)
  quiet s hs := hk.quiet (s.meet name) ⟨hs.cut, hs.ended⟩

/-- **A rule that reports is never quiet.** -/
theorem report {issue : Issue} {span : Span} {args : List String}
    (hk : ∀ s : ParseState, s.problems.length ≤ (k s).2.problems.length) :
    Reads here (reportAt issue span args >>= fun _ => k) result where
  mono s := by
    have h := hk (s.report issue span args)
    rw [ParseState.length_problems_report] at h
    exact Nat.le_of_add_right_le h
  quiet s hs _ hq := by
    have h := hk (s.report issue span args)
    have hq' : (k (s.report issue span args)).2.problems.length = s.problems.length := hq
    rw [ParseState.length_problems_report, hs.cut] at h
    simp only [Bool.false_eq_true, if_false] at h
    omega

end Reads

end ParseM

end UpdateExpr
