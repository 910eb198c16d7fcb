import Mathlib.Data.List.Forall2
import Mathlib.Data.List.Infix
import Mathlib.Order.Monotone.Basic
import UpdateExpr.Proofs.Related
import UpdateExpr.Proofs.Token.Scanning

/-!
# Going back to marks

A scanner is used step by step: it scans, marks are made, it goes back to a mark, and the problems
that it has gathered are taken. Where the steps lead to among the tokens of the text is told by
counting. A scanner that goes back to a mark is as one that never went further, if no problems are
taken; in general it is so but for its problems, since a mark only remembers how many there were.

## Main definitions

* `Scanner.Step`, `Scanner.Session`: steps, and what they come to
* `Scanner.Trail`: where steps lead to among the tokens of a text
* `Scanner.Permitted`: every step back goes to a mark at the current token or before it
* `Scanner.Session.Sound`: a step back that neither loses a problem nor reports one twice

## Main results

* `Scanner.follows_run`: a session is where its trail says
* `Scanner.reported_iff_sound`: each problem is reported once as long as each step back is sound
* `Scanner.backtracks`: without problems being taken, a session is a scanner that only went forward
-/

namespace UpdateExpr

/-- The tokens from a place on, if it is known how far away the end of the text is. -/
theorem Position.tokens_of_endOfFile {p : Position} {n : Nat}
    (hbefore : ∀ k < n, (after^[k] p).token.kind ≠ .endOfFile)
    (hend : (after^[n] p).token.kind = .endOfFile) :
    p.tokens = (List.range (n + 1)).map fun k => (after^[k] p).token := by
  induction n generalizing p with
  | zero =>
    have hkind : p.token.kind = .endOfFile := hend
    rw [tokens_eq, if_pos hkind]
    rfl
  | succ n ih =>
    have hkind : p.token.kind ≠ .endOfFile := hbefore 0 n.succ_pos
    rw [tokens_eq, if_neg hkind, ih (fun k hk => hbefore (k + 1) (Nat.succ_lt_succ hk)) hend,
      List.range_succ_eq_map (n := n + 1), List.map_cons, List.map_map]
    rfl

namespace Scanner

open Position

/-! ## Sessions and trails -/

/-- What is done with a scanner. Marks are known by their numbers, in the order in which they are
made. -/
inductive Step where
  | scan
  | mark
  | rewind (number : Nat)
  | take
  deriving DecidableEq, Repr

/-- A mark, and the problems that had been taken when it was made. -/
structure Bookmark where
  mark : Mark
  taken : List Problem
  deriving DecidableEq, Repr

/-- A scanner in use, with the marks that were made and all problems that were taken. -/
structure Session where
  scanner : Scanner
  marks : List Bookmark := []
  taken : List Problem := []
  deriving DecidableEq, Repr

namespace Session

/-- The session after one more step. -/
def step (s : Session) : Step → Session
  | .scan => { s with scanner := s.scanner.scan }
  | .mark => { s with marks := s.marks ++ [⟨s.scanner.mark, s.taken⟩] }
  | .rewind i => { s with scanner := s.marks[i]?.elim s.scanner fun b => s.scanner.rewind b.mark }
  | .take => { s with scanner := s.scanner.take.2, taken := s.taken ++ s.scanner.take.1 }

/-- The session after some steps with a new scanner. -/
def run (text : List Char) (steps : List Step) : Session :=
  steps.foldl step { scanner := ofText text }

/-- All problems that were reported: those that were taken, and those that can be taken. -/
def reported (s : Session) : List Problem :=
  s.taken ++ s.scanner.problems

end Session

/-- Where steps lead to among the tokens of a text, by their numbers from `1` on; before the first
one the number is `0`. -/
structure Trail where
  /-- The current token. -/
  token : Nat := 0
  /-- The tokens at which the marks were made. -/
  marks : List Nat := []
  deriving DecidableEq, Repr

namespace Trail

/-- The trail after one more step in a text with a number of tokens. The last token stays, and going
back leads to a token at least. -/
def step (last : Nat) (t : Trail) : Step → Trail
  | .scan => { t with token := min (t.token + 1) last }
  | .mark => { t with marks := t.marks ++ [t.token] }
  | .rewind i => { t with token := t.marks[i]?.elim t.token (max 1) }
  | .take => t

/-- The trail of some steps in a text. -/
def along (text : List Char) (steps : List Step) : Trail :=
  steps.foldl (step (Token.ofText text).length) {}

/-- A step back goes to a mark at the current token or before it. -/
def Allows (t : Trail) : Step → Prop
  | .rewind i => ∃ k ∈ t.marks[i]?, k ≤ t.token
  | _ => True

instance (t : Trail) : DecidablePred t.Allows
  | .rewind i => inferInstanceAs (Decidable (∃ k ∈ t.marks[i]?, k ≤ t.token))
  | .scan | .mark | .take => .isTrue trivial

/-- Each of some steps is allowed when its turn comes. -/
def Permits (last : Nat) : Trail → List Step → Prop
  | _, [] => True
  | t, a :: steps => t.Allows a ∧ Permits last (t.step last a) steps

instance decidablePermits (last : Nat) : ∀ t steps, Decidable (Permits last t steps)
  | _, [] => .isTrue trivial
  | t, a :: steps =>
    have := decidablePermits last (t.step last a) steps
    inferInstanceAs (Decidable (t.Allows a ∧ Permits last (t.step last a) steps))

end Trail

/-- Every step back goes to a mark at the current token or before it. -/
def Permitted (text : List Char) (steps : List Step) : Prop :=
  Trail.Permits (Token.ofText text).length {} steps

instance (text : List Char) (steps : List Step) : Decidable (Permitted text steps) :=
  inferInstanceAs (Decidable (Trail.Permits _ _ _))

/-- The faults of the first tokens of a text. -/
def faultsTo (text : List Char) (n : Nat) : List Problem :=
  ((Token.ofText text).take n).filterMap Token.fault?

/-- A step back loses no fault and reports none twice. At a mark that was made before the first
token the fault of that token is forgotten, so it has to be taken, and nothing else; at any other
mark nothing may be taken since it was made, unless the tokens from the marked one up to the current
one have no faults. -/
def Session.Sound (text : List Char) (s : Session) (t : Trail) (i : Nat) : Prop :=
  ∀ b ∈ s.marks[i]?, ∀ k ∈ t.marks[i]?,
    if k = 0 then s.taken = faultsTo text 1
    else s.taken = b.taken ∨ faultsTo text t.token = faultsTo text (k - 1)

/-! ## The tokens of a text, by their numbers -/

section Tokens

variable {text : List Char} {n k : Nat}

/-- Where the end of a text is among its tokens. -/
theorem exists_length (text : List Char) : ∃ n, (Token.ofText text).length = n + 1 ∧
    (ofText text).tokens (n + 1) = Token.ofText text ∧
    (∀ k < n, (after^[k] (.start text)).token.kind ≠ .endOfFile) ∧
    (after^[n] (.start text)).token.kind = .endOfFile := by
  obtain ⟨n, -, hbefore, hend⟩ := exists_endOfFile (.start text)
  have htokens : (ofText text).tokens (n + 1) = Token.ofText text := by
    simp only [tokens, current_iterate_scan]
    exact (tokens_of_endOfFile hbefore hend).symm
  refine ⟨n, ?_, htokens, hbefore, hend⟩
  rw [← htokens, tokens, List.length_map, List.length_range]

theorem length_ofText_pos (text : List Char) : 0 < (Token.ofText text).length := by
  obtain ⟨n, hn, -⟩ := exists_length text
  omega

/-- A scanner is at the end of its text as soon as it has made as many scans as there are tokens. -/
theorem current_kind_iff : (scan^[n] (ofText text)).current.kind = .endOfFile ↔
    (Token.ofText text).length ≤ n := by
  obtain ⟨last, hlast, -, hbefore, hend⟩ := exists_length text
  rw [hlast]
  cases n with
  | zero => simp [ofText]
  | succ n =>
    rw [current_iterate_scan]
    constructor
    · intro h
      by_contra hlt
      exact hbefore n (by omega) h
    · exact fun h => kind_iterate_after hend (Nat.le_of_succ_le_succ h)

/-- What a scanner gathers are the faults of the tokens up to its own. -/
theorem problems_eq_faultsTo (hn : n ≤ (Token.ofText text).length) :
    (scan^[n] (ofText text)).problems = faultsTo text n := by
  obtain ⟨last, hlast, htokens, -⟩ := exists_length text
  rw [problems_iterate_scan, faultsTo, ← htokens, tokens, tokens, ← List.map_take, List.take_range,
    min_eq_left (hlast ▸ hn)]

theorem faultsTo_prefix (text : List Char) (h : k ≤ n) : faultsTo text k <+: faultsTo text n :=
  (List.take_prefix_take_left h).filterMap _

/-- At the end of the text a scan changes nothing. -/
theorem scan_of_endOfFile {s : Scanner} (h : s.scan.current.kind = .endOfFile) :
    s.scan.scan = s.scan := by
  have hkind : s.behind.token.kind = .endOfFile := h
  have hbehind : s.scan.behind = s.behind.skipBlanks := after_of_endOfFile hkind
  rw [scan_eq s.scan, hbehind, skipBlanks_skipBlanks, token_skipBlanks, after_skipBlanks, scan_eq s]
  simp [problem?_of_endOfFile hkind]

/-- The scan from a token leads to the next one, and stays at the last one. -/
theorem scan_iterate_scan (hn : n ≤ (Token.ofText text).length) :
    (scan^[n] (ofText text)).scan =
      scan^[min (n + 1) (Token.ofText text).length] (ofText text) := by
  rcases Nat.lt_or_eq_of_le hn with hlt | rfl
  · rw [min_eq_left hlt, Function.iterate_succ_apply']
  · rw [min_eq_right (Nat.le_succ _)]
    have hkind := current_kind_iff.2 (Nat.le_refl (Token.ofText text).length)
    obtain ⟨m, hm⟩ := Nat.exists_eq_succ_of_ne_zero (length_ofText_pos text).ne'
    rw [hm, Function.iterate_succ_apply'] at hkind ⊢
    exact scan_of_endOfFile hkind

theorem behind_iterate_scan (text : List Char) (n : Nat) :
    (scan^[n] (ofText text)).behind = after^[n] (.start text) := by
  cases n with
  | zero => rfl
  | succ n => rw [iterate_scan]

/-- A scanner that went further has another token. -/
theorem current_ne_of_lt (hn : n ≤ (Token.ofText text).length) (hk : k < n) :
    (scan^[k] (ofText text)).current ≠ (scan^[n] (ofText text)).current := by
  intro h
  have hkind : (scan^[n] (ofText text)).current.kind ≠ .endOfFile := by
    rw [← h, ne_eq, current_kind_iff]
    omega
  have hstop : (after^[k] (Position.start text)).offset =
      (after^[n] (Position.start text)).offset := by
    rw [← stop_iterate_scan, ← stop_iterate_scan, h]
  obtain ⟨m, rfl⟩ := Nat.exists_eq_succ_of_ne_zero (Nat.ne_zero_of_lt hk)
  have hmono : Monotone fun j => (after^[j] (Position.start text)).offset := by
    refine monotone_nat_of_le_succ fun j => ?_
    rw [Function.iterate_succ_apply']
    exact offset_le_after _
  have hle : (after^[k] (Position.start text)).offset ≤ (after^[m] (Position.start text)).offset :=
    hmono (Nat.le_of_lt_succ hk)
  rw [current_iterate_scan] at hkind
  rw [Function.iterate_succ_apply'] at hstop
  have hstart := offset_le_tokenStart (after^[m] (Position.start text))
  have hlt := tokenStart_lt_after hkind
  omega

end Tokens

/-! ## Where a session is -/

section Places

variable {text : List Char} {s : Session} {t : Trail} {a : Step} {steps done : List Step}
  {n k i : Nat} {ps : List Problem}

/-- A scanner at a token of a text, with any problems. -/
def place (text : List Char) (n : Nat) (ps : List Problem) : Scanner :=
  { scan^[n] (ofText text) with problems := ps }

/-- The faults that the scan behind a token adds. -/
def faultBehind (text : List Char) (n : Nat) : List Problem :=
  (after^[n] (.start text)).token.problem?.toList

theorem scan_place (hn : n ≤ (Token.ofText text).length) : (place text n ps).scan =
    place text (min (n + 1) (Token.ofText text).length) (ps ++ faultBehind text n) := by
  unfold place
  rw [← scan_iterate_scan hn, faultBehind, ← behind_iterate_scan]
  rfl

/-- Blanks in front of a marked token do not matter. -/
theorem rewind_skipBlanks (s : Scanner) (p : Position) (count : Nat) :
    s.rewind ⟨p.skipBlanks, count⟩ = s.rewind ⟨p, count⟩ := by
  simp only [rewind, scan, Token.next, skipBlanks_skipBlanks]

/-- Going back to a mark leads to the token where it was made, or to the first one. -/
theorem rewind_place (count : Nat) :
    (place text n ps).rewind ⟨(scan^[k] (ofText text)).start, count⟩ =
      place text (max 1 k) ((ps ++ faultBehind text (k - 1)).take count) := by
  cases k with
  | zero => rfl
  | succ k =>
    rw [Nat.max_eq_right (Nat.succ_le_succ k.zero_le), iterate_scan]
    simp only
    rw [rewind_skipBlanks]
    unfold place
    rw [iterate_scan, Function.iterate_succ_apply']
    rfl

theorem faultsTo_min_succ (hn : n ≤ (Token.ofText text).length) :
    faultsTo text (min (n + 1) (Token.ofText text).length) =
      faultsTo text n ++ faultBehind text n := by
  rw [← problems_eq_faultsTo (Nat.min_le_right _ _), ← scan_iterate_scan hn,
    ← problems_eq_faultsTo hn, faultBehind, ← behind_iterate_scan]
  rfl

theorem faultsTo_succ (hn : n < (Token.ofText text).length) :
    faultsTo text (n + 1) = faultsTo text n ++ faultBehind text n := by
  rw [← faultsTo_min_succ hn.le, min_eq_left hn]

/-- A session is where its trail says, and so are its marks. -/
structure Follows (text : List Char) (s : Session) (t : Trail) : Prop where
  token_le : t.token ≤ (Token.ofText text).length
  scanner : s.scanner = place text t.token s.scanner.problems
  marks : List.Forall₂ (fun k b => k ≤ (Token.ofText text).length ∧
    b.mark.start = (scan^[k] (ofText text)).start) t.marks s.marks

/-- Each step leads a session where it leads its trail. -/
theorem Follows.step (h : Follows text s t) (ha : t.Allows a) :
    Follows text (s.step a) (t.step (Token.ofText text).length a) := by
  obtain ⟨hle, hscanner, hmarks⟩ := h
  cases a with
  | scan =>
    refine ⟨Nat.min_le_right _ _, ?_, hmarks⟩
    simp only [Session.step, Trail.step]
    rw [hscanner, scan_place hle]
    rfl
  | mark =>
    refine ⟨hle, hscanner, List.rel_append hmarks (.cons ⟨hle, ?_⟩ .nil)⟩
    rw [mark, hscanner]
    rfl
  | rewind i =>
    obtain ⟨k, hk, -⟩ := ha
    obtain ⟨b, hb, hkle, hstart⟩ := exists_getElem?_of_forall₂ hmarks hk
    obtain ⟨⟨start, count⟩, taken⟩ := b
    simp only at hstart
    subst hstart
    simp only [Session.step, Trail.step, Option.mem_def.1 hk, hb, Option.elim]
    refine ⟨Nat.max_le.2 ⟨length_ofText_pos text, hkle⟩, ?_, hmarks⟩
    rw [hscanner, rewind_place]
    rfl
  | take =>
    refine ⟨hle, ?_, hmarks⟩
    simp only [Session.step, Trail.step, Scanner.take]
    rw [hscanner]
    rfl

/-- **A session is where its trail says**, after all of its steps and after each of them. -/
theorem Follows.foldl (h : Follows text s t)
    (hp : Trail.Permits (Token.ofText text).length t steps) (hd : done <+: steps) :
    Follows text (done.foldl Session.step s)
      (done.foldl (Trail.step (Token.ofText text).length) t) := by
  induction done generalizing s t steps with
  | nil => exact h
  | cons a done ih =>
    cases steps with
    | nil => cases List.prefix_nil.1 hd
    | cons b steps =>
      obtain ⟨rfl, hd'⟩ := List.cons_prefix_cons.1 hd
      exact ih (h.step hp.1) hp.2 hd'

theorem follows_start (text : List Char) : Follows text { scanner := ofText text } {} :=
  ⟨Nat.zero_le _, rfl, .nil⟩

theorem follows_run (hp : Permitted text steps) (hd : done <+: steps) :
    Follows text (.run text done) (Trail.along text done) :=
  (follows_start text).foldl hp hd

end Places

/-! ## What is reported -/

section Lists

variable {α : Type} {taken taken' pending pending' front fault more : List α}

/-- Keeping as many problems as there were at a mark, behind those that were taken by then. -/
theorem append_take_eq_iff (h : taken' ++ pending' = front ++ (fault ++ more))
    (hmark : taken ++ pending = front ++ fault) (hp : taken <+: taken') :
    taken' ++ (pending' ++ fault).take pending.length = front ++ fault ↔
      taken' = taken ∨ fault ++ more = [] := by
  have hlength := congrArg List.length h
  have hmarkLength := congrArg List.length hmark
  simp only [List.length_append] at hlength hmarkLength
  constructor
  · intro heq
    have heqLength := congrArg List.length heq
    simp only [List.length_append, List.length_take] at heqLength
    refine or_iff_not_imp_left.2 fun hne => ?_
    have hlt : taken.length < taken'.length :=
      Nat.lt_of_le_of_ne hp.length_le fun he => hne (hp.eq_of_length he).symm
    rw [← List.length_eq_zero_iff, List.length_append]
    omega
  · rintro (rfl | hnil)
    · rw [← List.append_assoc, ← hmark, List.append_assoc, List.append_cancel_left_eq] at h
      rw [h, List.append_assoc, List.take_left, hmark]
    · obtain ⟨rfl, rfl⟩ := List.append_eq_nil_iff.1 hnil
      have hle := hp.length_le
      simp only [List.length_nil] at hlength hmarkLength
      rw [List.append_nil, List.take_of_length_le (by omega), h, List.append_nil]

/-- What holds of every front part of a list. -/
theorem forall_prefix_cons {P : List α → Prop} {a : α} {l : List α} :
    (∀ done, done <+: a :: l → P done) ↔ P [] ∧ ∀ done, done <+: l → P (a :: done) := by
  constructor
  · exact fun h => ⟨h [] List.nil_prefix, fun done hd => h _ (List.cons_prefix_cons.2 ⟨rfl, hd⟩)⟩
  · rintro ⟨hnil, hcons⟩ done hd
    cases done with
    | nil => exact hnil
    | cons b done =>
      obtain ⟨rfl, hd'⟩ := List.cons_prefix_cons.1 hd
      exact hcons done hd'

end Lists

section Reports

variable {text : List Char} {s : Session} {t : Trail} {a : Step} {steps done : List Step}
  {i : Nat}

/-- Each fault up to the current token is reported once; and so it was when the marks were made. -/
structure Exact (text : List Char) (s : Session) (t : Trail) : Prop where
  reported : s.reported = faultsTo text t.token
  marks : List.Forall₂ (fun k b => b.taken <+: s.taken ∧ ∃ pending,
    pending.length = b.mark.problems ∧ b.taken ++ pending = faultsTo text k) t.marks s.marks

theorem Exact.marks_step (h : Exact text s t) (a : Step) :
    List.Forall₂ (fun k b => b.taken <+: (s.step a).taken ∧ ∃ pending,
      pending.length = b.mark.problems ∧ b.taken ++ pending = faultsTo text k)
      (t.step (Token.ofText text).length a).marks (s.step a).marks := by
  cases a with
  | scan | rewind i => exact h.marks
  | mark =>
    exact List.rel_append h.marks
      (.cons ⟨List.prefix_rfl, s.scanner.problems, rfl, h.reported⟩ .nil)
  | take =>
    exact h.marks.imp fun k b hb => ⟨hb.1.trans (List.prefix_append _ _), hb.2⟩

/-- **Going back keeps each fault reported once just where it is sound.** -/
theorem Exact.reported_rewind_iff (h : Exact text s t) (hf : Follows text s t)
    (ha : t.Allows (.rewind i)) :
    (s.step (.rewind i)).reported =
        faultsTo text (t.step (Token.ofText text).length (.rewind i)).token ↔
      s.Sound text t i := by
  obtain ⟨k, hk, hle⟩ := ha
  obtain ⟨b, hb, hprefix, pending, hcount, hmark⟩ := exists_getElem?_of_forall₂ h.marks hk
  obtain ⟨b', hb', hlast, hstart⟩ := exists_getElem?_of_forall₂ hf.marks hk
  obtain rfl : b = b' := Option.some.inj (hb.symm.trans hb')
  have hreported : (s.step (.rewind i)).reported =
      s.taken ++ (s.scanner.problems ++ faultBehind text (k - 1)).take pending.length := by
    have hmarkEq : b.mark = ⟨(scan^[k] (ofText text)).start, pending.length⟩ := by
      rw [← hstart, hcount]
    simp only [Session.step, Session.reported, hb, Option.elim]
    rw [hf.scanner, hmarkEq, rewind_place]
    rfl
  have htoken : (t.step (Token.ofText text).length (.rewind i)).token = max 1 k := by
    simp only [Trail.step, Option.mem_def.1 hk, Option.elim]
  rw [hreported, htoken]
  simp only [Session.Sound, hb, Option.mem_def.1 hk, Option.mem_some_iff, forall_eq']
  cases k with
  | zero =>
    -- The mark knows of no problem, so that of the first token is dropped as soon as it is found
    -- again.
    obtain ⟨-, rfl⟩ := List.append_eq_nil_iff.1 hmark
    simp
  | succ k =>
    -- The fault of the marked token is at the end of what is pending, where the count of the mark
    -- cuts.
    have hfault : faultsTo text (k + 1) = faultsTo text k ++ faultBehind text k :=
      faultsTo_succ hlast
    obtain ⟨more, hmore⟩ := faultsTo_prefix text hle
    have hall : s.taken ++ s.scanner.problems =
        faultsTo text k ++ (faultBehind text k ++ more) := by
      rw [← List.append_assoc, ← hfault, hmore]
      exact h.reported
    rw [Nat.max_eq_right (Nat.succ_le_succ k.zero_le), if_neg k.succ_ne_zero, Nat.add_sub_cancel,
      hfault, append_take_eq_iff hall (hmark.trans hfault) hprefix, ← hmore, hfault,
      List.append_assoc, List.append_right_eq_self]

/-- A step keeps each fault reported once, unless it goes back where that is not sound. -/
theorem Exact.reported_step_iff (h : Exact text s t) (hf : Follows text s t) (ha : t.Allows a) :
    (s.step a).reported = faultsTo text (t.step (Token.ofText text).length a).token ↔
      ∀ i, a = .rewind i → s.Sound text t i := by
  cases a with
  | scan =>
    have hscan : (s.step .scan).reported = s.reported ++ faultBehind text t.token := by
      rw [Session.reported, Session.reported, List.append_assoc]
      simp only [Session.step]
      rw [hf.scanner, scan_place hf.token_le]
      rfl
    simp only [reduceCtorEq, false_imp_iff, implies_true, iff_true]
    rw [hscan, h.reported]
    exact (faultsTo_min_succ hf.token_le).symm
  | mark =>
    simp only [reduceCtorEq, false_imp_iff, implies_true, iff_true]
    exact h.reported
  | take =>
    simp only [reduceCtorEq, false_imp_iff, implies_true, iff_true]
    refine Eq.trans ?_ h.reported
    simp [Session.step, Session.reported, Scanner.take]
  | rewind i =>
    simp only [Step.rewind.injEq, forall_eq']
    exact h.reported_rewind_iff hf ha

/-- The steps back among some steps, the first one and those behind it. -/
theorem forall_rewind_cons {P : List Step → Nat → Prop} :
    (∀ done i, done ++ [.rewind i] <+: a :: steps → P done i) ↔
      (∀ i, a = .rewind i → P [] i) ∧
        ∀ done i, done ++ [.rewind i] <+: steps → P (a :: done) i := by
  constructor
  · refine fun h => ⟨fun i ha => h [] i ?_, fun done i hd => h (a :: done) i ?_⟩
    · exact List.cons_prefix_cons.2 ⟨ha.symm, List.nil_prefix⟩
    · exact List.cons_prefix_cons.2 ⟨rfl, hd⟩
  · rintro ⟨hfirst, hmore⟩ done i hd
    cases done with
    | nil => exact hfirst i (List.cons_prefix_cons.1 hd).1.symm
    | cons b done =>
      obtain ⟨rfl, hd'⟩ := List.cons_prefix_cons.1 hd
      exact hmore done i hd'

/-- Each fault is reported once after each step just where each step back is sound. -/
theorem Exact.reported_foldl_iff (h : Exact text s t) (hf : Follows text s t)
    (hp : Trail.Permits (Token.ofText text).length t steps) :
    (∀ done, done <+: steps → (done.foldl Session.step s).reported =
        faultsTo text (done.foldl (Trail.step (Token.ofText text).length) t).token) ↔
      ∀ done i, done ++ [.rewind i] <+: steps → (done.foldl Session.step s).Sound text
        (done.foldl (Trail.step (Token.ofText text).length) t) i := by
  induction steps generalizing s t with
  | nil => simp [List.prefix_nil, h.reported]
  | cons a steps ih =>
    have hstep := h.reported_step_iff hf hp.1
    have hnext hr := ih ⟨hr, h.marks_step a⟩ (hf.step hp.1) hp.2
    rw [forall_prefix_cons, forall_rewind_cons]
    constructor
    · rintro ⟨-, hmore⟩
      have hr := hmore [] List.nil_prefix
      exact ⟨hstep.1 hr, (hnext hr).1 hmore⟩
    · rintro ⟨hfirst, hmore⟩
      exact ⟨h.reported, (hnext (hstep.2 hfirst)).2 hmore⟩

theorem reported_run_iff (hp : Permitted text steps) :
    (∀ done, done <+: steps → (Session.run text done).reported =
        faultsTo text (Trail.along text done).token) ↔
      ∀ done i, done ++ [.rewind i] <+: steps →
        (Session.run text done).Sound text (Trail.along text done) i :=
  Exact.reported_foldl_iff ⟨rfl, .nil⟩ (follows_start text) hp

/-- **Each fault is reported once as long as each step back is sound**, and only then. At the end of
the text these are all faults of the text. -/
theorem reported_iff_sound (hp : Permitted text steps) :
    ((∀ done, done <+: steps → (Session.run text done).reported =
        faultsTo text (Trail.along text done).token) ↔
      ∀ done i, done ++ [.rewind i] <+: steps →
        (Session.run text done).Sound text (Trail.along text done) i) ∧
    ((Session.run text steps).scanner.current.kind = .endOfFile →
      faultsTo text (Trail.along text steps).token =
        (Token.ofText text).filterMap Token.fault?) := by
  refine ⟨reported_run_iff hp, fun hend => ?_⟩
  have hf := follows_run hp List.prefix_rfl
  rw [hf.scanner] at hend
  rw [faultsTo, List.take_of_length_le (current_kind_iff.1 hend)]

/-- A problem that is taken as soon as its token is scanned, and marks that were made before the
first token and behind it: it is reported once. -/
theorem reported_iff_sound_of_taken :
    let text := ['#', ' ', 'a']
    let steps : List Step :=
      [.mark, .scan, .take, .rewind 0, .scan, .mark, .scan, .rewind 1, .scan]
    Permitted text steps ∧ (Session.run text steps).scanner.current.kind = .endOfFile ∧
      (∀ done i, done ++ [.rewind i] <+: steps →
        (Session.run text done).Sound text (Trail.along text done) i) ∧
      (Session.run text steps).reported = (Token.ofText text).filterMap Token.fault? := by
  intro text steps
  have hp : Permitted text steps := by decide +kernel
  have hend : (Session.run text steps).scanner.current.kind = .endOfFile := by decide +kernel
  have hreported : ∀ done ∈ steps.inits, (Session.run text done).reported =
      faultsTo text (Trail.along text done).token := by decide +kernel
  obtain ⟨hiff, hall⟩ := reported_iff_sound hp
  refine ⟨hp, hend, hiff.1 fun done hd => hreported done ((List.mem_inits _ _).2 hd), ?_⟩
  rw [← hall hend]
  exact hreported steps ((List.mem_inits _ _).2 List.prefix_rfl)

/-- A problem is lost by going back to a mark that was made before the first token, and reported
twice by going back to one that was made before it was taken. -/
theorem not_reported_once :
    let text := ['#']
    let problem : Problem := ⟨.invalidCharacter, ⟨0, 1⟩, []⟩
    let lost : List Step := [.mark, .scan, .rewind 0, .scan]
    let twice : List Step := [.scan, .mark, .take, .rewind 0, .scan]
    (Token.ofText text).filterMap Token.fault? = [problem] ∧
      Permitted text lost ∧ (Session.run text lost).scanner.current.kind = .endOfFile ∧
      (Session.run text lost).reported = [] ∧
      Permitted text twice ∧ (Session.run text twice).scanner.current.kind = .endOfFile ∧
      (Session.run text twice).reported = [problem, problem] := by
  decide +kernel

/-! ## Without problems being taken -/

/-- No problem was taken, neither so far nor when a mark was made. -/
def Untaken (s : Session) : Prop :=
  s.taken = [] ∧ ∀ b ∈ s.marks, b.taken = []

theorem Untaken.foldl (h : Untaken s) (htake : .take ∉ steps) :
    Untaken (steps.foldl Session.step s) := by
  induction steps generalizing s with
  | nil => exact h
  | cons a steps ih =>
    refine ih ?_ (List.not_mem_of_not_mem_cons htake)
    cases a with
    | scan | rewind i => exact h
    | mark => exact ⟨h.1, List.forall_mem_append.2 ⟨h.2, List.forall_mem_singleton.2 h.1⟩⟩
    | take => exact absurd List.mem_cons_self htake

/-- A scan has been made, and each mark was made behind one. -/
def Begun (t : Trail) : Prop :=
  0 < t.token ∧ ∀ k ∈ t.marks, 0 < k

theorem Begun.foldl {last : Nat} (hlast : 0 < last) (h : Begun t) :
    Begun (steps.foldl (Trail.step last) t) := by
  induction steps generalizing t with
  | nil => exact h
  | cons a steps ih =>
    refine ih ?_
    cases a with
    | scan => exact ⟨Nat.lt_min.2 ⟨Nat.succ_pos _, hlast⟩, h.2⟩
    | take => exact h
    | mark => exact ⟨h.1, List.forall_mem_append.2 ⟨h.2, List.forall_mem_singleton.2 h.1⟩⟩
    | rewind i =>
      refine ⟨?_, h.2⟩
      cases hk : t.marks[i]? with
      | none => simpa [Trail.step, hk] using h.1
      | some k =>
        simp only [Trail.step, hk, Option.elim]
        exact Nat.lt_of_lt_of_le Nat.one_pos (Nat.le_max_left 1 k)

theorem begun_scan (text : List Char) (done : List Step) :
    Begun (Trail.along text (.scan :: done)) := by
  have hlast := length_ofText_pos text
  have hscan : Begun (Trail.step (Token.ofText text).length {} .scan) :=
    ⟨Nat.lt_min.2 ⟨Nat.succ_pos _, hlast⟩, nofun⟩
  have hrun : Begun (done.foldl (Trail.step (Token.ofText text).length) _) := hscan.foldl hlast
  exact hrun

theorem untaken_scan (text : List Char) (htake : .take ∉ done) :
    Untaken (.run text (.scan :: done)) := by
  have hscan : Untaken (Session.step { scanner := ofText text } .scan) := ⟨rfl, nofun⟩
  exact hscan.foldl htake

/-- **A scanner that goes back is as one that never went further.** After a first scan, let some
scans, marks and steps back to marks at the current token or before it be made, and no problems be
taken. Then the scanner is, with its problems, a new one after just as many scans as lead to its
token. A mark may be used even where an earlier step back went behind it. -/
theorem backtracks (hp : Permitted text (.scan :: steps)) (htake : .take ∉ steps)
    (hd : done <+: steps) :
    (Session.run text (.scan :: done)).scanner =
        scan^[(Trail.along text (.scan :: done)).token] (ofText text) ∧
      ∀ k < (Trail.along text (.scan :: done)).token, (scan^[k] (ofText text)).current ≠
        (Session.run text (.scan :: done)).scanner.current := by
  have hprefix : .scan :: done <+: .scan :: steps := List.cons_prefix_cons.2 ⟨rfl, hd⟩
  have hf := follows_run hp hprefix
  have hsound : ∀ done i, done ++ [.rewind i] <+: .scan :: steps →
      (Session.run text done).Sound text (Trail.along text done) i := by
    rw [forall_rewind_cons]
    refine ⟨nofun, fun done i hd b hb k hk => ?_⟩
    have huntaken := untaken_scan text fun h => htake (hd.subset (List.mem_append_left _ h))
    have hpos := (begun_scan text done).2 k (List.mem_of_getElem? hk)
    rw [if_neg hpos.ne', huntaken.1, huntaken.2 b (List.mem_of_getElem? hb)]
    exact .inl rfl
  have hreported := (reported_run_iff hp).2 hsound _ hprefix
  have hproblems : (Session.run text (.scan :: done)).scanner.problems =
      (scan^[(Trail.along text (.scan :: done)).token] (ofText text)).problems := by
    rw [problems_eq_faultsTo hf.token_le, ← hreported, Session.reported,
      (untaken_scan text fun h => htake (hd.subset h)).1, List.nil_append]
  have hscanner : (Session.run text (.scan :: done)).scanner =
      scan^[(Trail.along text (.scan :: done)).token] (ofText text) := by
    rw [hf.scanner, hproblems]
    rfl
  refine ⟨hscanner, fun k hk => ?_⟩
  rw [hscanner]
  exact current_ne_of_lt hf.token_le hk

/-- Two marks, gone back to from the inner to the outer one, and two problems: the third token is
the current one, as after three scans. -/
theorem backtracks_of_unknown :
    let text := ['#', ' ', 'a', '=', '#']
    let steps : List Step := [.mark, .scan, .mark, .scan, .scan, .rewind 1, .rewind 0, .scan, .scan]
    Permitted text (.scan :: steps) ∧ .take ∉ steps ∧
      (Session.run text (.scan :: steps)).scanner = scan^[3] (ofText text) := by
  intro text steps
  have hp : Permitted text (.scan :: steps) := by decide +kernel
  exact ⟨hp, by decide, (backtracks hp (by decide) List.prefix_rfl).1⟩

end Reports

end Scanner

end UpdateExpr
