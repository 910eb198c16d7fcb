import Mathlib.Data.List.TakeWhile
import Mathlib.Data.Nat.Init
import Mathlib.Logic.Function.Iterate
import UpdateExpr.Proofs.Syntax.Position
import UpdateExpr.Token.Scanner

/-!
# Scanning a whole text

A scanner that goes on scanning comes to the end of its text and stays there. On the way it passes
over blanks only: whatever else a text holds is in one of its tokens. What it gathers are the faults
of the tokens that it has scanned, one after another.

Each scan starts where the last token ends, so a scanner is followed by the places of `Position`.

## Main definitions

* `BlankBetween`: only blanks stand between two byte positions of a text
* `Token.Occupies`: a token takes some characters of a text
* `Token.fault?`: the fault of a token, by its kind
* `Scanner.tokens`: the tokens that a scanner comes to

## Main results

* `Position.exists_endOfFile`: the end of a text is no further away than it has characters
* `Scanner.iterate_scan`: where a scanner is after some scans
* `Scanner.scans_to_end`: what a scanner comes to, and what it gathers
-/

namespace UpdateExpr

/-- Only blanks stand between two byte positions of a text. -/
def BlankBetween (text : List Char) (m n : Nat) : Prop :=
  ∃ front blanks back, text = front ++ (blanks ++ back) ∧ m = byteLength front ∧
    n = byteLength (front ++ blanks) ∧ ∀ c ∈ blanks, isBlank c = true

theorem BlankBetween.le {text : List Char} {m n : Nat} (h : BlankBetween text m n) : m ≤ n := by
  obtain ⟨front, blanks, back, -, rfl, rfl, -⟩ := h
  simp

namespace Token

/-- A token takes some characters of a text: its span lies between two characters, is not empty, and
covers the characters that the token is written with. -/
structure Occupies (text : List Char) (t : Token) : Prop where
  kind : t.kind ≠ .endOfFile
  lt : t.span.start < t.span.stop
  start : IsBoundary text t.span.start
  stop : IsBoundary text t.span.stop
  slice : t.span.slice text = t.lexeme.toList

/-- The fault of a token, by its kind: a character that starts no token, and a string without its
closing quote. -/
def fault? (t : Token) : Option Problem :=
  match t.kind with
  | .unknown => some ⟨.invalidCharacter, t.span, []⟩
  | .string => if t.flags.unterminated then some ⟨.unterminatedString, t.span, []⟩ else none
  | _ => none

end Token

/-- Only strings lack a closing quote. -/
theorem Lexeme.kind_of_unterminated {c : Char} {cs : List Char}
    (h : (first c cs).flags.unterminated = true) : (first c cs).kind = .string := by
  revert h
  unfold first
  split
  case h_7 => split <;> simp [ofFraction, single]
  case h_8 => simp [ofString]
  case h_9 =>
    have number : ∀ digits cs, (numberTail digits cs).flags.unterminated = false := by
      intro digits cs
      unfold numberTail
      split
      · split <;> rfl
      · split <;> rfl
      · rfl
    split
    · simp [ofNumber, number]
    · split <;> simp [ofIdentifier, single]
  all_goals simp [single]

namespace Position

variable {text : List Char} {p : Position}

/-- Up to the next token there are blanks only. -/
theorem Of.blankBetween (h : p.Of text) : BlankBetween text p.offset p.tokenStart := by
  obtain ⟨front, rfl, ho⟩ := h
  refine ⟨front, p.rest.takeWhile isBlank, p.rest.dropWhile isBlank, ?_, ho, ?_, ?_⟩
  · rw [List.takeWhile_append_dropWhile]
  · rw [byteLength_append, ← ho]
    rfl
  · exact fun c hc => List.mem_takeWhile_imp hc

/-- The end of a text stands behind all of it. -/
theorem Of.token_of_endOfFile (h : p.Of text) (hk : p.token.kind = .endOfFile) :
    p.token = .endAt (byteLength text) := by
  have hrest := (Token.next_kind_eq_endOfFile_iff p).1 hk
  obtain ⟨front, rfl, ho⟩ := h.skipBlanks
  rw [hrest, List.append_nil, ← ho, token, Token.next, Token.atPosition, hrest]

/-- The span of a token covers what the token is written with. -/
theorem Of.slice_token (h : p.Of text) : p.token.span.slice text = p.token.lexeme.toList := by
  obtain ⟨front, rfl, ho⟩ := h.skipBlanks
  unfold token Token.next Token.atPosition
  cases hr : p.skipBlanks.rest with
  | nil =>
    have hslice := Span.slice_append front [] []
    simpa [Token.endAt, Span.point, ho] using hslice
  | cons c cs =>
    have hslice := Span.slice_append front (Lexeme.first c cs).taken (Lexeme.first c cs).rest
    rw [List.append_assoc, Lexeme.taken_append_rest] at hslice
    simpa [ho] using hslice

/-- **A token that is not the end takes some characters.** -/
theorem Of.occupies_token (h : p.Of text) (hk : p.token.kind ≠ .endOfFile) :
    p.token.Occupies text := by
  have hslice := h.slice_token
  rw [p.token_span] at hslice
  refine ⟨hk, ?_, ?_, ?_, ?_⟩ <;> rw [p.token_span]
  · exact tokenStart_lt_after hk
  · exact h.tokenStart
  · exact h.after.boundary
  · exact hslice

/-- What is wrong with a token is wrong with it by its kind. -/
theorem problem?_token (p : Position) : p.token.problem? = p.token.fault? := by
  unfold token Token.next Token.atPosition
  cases p.skipBlanks.rest with
  | nil => rfl
  | cons c cs =>
    have hstring := @Lexeme.kind_of_unterminated c cs
    simp only [Token.problem?, Token.issue?, Token.fault?]
    generalize (Lexeme.first c cs).kind = kind at hstring ⊢
    by_cases hu : (Lexeme.first c cs).flags.unterminated = true
    · simp [hstring hu, hu]
    · cases kind <;> simp [hu]

/-! ## Going on -/

theorem of_iterate_after (h : p.Of text) (n : Nat) : (after^[n] p).Of text := by
  induction n with
  | zero => exact h
  | succ n ih =>
    rw [Function.iterate_succ_apply']
    exact ih.after

/-- **The end of a text is no further away than the text has characters**, since every other token
takes one of them at least. -/
theorem exists_endOfFile (p : Position) : ∃ n ≤ p.rest.length,
    (∀ k < n, (after^[k] p).token.kind ≠ .endOfFile) ∧
      (after^[n] p).token.kind = .endOfFile := by
  generalize hm : p.rest.length = m
  induction m using Nat.strongRecOn generalizing p with
  | ind m ih =>
    by_cases hk : p.token.kind = .endOfFile
    · exact ⟨0, Nat.zero_le _, nofun, hk⟩
    · have hlt : p.after.rest.length < m := hm ▸ Token.next_rest_length_lt hk
      obtain ⟨n, hn, hbefore, hend⟩ := ih _ hlt p.after rfl
      refine ⟨n + 1, by omega, fun k hkn => ?_, hend⟩
      cases k with
      | zero => exact hk
      | succ k => exact hbefore k (by omega)

/-- Behind the end of a text there is the end again. -/
theorem kind_iterate_after {n k : Nat} (h : (after^[n] p).token.kind = .endOfFile) (hk : n ≤ k) :
    (after^[k] p).token.kind = .endOfFile := by
  induction k, hk using Nat.le_induction with
  | base => exact h
  | succ k _ ih =>
    rw [Function.iterate_succ_apply', token_after_of_endOfFile ih]
    exact ih

end Position

namespace Scanner

open Position

variable (text : List Char)

/-- The tokens that a scanner comes to in its next scans. -/
def tokens (s : Scanner) (n : Nat) : List Token :=
  (List.range n).map fun k => (scan^[k + 1] s).current

/-- A scan starts where the last token ends, and adds what is wrong with its own token. -/
theorem scan_eq (s : Scanner) : s.scan =
    { start := s.behind.skipBlanks
      behind := s.behind.after
      current := s.behind.token
      problems := s.problems ++ [s.behind.token].filterMap Token.problem? } := by
  have hone : [s.behind.token].filterMap Token.problem? = s.behind.token.problem?.toList := by
    cases hp : s.behind.token.problem? <;> simp [hp]
  rw [hone]
  rfl

/-- **Where a scanner is after some scans**: behind as many tokens, with the problems of each. -/
theorem iterate_scan (n : Nat) : scan^[n + 1] (ofText text) =
    { start := (after^[n] (.start text)).skipBlanks
      behind := after^[n + 1] (.start text)
      current := (after^[n] (.start text)).token
      problems := ((List.range (n + 1)).map fun k => (after^[k] (.start text)).token).filterMap
        Token.problem? } := by
  induction n with
  | zero => exact scan_eq (ofText text)
  | succ n ih =>
    have hrange : List.range (n + 2) = List.range (n + 1) ++ [n + 1] := List.range_succ
    rw [Function.iterate_succ_apply', ih, scan_eq, hrange, List.map_append, List.filterMap_append,
      Function.iterate_succ_apply' _ (n + 1)]
    rfl

theorem current_iterate_scan (n : Nat) :
    (scan^[n + 1] (ofText text)).current = (after^[n] (.start text)).token := by
  rw [iterate_scan]

/-- The last token ends where the next scan starts. -/
theorem stop_iterate_scan (n : Nat) :
    (scan^[n] (ofText text)).current.span.stop = (after^[n] (.start text)).offset := by
  cases n with
  | zero => rfl
  | succ n => rw [current_iterate_scan, token_span, Function.iterate_succ_apply']

/-- What a scanner gathers are the faults of its tokens. -/
theorem problems_iterate_scan (n : Nat) :
    (scan^[n] (ofText text)).problems = ((ofText text).tokens n).filterMap Token.fault? := by
  cases n with
  | zero => rfl
  | succ n =>
    have hfault : Token.problem? ∘ (fun k => (after^[k] (Position.start text)).token) =
        Token.fault? ∘ fun k => (scan^[k + 1] (ofText text)).current := by
      funext k
      rw [Function.comp_apply, Function.comp_apply, current_iterate_scan, problem?_token]
    rw [iterate_scan, tokens, List.filterMap_map, List.filterMap_map, hfault]

/-- **A scanner comes to the end of its text and loses nothing.** After no more scans than the text
has characters, and one, its token is the end, which stands behind all of the text and stays there.
Every token before takes some characters. From each token to the next, and before the first, there
are blanks only. What the scanner has gathered after any number of scans are the faults of the
tokens that it has come to, each at its token. -/
theorem scans_to_end : ∃ n ≤ text.length,
    (∀ k, n < k → (scan^[k] (ofText text)).current = .endAt (byteLength text)) ∧
    (∀ k < n, (scan^[k + 1] (ofText text)).current.Occupies text) ∧
    (∀ k ≤ n,
      (scan^[k] (ofText text)).current.span.stop ≤
          (scan^[k + 1] (ofText text)).current.span.start ∧
        BlankBetween text (scan^[k] (ofText text)).current.span.stop
          (scan^[k + 1] (ofText text)).current.span.start) ∧
    ∀ k, (scan^[k] (ofText text)).problems = ((ofText text).tokens k).filterMap Token.fault? := by
  have hplace := of_iterate_after (of_start text)
  obtain ⟨n, hn, hbefore, hend⟩ := exists_endOfFile (.start text)
  refine ⟨n, hn, fun k hk => ?_, fun k hk => ?_, fun k _ => ?_, problems_iterate_scan text⟩
  · obtain ⟨k, rfl⟩ := Nat.exists_eq_succ_of_ne_zero (Nat.ne_zero_of_lt hk)
    rw [current_iterate_scan]
    exact (hplace k).token_of_endOfFile (kind_iterate_after hend (Nat.le_of_lt_succ hk))
  · rw [current_iterate_scan]
    exact (hplace k).occupies_token (hbefore k hk)
  · have hblank : BlankBetween text (scan^[k] (ofText text)).current.span.stop
        (scan^[k + 1] (ofText text)).current.span.start := by
      rw [stop_iterate_scan, current_iterate_scan, token_span]
      exact (hplace k).blankBetween
    exact ⟨hblank.le, hblank⟩

end Scanner

end UpdateExpr
