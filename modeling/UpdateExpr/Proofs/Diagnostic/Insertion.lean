import Mathlib.Data.List.Infix
import Mathlib.Logic.Function.Basic
import UpdateExpr.Diagnostic.Basic

/-!
# Inserting arguments at once

The arguments of a message are inserted one after another, each into the text that the ones before
it have left. A reader of the template expects that all of them are inserted at once: every place
that the template has is filled, and nothing else is looked at. The two differ where the text of
some argument, alone or with what stands around it, reads as the place of a later argument.

This can be told by counting. A place in the template stays one until its argument is inserted, so
what the first arguments have left has each later place at least as often as the template. It has it
more often exactly if a place came about that the template does not have, and then the two ways
part, unless the argument to be inserted happens to be the text of its own place.

## Main definitions

* `occurrences`: how often a pattern stands in a text
* `Piece`, `pieces`: a template as characters and places
* `spell`, `fillAtOnce`: the text of pieces, and a template with all arguments inserted at once

## Main results

* `replaceAll_spell`, `eq_of_replaceAll_spell`: replacing a place by an argument, and what is
  inserted then
* `fillTemplate_eq_fillAtOnce_iff`: when one argument after another is all of them at once
* `Issue.message_ofCode`: so it is for every issue, if no argument has an opening brace
-/

namespace UpdateExpr

/-! ## Replacing a pattern

The pattern starts with a character that it has nowhere else. So no two occurrences overlap, and
each of them is replaced. -/

/-- How often a pattern stands in a text, at whatever places. -/
def occurrences (pattern text : List Char) : Nat :=
  text.tails.countP fun s => pattern.isPrefixOf s

section Replacing

variable {o c : Char} {q pattern new text block rest : List Char}

theorem replaceFrom_eq (skip : Nat) :
    replaceFrom pattern new skip text = replaceAll pattern new (text.drop skip) := by
  induction text generalizing skip with
  | nil => simp [replaceFrom]
  | cons c cs ih =>
    cases skip with
    | zero => rfl
    | succ skip => rw [replaceFrom, ih, List.drop_succ_cons]

theorem replaceAll_pattern :
    replaceAll (o :: q) new (o :: q ++ rest) = new ++ replaceAll (o :: q) new rest := by
  rw [replaceAll, List.cons_append, replaceFrom, if_pos (by simp), replaceFrom_eq]
  simp

theorem occurrences_nil : occurrences (o :: q) [] = 0 := rfl

theorem occurrences_cons :
    occurrences pattern (c :: text) =
      occurrences pattern text + if pattern.isPrefixOf (c :: text) then 1 else 0 := by
  rw [occurrences, List.tails_cons, List.countP_cons]
  rfl

theorem occurrences_le_append (pattern block rest : List Char) :
    occurrences pattern rest ≤ occurrences pattern (block ++ rest) := by
  induction block with
  | nil => exact Nat.le_refl _
  | cons c cs ih =>
    rw [List.cons_append, occurrences_cons]
    exact Nat.le_trans ih (Nat.le_add_right _ _)

/-- Without its first character no occurrence starts. -/
theorem occurrences_append_of_notMem (h : o ∉ block) :
    occurrences (o :: q) (block ++ rest) = occurrences (o :: q) rest := by
  induction block with
  | nil => rfl
  | cons c cs ih =>
    rw [List.mem_cons, not_or] at h
    rw [List.cons_append, occurrences_cons, ih h.2, if_neg (by simp [h.1]), Nat.add_zero]

theorem occurrences_pattern (ho : o ∉ q) :
    occurrences (o :: q) (o :: q ++ rest) = occurrences (o :: q) rest + 1 := by
  rw [List.cons_append, occurrences_cons, occurrences_append_of_notMem ho, if_pos (by simp)]

/-- A text in which no occurrence starts is left as it is. -/
theorem replaceAll_append_of_eq
    (h : occurrences pattern (block ++ rest) = occurrences pattern rest) :
    replaceAll pattern new (block ++ rest) = block ++ replaceAll pattern new rest := by
  induction block with
  | nil => rfl
  | cons c cs ih =>
    have hle := occurrences_le_append pattern cs rest
    rw [List.cons_append, occurrences_cons] at h
    split at h
    · omega
    · next hc =>
      rw [List.cons_append, replaceAll_cons_of_not_isPrefixOf (Bool.eq_false_iff.2 hc),
        ih (by omega), List.cons_append]

/-- The first of the occurrences that start in a text is replaced. -/
theorem exists_first_occurrence (new : List Char)
    (h : occurrences pattern rest < occurrences pattern (block ++ rest)) :
    ∃ front back after, block = front ++ back ∧ back ≠ [] ∧ pattern <+: back ++ rest ∧
      replaceAll pattern new (block ++ rest) = front ++ (new ++ after) := by
  induction block with
  | nil => exact absurd h (Nat.lt_irrefl _)
  | cons c cs ih =>
    rw [List.cons_append, occurrences_cons] at h
    by_cases hc : pattern.isPrefixOf (c :: (cs ++ rest)) = true
    · refine ⟨[], c :: cs, replaceFrom pattern new (pattern.length - 1) (cs ++ rest), rfl,
        List.cons_ne_nil _ _, List.isPrefixOf_iff_prefix.1 hc, ?_⟩
      rw [List.cons_append, replaceAll, replaceFrom, if_pos hc]
      rfl
    · rw [if_neg hc] at h
      obtain ⟨front, back, after, rfl, hback, hp, hr⟩ := ih h
      refine ⟨c :: front, back, after, rfl, hback, hp, ?_⟩
      rw [List.cons_append, replaceAll_cons_of_not_isPrefixOf (Bool.eq_false_iff.2 hc), hr,
        List.cons_append]

/-- A text is a pattern and more, or the pattern does not stand at its start. -/
theorem eq_append_or (pattern text : List Char) :
    (∃ rest, text = pattern ++ rest) ∨ pattern.isPrefixOf text = false := by
  by_cases h : pattern.isPrefixOf text = true
  · obtain ⟨rest, rfl⟩ := List.isPrefixOf_iff_prefix.1 h
    exact .inl ⟨rest, rfl⟩
  · exact .inr (Bool.eq_false_iff.2 h)

/-- Induction over a text from occurrence to occurrence. -/
theorem occurrence_induction {motive : List Char → Prop} (nil : motive [])
    (cons : ∀ c cs, (o :: q).isPrefixOf (c :: cs) = false → motive cs → motive (c :: cs))
    (pattern : ∀ rest, motive rest → motive (o :: q ++ rest)) (text : List Char) : motive text := by
  induction hn : text.length using Nat.strong_induction_on generalizing text with
  | _ n ih =>
    subst hn
    rcases eq_append_or (o :: q) text with ⟨rest, rfl⟩ | h
    · have hlt : rest.length < (o :: q ++ rest).length := by
        rw [List.length_append, List.length_cons]
        omega
      exact pattern rest (ih rest.length hlt rest rfl)
    · cases text with
      | nil => exact nil
      | cons c cs => exact cons c cs h (ih cs.length (by simp) cs rfl)

theorem replaceAll_self : replaceAll (o :: q) (o :: q) text = text := by
  induction text using occurrence_induction (o := o) (q := q) with
  | nil => rfl
  | cons c cs h ih => rw [replaceAll_cons_of_not_isPrefixOf h, ih]
  | pattern rest ih => rw [replaceAll_pattern, ih]

/-- Each occurrence that is replaced changes the length alike. -/
theorem length_replaceAll (ho : o ∉ q) (new text : List Char) :
    (replaceAll (o :: q) new text).length + occurrences (o :: q) text * (o :: q).length =
      text.length + occurrences (o :: q) text * new.length := by
  induction text using occurrence_induction (o := o) (q := q) with
  | nil => simp [occurrences_nil]
  | cons c cs h ih =>
    rw [replaceAll_cons_of_not_isPrefixOf h, occurrences_cons, if_neg (by simp [h]), Nat.add_zero]
    simp only [List.length_cons] at ih ⊢
    omega
  | pattern rest ih =>
    rw [replaceAll_pattern, occurrences_pattern ho, List.length_append, List.length_append,
      Nat.add_mul, Nat.add_mul]
    omega

end Replacing

/-! ## Places -/

section Places

variable {i j : Nat} {text : List Char}

/-- The number of an argument and the closing brace. -/
def placeTail (i : Nat) : List Char :=
  (toString i).toList ++ ['\x7d']

theorem place_eq (i : Nat) : place i = '\x7b' :: placeTail i := rfl

theorem isDigit_of_mem_toString {c : Char} (h : c ∈ (toString i).toList) : c.isDigit = true := by
  rw [Nat.toString_eq_ofList_toDigits, String.toList_ofList] at h
  exact Nat.isDigit_of_mem_toDigits (by decide) (by decide) h

theorem notMem_toString {c : Char} (hc : c.isDigit = false) : c ∉ (toString i).toList := by
  intro h
  rw [isDigit_of_mem_toString h] at hc
  cases hc

/-- A place has no opening brace but the one at its start. -/
theorem notMem_placeTail (i : Nat) : '\x7b' ∉ placeTail i := by
  rw [placeTail, List.mem_append, not_or]
  exact ⟨notMem_toString (by decide), by decide⟩

/-- A text starts with one place at most: the closing brace ends the number. -/
theorem place_unique (hi : place i <+: text) (hj : place j <+: text) : i = j := by
  obtain ⟨u, hu⟩ := hi
  obtain ⟨v, hv⟩ := hj
  have huv := hu.trans hv.symm
  rw [place_eq, place_eq, placeTail, placeTail] at huv
  simp only [List.cons_append, List.append_assoc, List.cons.injEq, true_and] at huv
  have number : ∀ (i : Nat) (w : List Char),
      ((toString i).toList ++ ('\x7d' :: w)).takeWhile (· ≠ '\x7d') = (toString i).toList := by
    intro i w
    rw [List.takeWhile_append_of_pos]
    · simp
    · intro c hc
      simpa using ne_of_mem_of_not_mem hc (notMem_toString (by decide))
  have hnumber := congrArg (List.takeWhile (· ≠ '\x7d')) huv
  simp only [List.nil_append] at hnumber
  rw [number, number, Nat.toString_eq_ofList_toDigits, Nat.toString_eq_ofList_toDigits,
    String.toList_ofList, String.toList_ofList] at hnumber
  rw [← Nat.ofDigitChars_ten_toDigits (n := i), hnumber, Nat.ofDigitChars_ten_toDigits]

end Places

/-! ## Templates in pieces -/

/-- A piece of a template: a character that stays, or the place of an argument. -/
inductive Piece where
  | char (c : Char)
  | place (i : Nat)
  deriving DecidableEq, Repr, Inhabited

/-- The place of one of the first `n` arguments with which a text starts. -/
def placeAt? (n : Nat) (text : List Char) : Option Nat :=
  (List.range n).find? fun i => (place i).isPrefixOf text

/-- A template as pieces, where the first `n` arguments have places. After a place the search goes
on behind it; `skip` counts the characters of a place that are still to be left out. -/
def piecesFrom (n : Nat) : Nat → List Char → List Piece
  | _, [] => []
  | skip + 1, _ :: cs => piecesFrom n skip cs
  | 0, c :: cs =>
    match placeAt? n (c :: cs) with
    | some i => .place i :: piecesFrom n ((place i).length - 1) cs
    | none => .char c :: piecesFrom n 0 cs

/-- A template as pieces, where the first `n` arguments have places. -/
def pieces (n : Nat) (text : List Char) : List Piece :=
  piecesFrom n 0 text

/-- The text of a piece, where each place has a text. -/
def Piece.text (fill : Nat → List Char) : Piece → List Char
  | char c => [c]
  | place i => fill i

theorem Piece.text_update {fill : Nat → List Char} {i : Nat} {new : List Char} {p : Piece}
    (h : p ≠ .place i) : p.text (Function.update fill i new) = p.text fill := by
  cases p with
  | char c => rfl
  | place j =>
    have hj : j ≠ i := fun e => h (congrArg Piece.place e)
    exact Function.update_of_ne hj new fill

/-- The text of some pieces, where each place has a text. -/
def spell (fill : Nat → List Char) (ps : List Piece) : List Char :=
  ps.flatMap (Piece.text fill)

/-- What is to stand in the place of each argument. -/
def argument (args : List String) (i : Nat) : List Char :=
  (args[i]?.getD "").toList

/-- A template with all arguments inserted at once: each place that the template has is filled, and
everything else stays. -/
def fillAtOnce (template : String) (args : List String) : String :=
  String.ofList (spell (argument args) (pieces args.length template.toList))

section Pieces

variable {i j n : Nat} {c : Char} {text rest new : List Char} {fill fill' : Nat → List Char}
  {ps : List Piece}

theorem placeAt?_eq_some_iff : placeAt? n text = some i ↔ i < n ∧ place i <+: text := by
  have starts : ∀ {j}, placeAt? n text = some j → j < n ∧ place j <+: text := by
    intro j h
    have hp : (place j).isPrefixOf text = true :=
      List.find?_some (p := fun i => (place i).isPrefixOf text) h
    exact ⟨List.mem_range.1 (List.mem_of_find?_eq_some h), List.isPrefixOf_iff_prefix.1 hp⟩
  refine ⟨starts, fun ⟨hi, hp⟩ => ?_⟩
  cases h : placeAt? n text with
  | none =>
    have := List.find?_eq_none.1 h i (List.mem_range.2 hi)
    exact absurd (List.isPrefixOf_iff_prefix.2 hp) this
  | some j => rw [place_unique (starts h).2 hp]

theorem placeAt?_eq_none_iff : placeAt? n text = none ↔ ∀ i < n, ¬ place i <+: text := by
  simp only [Option.eq_none_iff_forall_ne_some, ne_eq, placeAt?_eq_some_iff, not_and]

theorem piecesFrom_eq (skip : Nat) : piecesFrom n skip text = pieces n (text.drop skip) := by
  induction text generalizing skip with
  | nil => simp [pieces, piecesFrom]
  | cons c cs ih =>
    cases skip with
    | zero => rfl
    | succ skip => rw [piecesFrom, ih, List.drop_succ_cons]

theorem pieces_place (hi : i < n) : pieces n (place i ++ rest) = .place i :: pieces n rest := by
  have h : placeAt? n (place i ++ rest) = some i :=
    placeAt?_eq_some_iff.2 ⟨hi, List.prefix_append _ _⟩
  rw [place_eq, List.cons_append] at h ⊢
  rw [pieces, piecesFrom, h]
  simp only [piecesFrom_eq, place_eq]
  simp

theorem pieces_char (h : placeAt? n (c :: text) = none) :
    pieces n (c :: text) = .char c :: pieces n text := by
  rw [pieces, piecesFrom, h]
  rfl

/-- A text is read as pieces from place to place. -/
theorem pieces_induction (n : Nat) {motive : List Char → Prop} (nil : motive [])
    (char : ∀ c cs, placeAt? n (c :: cs) = none → motive cs → motive (c :: cs))
    (place : ∀ i rest, i < n → motive rest → motive (place i ++ rest)) (text : List Char) :
    motive text := by
  induction hn : text.length using Nat.strong_induction_on generalizing text with
  | _ m ih =>
    subst hn
    cases h : placeAt? n text with
    | none =>
      cases text with
      | nil => exact nil
      | cons c cs => exact char c cs h (ih cs.length (by simp) cs rfl)
    | some i =>
      obtain ⟨hi, rest, rfl⟩ := placeAt?_eq_some_iff.1 h
      have hlt : rest.length < (UpdateExpr.place i ++ rest).length := by
        rw [List.length_append, place_eq, List.length_cons]
        omega
      exact place i rest hi (ih rest.length hlt rest rfl)

theorem spell_cons (p : Piece) : spell fill (p :: ps) = p.text fill ++ spell fill ps := rfl

theorem spell_char : spell fill (.char c :: ps) = c :: spell fill ps := rfl

theorem spell_place : spell fill (.place i :: ps) = fill i ++ spell fill ps := rfl

/-- A text without an opening brace stays as it is. -/
theorem spell_pieces_append (h : '\x7b' ∉ text) :
    spell fill (pieces n (text ++ rest)) = text ++ spell fill (pieces n rest) := by
  induction text with
  | nil => rfl
  | cons c cs ih =>
    rw [List.mem_cons, not_or] at h
    have hnone : placeAt? n (c :: (cs ++ rest)) = none :=
      placeAt?_eq_none_iff.2 fun i _ hp => h.1 (List.cons_prefix_cons.1 hp).1
    rw [List.cons_append, pieces_char hnone, spell_char, ih h.2, List.cons_append]

/-- The place of an argument that is not there stays as it is. -/
theorem spell_pieces_place (h : n ≤ i) :
    spell fill (pieces n (place i ++ rest)) = place i ++ spell fill (pieces n rest) := by
  have hnone : placeAt? n (place i ++ rest) = none := by
    refine placeAt?_eq_none_iff.2 fun j hj hp => ?_
    have := place_unique hp (List.prefix_append _ _)
    omega
  rw [place_eq, List.cons_append] at hnone ⊢
  rw [pieces_char hnone, spell_char, spell_pieces_append (notMem_placeTail i), List.cons_append]

/-- With one place more to fill, pieces spell the same if that place stands for itself. -/
theorem spell_pieces_succ :
    spell (Function.update fill n (place n)) (pieces (n + 1) text) =
      spell fill (pieces n text) := by
  induction text using pieces_induction (n + 1) with
  | nil => rfl
  | char c cs h ih =>
    rw [placeAt?_eq_none_iff] at h
    rw [pieces_char (placeAt?_eq_none_iff.2 h),
      pieces_char (placeAt?_eq_none_iff.2 fun i hi => h i (Nat.lt_succ_of_lt hi)), spell_char,
      spell_char, ih]
  | place i rest hi ih =>
    rw [pieces_place hi, spell_place, ih]
    by_cases hn : i < n
    · rw [Function.update_of_ne (Nat.ne_of_lt hn), pieces_place hn, spell_place]
    · obtain rfl : i = n := by omega
      rw [Function.update_self, spell_pieces_place (Nat.le_refl _)]

/-- Where no argument has a place, a text stays as it is. -/
theorem spell_pieces_zero : spell fill (pieces 0 text) = text := by
  induction text using pieces_induction 0 with
  | nil => rfl
  | char c cs h ih => rw [pieces_char h, spell_char, ih]
  | place i rest hi _ => exact absurd hi (Nat.not_lt_zero i)

/-! ## Inserting one argument -/

variable {o : Char} {q : List Char}

/-- Each place of an argument is an occurrence of its text. -/
theorem count_le_occurrences (ho : o ∉ q) (hi : fill i = o :: q) (ps : List Piece) :
    ps.count (.place i) ≤ occurrences (o :: q) (spell fill ps) := by
  induction ps with
  | nil => exact Nat.zero_le _
  | cons p ps ih =>
    rw [spell_cons]
    by_cases hp : p = .place i
    · subst hp
      rw [List.count_cons_self, Piece.text, hi, occurrences_pattern ho]
      omega
    · rw [List.count_cons_of_ne hp]
      exact Nat.le_trans ih (occurrences_le_append ..)

/-- **Replacing the text of a place fills the place** if the text stands nowhere else. -/
theorem replaceAll_spell (ho : o ∉ q) (hi : fill i = o :: q)
    (h : occurrences (o :: q) (spell fill ps) = ps.count (.place i)) :
    replaceAll (o :: q) new (spell fill ps) = spell (Function.update fill i new) ps := by
  induction ps with
  | nil => rfl
  | cons p ps ih =>
    rw [spell_cons] at h
    rw [spell_cons, spell_cons]
    by_cases hp : p = .place i
    · subst hp
      rw [List.count_cons_self, Piece.text, hi, occurrences_pattern ho] at h
      rw [Piece.text, Piece.text, hi, replaceAll_pattern, ih (by omega), Function.update_self]
    · rw [List.count_cons_of_ne hp] at h
      have hle := count_le_occurrences ho hi ps
      have hge := occurrences_le_append (o :: q) (p.text fill) (spell fill ps)
      rw [replaceAll_append_of_eq (by omega), ih (by omega), Piece.text_update hp]

theorem length_spell_update (fill : Nat → List Char) (i : Nat) (new : List Char)
    (ps : List Piece) :
    (spell (Function.update fill i new) ps).length + ps.count (.place i) * (fill i).length =
      (spell fill ps).length + ps.count (.place i) * new.length := by
  induction ps with
  | nil => simp [spell]
  | cons p ps ih =>
    rw [spell_cons, spell_cons, List.length_append, List.length_append]
    by_cases hp : p = .place i
    · subst hp
      rw [List.count_cons_self, Piece.text, Piece.text, Function.update_self, Nat.add_mul,
        Nat.add_mul]
      omega
    · rw [List.count_cons_of_ne hp, Piece.text_update hp]
      omega

/-- What starts a text, and ends before the next place of an argument, does not see what is inserted
there. -/
theorem prefix_spell_update (hi : fill i = o :: q) (ho : o ∉ text) (h : text <+: spell fill ps) :
    text <+: spell (Function.update fill i new) ps := by
  induction ps generalizing text with
  | nil => exact h
  | cons p ps ih =>
    rw [spell_cons] at h ⊢
    by_cases hp : p = .place i
    · subst hp
      cases text with
      | nil => exact List.nil_prefix
      | cons c cs =>
        rw [Piece.text, hi, List.cons_append, List.cons_prefix_cons] at h
        exact absurd (h.1 ▸ List.mem_cons_self) ho
    · rw [Piece.text_update hp]
      rcases List.prefix_or_prefix_of_prefix h (List.prefix_append _ _) with hin | ⟨back, rfl⟩
      · exact hin.trans (List.prefix_append _ _)
      · rw [List.prefix_append_right_inj] at h ⊢
        exact ih (fun hmem => ho (List.mem_append_right _ hmem)) h

/-- So an occurrence that starts before the places of an argument stays where they are filled. -/
theorem starts_update {back : List Char} (hi : fill i = o :: q) (ho : o ∉ q) (hback : back ≠ [])
    (h : (o :: q) <+: back ++ spell fill ps) :
    (o :: q) <+: back ++ spell (Function.update fill i new) ps := by
  rcases List.prefix_or_prefix_of_prefix h (List.prefix_append _ _) with hin | ⟨front, hfront⟩
  · exact hin.trans (List.prefix_append _ _)
  · rw [← hfront, List.prefix_append_right_inj] at h ⊢
    refine prefix_spell_update hi (fun hmem => ho ?_) h
    obtain ⟨c, cs, rfl⟩ := List.exists_cons_of_ne_nil hback
    obtain ⟨-, rfl⟩ := List.cons.inj hfront
    exact List.mem_append_right _ hmem

/-- **If replacing the text of a place does no more than to fill the place** although the text
stands elsewhere, too, then it is replaced by itself. -/
theorem eq_of_replaceAll_spell (ho : o ∉ q) (hi : fill i = o :: q)
    (h : ps.count (.place i) < occurrences (o :: q) (spell fill ps))
    (heq : replaceAll (o :: q) new (spell fill ps) = spell (Function.update fill i new) ps) :
    new = o :: q := by
  -- More occurrences are replaced than there are places, but the length is the same.
  have hlen : new.length = (o :: q).length := by
    have hr := length_replaceAll ho new (spell fill ps)
    have hs := length_spell_update fill i new ps
    rw [heq] at hr
    rw [hi] at hs
    generalize occurrences (o :: q) (spell fill ps) = m at h hr
    obtain ⟨k, rfl⟩ := Nat.exists_eq_add_of_lt h
    rw [Nat.add_assoc, Nat.add_mul, Nat.add_mul _ _ new.length] at hr
    have hk : 0 < k + 1 := Nat.succ_pos k
    exact Nat.eq_of_mul_eq_mul_left hk (by omega)
  induction ps with
  | nil => exact absurd h (Nat.not_lt_zero _)
  | cons p ps ih =>
    rw [spell_cons] at h heq
    rw [spell_cons] at heq
    by_cases hp : p = .place i
    · subst hp
      rw [Piece.text, hi, occurrences_pattern ho, List.count_cons_self] at h
      rw [Piece.text, Piece.text, hi, replaceAll_pattern, Function.update_self] at heq
      exact ih (by omega) (List.append_cancel_left heq)
    · rw [List.count_cons_of_ne hp] at h
      rw [Piece.text_update hp] at heq
      rcases Nat.eq_or_lt_of_le (occurrences_le_append (o :: q) (p.text fill) (spell fill ps))
        with hsame | hmore
      · rw [replaceAll_append_of_eq hsame.symm] at heq
        exact ih (by omega) (List.append_cancel_left heq)
      · -- Where the first occurrence starts, the one side has what is inserted, and the other side
        -- still has the pattern.
        obtain ⟨front, back, after, hpiece, hback, hstart, hr⟩ :=
          exists_first_occurrence new hmore
        rw [hr, hpiece, List.append_assoc] at heq
        have hsame := List.append_cancel_left heq
        have hinserted : (o :: q) <+: new ++ after := by
          rw [hsame]
          exact starts_update hi ho hback hstart
        have hhead : (o :: q) <+: new :=
          List.prefix_of_prefix_length_le hinserted (List.prefix_append _ _) hlen.ge
        exact (hhead.eq_of_length hlen.symm).symm

/-- The place of an argument stands in a text where its pieces have it. -/
theorem occurrences_place (i : Nat) (text : List Char) :
    occurrences (place i) text = (pieces (i + 1) text).count (.place i) := by
  induction text using pieces_induction (i + 1) with
  | nil => rfl
  | char c cs h ih =>
    have hi := placeAt?_eq_none_iff.1 h i (Nat.lt_succ_self i)
    rw [pieces_char h, List.count_cons_of_ne (by simp), occurrences_cons,
      if_neg (by simpa using hi), ih, Nat.add_zero]
  | place j rest hj ih =>
    rw [pieces_place hj]
    by_cases hij : j = i
    · subst hij
      rw [List.count_cons_self, ← ih]
      exact occurrences_pattern (notMem_placeTail _)
    · have hi : ¬ place i <+: place j ++ rest := fun h =>
        hij (place_unique (List.prefix_append _ _) h)
      rw [List.count_cons_of_ne (by simpa using hij), ← ih, place_eq j, List.cons_append,
        occurrences_cons, ← List.cons_append, ← place_eq, if_neg (by simpa using hi),
        Nat.add_zero, place_eq i]
      exact occurrences_append_of_notMem (notMem_placeTail j)

end Pieces

/-! ## Inserting all arguments -/

section Filling

variable {template : String} {args front : List String} {arg : String}

theorem fillFrom_append (i : Nat) (text : List Char) :
    fillFrom i text (front ++ [arg]) =
      replaceAll (place (i + front.length)) arg.toList (fillFrom i text front) := by
  induction front generalizing i text with
  | nil => rfl
  | cons a front ih =>
    rw [List.cons_append, fillFrom, ih, fillFrom, List.length_cons]
    congr 2
    omega

theorem toList_fillTemplate_append :
    (fillTemplate template (front ++ [arg])).toList =
      replaceAll (place front.length) arg.toList (fillTemplate template front).toList := by
  simp only [fillTemplate, String.toList_ofList, fillFrom_append, Nat.zero_add]

theorem argument_append :
    argument (front ++ [arg]) = Function.update (argument front) front.length arg.toList := by
  funext j
  rcases Nat.lt_trichotomy j front.length with hj | rfl | hj
  · rw [Function.update_of_ne (Nat.ne_of_lt hj), argument, argument, List.getElem?_append_left hj]
  · simp [argument]
  · rw [Function.update_of_ne (Nat.ne_of_gt hj), argument, argument,
      List.getElem?_eq_none (by simp; omega), List.getElem?_eq_none (Nat.le_of_lt hj)]

/-- What the next argument is inserted into, as pieces. -/
theorem toList_fillAtOnce :
    (fillAtOnce template front).toList =
      spell (Function.update (argument front) front.length (place front.length))
        (pieces (front.length + 1) template.toList) := by
  rw [fillAtOnce, String.toList_ofList, spell_pieces_succ]

theorem toList_fillAtOnce_append :
    (fillAtOnce template (front ++ [arg])).toList =
      spell (Function.update (Function.update (argument front) front.length (place front.length))
        front.length arg.toList) (pieces (front.length + 1) template.toList) := by
  rw [fillAtOnce, String.toList_ofList, argument_append, Function.update_idem, List.length_append,
    List.length_singleton]

/-- **The next argument is inserted into the places of the template and nowhere else** exactly if
the text of its place stands nowhere else, or is what is inserted. -/
theorem replaceAll_fillAtOnce_iff :
    replaceAll (place front.length) arg.toList (fillAtOnce template front).toList =
        (fillAtOnce template (front ++ [arg])).toList ↔
      occurrences (place front.length) (fillAtOnce template front).toList =
          occurrences (place front.length) template.toList ∨ arg.toList = place front.length := by
  have hi := Function.update_self front.length (place front.length) (argument front)
  have ho := notMem_placeTail front.length
  rw [toList_fillAtOnce, toList_fillAtOnce_append, occurrences_place _ template.toList,
    place_eq] at *
  constructor
  · intro h
    rcases Nat.eq_or_lt_of_le (count_le_occurrences ho hi
      (pieces (front.length + 1) template.toList)) with heq | hlt
    · exact .inl heq.symm
    · exact .inr (eq_of_replaceAll_spell ho hi hlt h)
  · rintro (h | h)
    · exact replaceAll_spell ho hi h
    · rw [h, replaceAll_self, Function.update_idem]

theorem fillTemplate_nil : fillTemplate template [] = fillAtOnce template [] := by
  rw [fillTemplate, fillAtOnce, List.length_nil, spell_pieces_zero, fillFrom_nil]

/-- As long as no place comes about that the template does not have, one argument after another is
inserted as if all were inserted at once. -/
theorem fillTemplate_eq_fillAtOnce
    (h : ∀ front arg, front ++ [arg] <+: args →
      occurrences (place front.length) (fillAtOnce template front).toList =
          occurrences (place front.length) template.toList ∨ arg.toList = place front.length) :
    fillTemplate template args = fillAtOnce template args := by
  induction args using List.reverseRecOn with
  | nil => exact fillTemplate_nil
  | append_singleton front arg ih =>
    have hfront := ih fun front' arg' hp => h front' arg' (hp.trans (List.prefix_append _ _))
    rw [← String.toList_inj, toList_fillTemplate_append, hfront]
    exact replaceAll_fillAtOnce_iff.2 (h front arg (List.prefix_refl _))

/-- **One argument after another, or all at once.** A template with its arguments inserted one after
another, up to any of them, reads as if they were inserted at once exactly if no place comes about
that the template does not have: in what the first arguments leave when they are inserted at once,
the place of the next one stands as often as in the template, or else the next one is the text of
its own place. -/
theorem fillTemplate_eq_fillAtOnce_iff (template : String) (args : List String) :
    (∀ front, front <+: args → fillTemplate template front = fillAtOnce template front) ↔
      ∀ front arg, front ++ [arg] <+: args →
        occurrences (place front.length) (fillAtOnce template front).toList =
            occurrences (place front.length) template.toList ∨
          arg.toList = place front.length := by
  constructor
  · intro h front arg hp
    rw [← replaceAll_fillAtOnce_iff, ← h _ ((List.prefix_append _ _).trans hp), ← h _ hp,
      toList_fillTemplate_append]
  · intro h front hp
    exact fillTemplate_eq_fillAtOnce fun front' arg hp' => h front' arg (hp'.trans hp)

/-- A type by the name of a place: the member that it lacks is named twice in the message. -/
theorem fillTemplate_ne_fillAtOnce :
    ¬ ∀ (template : String) (args : List String),
      fillTemplate template args = fillAtOnce template args := by
  intro h
  have := h Issue.memberNotFound.template [String.ofList (place 1), "z"]
  revert this
  decide +kernel

end Filling

/-! ## The messages of issues -/

/-- Every opening brace of a template starts a place. -/
def Tidy (template : List Char) : Prop :=
  ∀ s ∈ template.tails, s.head? = some '\x7b' → ∃ i, place i <+: s

section Tidy

variable {c : Char} {text : List Char} {template : String} {args front : List String}

theorem Tidy.tail (h : Tidy (c :: text)) : Tidy text :=
  fun s hs => h s (by rw [List.tails_cons]; exact List.mem_cons_of_mem _ hs)

theorem Tidy.suffix {rest : List Char} (h : Tidy (text ++ rest)) : Tidy rest := by
  induction text with
  | nil => exact h
  | cons c text ih => exact ih h.tail

/-- Arguments without an opening brace make no place. -/
theorem Tidy.occurrences_eq (h : Tidy text) (hargs : ∀ arg ∈ front, '\x7b' ∉ arg.toList) :
    occurrences (place front.length) (spell
      (Function.update (argument front) front.length (place front.length))
        (pieces (front.length + 1) text)) =
      (pieces (front.length + 1) text).count (.place front.length) := by
  induction text using pieces_induction (front.length + 1) with
  | nil => rfl
  | char c cs hnone ih =>
    have hc : ¬ place front.length <+: spell
        (Function.update (argument front) front.length (place front.length))
          (pieces (front.length + 1) (c :: cs)) := by
      intro hp
      by_cases hbrace : c = '\x7b'
      · obtain ⟨i, rest, hi⟩ := h (c :: cs) (by simp) (by simp [hbrace])
        have hle : front.length + 1 ≤ i := by
          by_contra hlt
          exact placeAt?_eq_none_iff.1 hnone i (by omega) ⟨rest, hi⟩
        rw [← hi, spell_pieces_place hle] at hp
        have := place_unique hp (List.prefix_append _ _)
        omega
      · rw [pieces_char hnone, spell_char, place_eq] at hp
        exact hbrace (List.cons_prefix_cons.1 hp).1.symm
    rw [pieces_char hnone, spell_char] at hc ⊢
    rw [List.count_cons_of_ne (by simp), ← ih h.tail, occurrences_cons, if_neg (by simpa using hc),
      Nat.add_zero]
  | place i rest hi ih =>
    rw [pieces_place hi, spell_place]
    by_cases hn : i = front.length
    · subst hn
      rw [List.count_cons_self, Function.update_self, ← ih h.suffix]
      exact occurrences_pattern (notMem_placeTail _)
    · have hbrace : '\x7b' ∉ argument front i := by
        rw [argument, List.getElem?_eq_getElem (by omega)]
        exact hargs _ (List.getElem_mem _)
      rw [List.count_cons_of_ne (by simpa using hn), Function.update_of_ne hn, ← ih h.suffix]
      exact occurrences_append_of_notMem hbrace

/-- **Arguments without an opening brace** are inserted into a tidy template as if at once. -/
theorem Tidy.fillTemplate_eq (h : Tidy template.toList)
    (hargs : ∀ arg ∈ args, '\x7b' ∉ arg.toList) :
    fillTemplate template args = fillAtOnce template args := by
  refine fillTemplate_eq_fillAtOnce fun front arg hp => .inl ?_
  rw [toList_fillAtOnce, occurrences_place _ template.toList]
  exact h.occurrences_eq fun arg' h' => hargs arg' <| hp.subset <| List.mem_append_left _ h'

end Tidy

/-- Every opening brace in the message of an issue starts a place. -/
theorem Issue.tidy_template (issue : Issue) : Tidy issue.template.toList := by
  have h : ∀ s ∈ issue.template.toList.tails, s.head? = some '\x7b' → ∃ i < 3, place i <+: s := by
    cases issue <;> rw [Issue.template, String.toList_ofList] <;> decide +kernel
  intro s hs hhead
  obtain ⟨i, -, hi⟩ := h s hs hhead
  exact ⟨i, hi⟩

/-- **The message of an issue** is its template with all arguments inserted at once, if none of them
has an opening brace. -/
theorem Issue.message_ofCode (issue : Issue) (file : String) (span : Span) {args : List String}
    (hargs : ∀ arg ∈ args, '\x7b' ∉ arg.toList) :
    (Diagnostic.ofCode file span issue.code args).message = fillAtOnce issue.template args := by
  have htemplate : Diagnostic.templateOf issue.code = issue.template := by
    simp [Diagnostic.templateOf]
  rw [Diagnostic.ofCode, htemplate, issue.tidy_template.fillTemplate_eq hargs]

end UpdateExpr
