import Mathlib.Data.List.TakeWhile
import UpdateExpr.Proofs.Syntax.Parse

/-!
# Words between blanks

A text that is made of words with blanks between them is scanned word by word: where a blank or the
end of the text stands behind a word, no lexeme goes on beyond it. So the tokens of such a text are
the words, each at its place.

## Main definitions

* `literalShape?`, `isName`: the node of a literal by its characters, and the characters of a name
* `Word.IsValid`: a word that is a token
* `Spaced`, `Word.line`: a text is made of words with blanks between them, and such a text
* `Scans`: some characters are a token by themselves
* `Word.Scanned`, `Word.StandsIn`: a token is what scanning makes of a word

## Main results

* `Word.scans`: a valid word is a token by itself, and the token matches it
* `Token.ofText_of_spaced`: the tokens of a text that is made of valid words
-/

namespace UpdateExpr

/-! ## Characters -/

section Chars

variable {c : Char}

theorem exists_range_of_inRanges {n : Nat} {ranges : List (Nat × Nat)}
    (h : inRanges n ranges = true) : ∃ r ∈ ranges, r.1 ≤ n ∧ n ≤ r.2 := by
  induction ranges with
  | nil => cases h
  | cons r ranges ih =>
    obtain ⟨first, last⟩ := r
    unfold inRanges at h
    split at h
    · cases h
    · next hfirst =>
      rcases Bool.or_eq_true_iff.1 h with h | h
      · exact ⟨_, List.mem_cons_self, Nat.le_of_not_lt hfirst, of_decide_eq_true h⟩
      · obtain ⟨r, hr, hle⟩ := ih h
        exact ⟨r, List.mem_cons_of_mem _ hr, hle⟩

/-- No blank is a letter or numeric. -/
theorem blank_codes : ∀ r ∈ blankRanges, ∀ k < r.2 + 1 - r.1,
    inRanges (r.1 + k) alphabeticRanges = false ∧ inRanges (r.1 + k) numericRanges = false ∧
      r.1 + k ≠ '_'.toNat := by
  decide +kernel

/-- **No identifier goes on with a blank.** -/
theorem isIdentifierPart_of_isBlank (h : isBlank c = true) : isIdentifierPart c = false := by
  obtain ⟨r, hr, hle, hle'⟩ := exists_range_of_inRanges h
  have hcode : r.1 + (c.toNat - r.1) = c.toNat := by omega
  obtain ⟨hletter, hnumeric, hunder⟩ := blank_codes r hr (c.toNat - r.1) (by omega)
  rw [hcode] at hletter hnumeric hunder
  have hne : c ≠ '_' := fun he => hunder (congrArg Char.toNat he)
  simp [isIdentifierPart, isLetter, isNumeric, hletter, hnumeric, hne]

theorem toNat_of_isDigit (h : c.isDigit = true) : 48 ≤ c.toNat ∧ c.toNat ≤ 57 := by
  simpa [Char.isDigit, UInt32.le_iff_toNat_le] using h

theorem isIdentifierPart_of_isDigit (h : c.isDigit = true) : isIdentifierPart c = true := by
  obtain ⟨hle, hle'⟩ := toNat_of_isDigit h
  have : isNumeric c = true := by
    unfold isNumeric numericRanges inRanges
    rw [if_neg (by omega)]
    simp [hle']
  simp [isIdentifierPart, this]

theorem isIdentifierStart_of_isDigit (h : c.isDigit = true) : isIdentifierStart c = false := by
  obtain ⟨hle, hle'⟩ := toNat_of_isDigit h
  have hletter : isLetter c = false := by
    unfold isLetter alphabeticRanges inRanges
    rw [if_pos (by omega)]
  have hne : c ≠ '_' := by
    rintro rfl
    cases h
  simp [isIdentifierStart, hletter, hne]

theorem isBlank_of_isIdentifierPart (h : isIdentifierPart c = true) : isBlank c = false := by
  cases hb : isBlank c with
  | false => rfl
  | true => rw [isIdentifierPart_of_isBlank hb] at h; cases h

theorem isDigit_of_isBlank (h : isBlank c = true) : c.isDigit = false := by
  cases hd : c.isDigit with
  | false => rfl
  | true => rw [isBlank_of_isIdentifierPart (isIdentifierPart_of_isDigit hd)] at h; cases h

end Chars

/-! ## Valid words -/

section Valid

/-- The contents of a string without its opening quote; none, unless its first closing quote is its
last character and no newline stands unescaped before it. -/
def unquote? : List Char → Option (List Char)
  | ['"'] => some []
  | '\\' :: c :: cs => (unquote? cs).map (Lexeme.unescape c :: ·)
  | c :: cs => if c = '"' ∨ c = '\\' ∨ c = '\n' then none else (unquote? cs).map (c :: ·)
  | [] => none

/-- The node of an integer, unless it has no digits or does not fit 64 bits. -/
def integerShape? (long : Bool) (digits : List Char) : Option NodeShape :=
  if digits ≠ [] ∧ digitsValue digits < LiteralValue.longLimit then
    some (.literal (.ofInteger long (digitsValue digits)) (.ofList digits) { long })
  else none

/-- The node of a number: digits, digits with the suffix of long integers, or maybe digits, a point
and digits. -/
def numberShape? (text : List Char) : Option NodeShape :=
  let whole := text.takeWhile Char.isDigit
  match text.dropWhile Char.isDigit with
  | [] => integerShape? false whole
  | '.' :: fraction =>
    if fraction ≠ [] ∧ fraction.all Char.isDigit then
      some (.literal (.ofFloating text) (.ofList text) { floating := true })
    else none
  | [c] => if c = 'L' ∨ c = 'l' then integerShape? true whole else none
  | _ => none

/-- The node of a literal that is written with some characters, if they are a literal. -/
def literalShape? (text : List Char) : Option NodeShape :=
  match TokenKind.ofKeyword? text with
  | some kind => if kind.isValue then some (.token kind) else none
  | none =>
    match text with
    | '"' :: cs => (unquote? cs).map fun value => .literal (.text (.ofList value)) (.ofList text) {}
    | _ => numberShape? text

/-- Whether some characters are a name, and no keyword. -/
def isName : List Char → Bool
  | [] => false
  | c :: cs =>
    isIdentifierStart c && cs.all isIdentifierPart && (TokenKind.ofKeyword? (c :: cs)).isNone

/-- The marks of the grammar. -/
def marks : List TokenKind :=
  [.openBrace, .closeBrace, .openParen, .closeParen, .dot, .comma, .equals, .withKeyword]

/-- A word is a literal, a name, or a mark of the grammar. -/
def Word.IsValid : Word → Prop
  | .literal text => (literalShape? text.toList).isSome
  | .name text => isName text.toList = true
  | .mark kind => kind ∈ marks

instance : DecidablePred Word.IsValid
  | .literal text => inferInstanceAs (Decidable ((literalShape? text.toList).isSome = true))
  | .name text => inferInstanceAs (Decidable (isName text.toList = true))
  | .mark kind => inferInstanceAs (Decidable (kind ∈ marks))

/-- What the node of a token that is a literal says. -/
def Token.shape (t : Token) : NodeShape :=
  match t.kind with
  | .number => .literal (.ofNumber t.value.toList t.flags) t.value t.flags
  | .string => .literal (.text t.value) t.lexeme t.flags
  | kind => .token kind

/-- A token is what scanning makes of a valid word: it matches the word and has no problem, and a
literal says what its characters mean. -/
structure Word.Scanned (w : Word) (t : Token) : Prop where
  spells : w.Matches t
  problem : t.problem? = none
  inRange : t.InRange
  lexeme : t.lexeme = w.text
  shape : t.kind ∈ literalKinds → literalShape? t.lexeme.toList = some t.shape

end Valid

/-! ## Scanning one word -/

section Scans

/-- A text ends, or goes on with a blank. -/
def Ends (rest : List Char) : Prop :=
  ∀ c ∈ rest.head?, isBlank c = true

/-- Some characters are a token by themselves, whatever stands behind the blank that follows. -/
def Scans (text : List Char) (kind : TokenKind) (value : List Char) (flags : TokenFlags) : Prop :=
  ∃ c cs, text = c :: cs ∧ isBlank c = false ∧
    ∀ rest, Ends rest → Lexeme.first c (cs ++ rest) = ⟨kind, text, value, flags, rest⟩

variable {p : Char → Bool} {c : Char} {cs rest : List Char}

theorem takeWhile_of_ends (hp : ∀ c, isBlank c = true → p c = false)
    (hcs : ∀ c ∈ cs, p c = true) (hr : Ends rest) : (cs ++ rest).takeWhile p = cs := by
  rw [List.takeWhile_append_of_pos hcs]
  cases rest with
  | nil => simp
  | cons b rest => simp [hp b (hr b rfl)]

theorem dropWhile_of_ends (hp : ∀ c, isBlank c = true → p c = false)
    (hcs : ∀ c ∈ cs, p c = true) (hr : Ends rest) : (cs ++ rest).dropWhile p = rest := by
  rw [List.dropWhile_append_of_pos hcs]
  cases rest with
  | nil => rfl
  | cons b rest => simp [hp b (hr b rfl)]

theorem Scans.length_pos {text value : List Char} {kind : TokenKind} {flags : TokenFlags}
    (h : Scans text kind value flags) : 0 < text.length := by
  obtain ⟨c, cs, rfl, -, -⟩ := h
  exact Nat.zero_lt_succ _

theorem Scans.kind_ne_endOfFile {text value : List Char} {kind : TokenKind} {flags : TokenFlags}
    (h : Scans text kind value flags) : kind ≠ .endOfFile := by
  obtain ⟨c, cs, rfl, -, hfirst⟩ := h
  have hne := Token.first_kind_ne_endOfFile c (cs ++ [])
  rwa [hfirst [] nofun] at hne

/-- An identifier or keyword. -/
theorem scans_identifier (hc : isIdentifierStart c = true)
    (hcs : ∀ d ∈ cs, isIdentifierPart d = true) :
    Scans (c :: cs) ((TokenKind.ofKeyword? (c :: cs)).getD .identifier) (c :: cs) {} := by
  refine ⟨c, cs, rfl, isBlank_of_isIdentifierPart (isIdentifierPart_of_start hc), fun rest hr => ?_⟩
  have hdigit : c.isDigit = false := by
    cases hd : c.isDigit with
    | false => rfl
    | true => rw [isIdentifierStart_of_isDigit hd] at hc; cases hc
  unfold Lexeme.first
  split
  case h_9 =>
    rw [if_neg (by simp [hdigit]), if_pos hc, Lexeme.ofIdentifier,
      takeWhile_of_ends (fun _ => isIdentifierPart_of_isBlank) hcs hr,
      dropWhile_of_ends (fun _ => isIdentifierPart_of_isBlank) hcs hr]
  all_goals exact absurd hc (by decide)

/-- A string. Its closing quote ends it, so what stands behind does not matter. -/
theorem stringTail_of_unquote? {value : List Char} (h : unquote? cs = some value)
    (rest : List Char) : Lexeme.stringTail (cs ++ rest) = ⟨.string, cs, value, {}, rest⟩ := by
  fun_induction unquote? cs generalizing value with
  | case1 =>
    cases h
    rfl
  | case2 c cs ih =>
    obtain ⟨tail, htail, rfl⟩ := Option.map_eq_some_iff.1 h
    simp [Lexeme.stringTail, ih htail]
  | case3 c cs _ _ hc => cases h
  | case4 c cs _ _ hc ih =>
    obtain ⟨tail, htail, rfl⟩ := Option.map_eq_some_iff.1 h
    simp only [not_or] at hc
    rw [List.cons_append, Lexeme.stringTail]
    · simp [ih htail]
    all_goals simp [hc]
  | case5 => cases h

theorem scans_string {value : List Char} (h : unquote? cs = some value) :
    Scans ('"' :: cs) .string value {} := by
  refine ⟨'"', cs, rfl, by decide, fun rest _ => ?_⟩
  rw [Lexeme.first, Lexeme.ofString, stringTail_of_unquote? h]

theorem first_of_isDigit (h : c.isDigit = true) : Lexeme.first c cs = Lexeme.ofNumber c cs := by
  unfold Lexeme.first
  split
  case h_9 => rw [if_pos h]
  all_goals exact absurd h (by decide)

theorem isBlank_of_isDigit (h : c.isDigit = true) : isBlank c = false :=
  isBlank_of_isIdentifierPart (isIdentifierPart_of_isDigit h)

/-- Digits. -/
theorem scans_digits (hc : c.isDigit = true) (hcs : ∀ d ∈ cs, d.isDigit = true) :
    Scans (c :: cs) .number (c :: cs) {} := by
  refine ⟨c, cs, rfl, isBlank_of_isDigit hc, fun rest hr => ?_⟩
  rw [first_of_isDigit hc, Lexeme.ofNumber, takeWhile_of_ends (fun _ => isDigit_of_isBlank) hcs hr,
    dropWhile_of_ends (fun _ => isDigit_of_isBlank) hcs hr]
  cases rest with
  | nil => rfl
  | cons b rest =>
    have hb : isBlank b = true := hr b rfl
    have hpoint : b ≠ '.' := by
      rintro rfl
      exact absurd hb (by decide)
    have hsuffix : ¬ (b = 'L' ∨ b = 'l') := by
      rintro (rfl | rfl) <;> exact absurd hb (by decide)
    rw [Lexeme.numberTail, if_neg hsuffix]
    simp [hpoint]

/-- Digits and the suffix of long integers. -/
theorem scans_long {suffix : Char} (hc : c.isDigit = true) (hcs : ∀ d ∈ cs, d.isDigit = true)
    (hs : suffix = 'L' ∨ suffix = 'l') :
    Scans (c :: cs ++ [suffix]) .number (c :: cs) { long := true } := by
  refine ⟨c, cs ++ [suffix], rfl, isBlank_of_isDigit hc, fun rest _ => ?_⟩
  have hdigit : suffix.isDigit = false := by
    rcases hs with rfl | rfl <;> rfl
  have hpoint : suffix ≠ '.' := by
    rcases hs with rfl | rfl <;> decide
  rw [first_of_isDigit hc, Lexeme.ofNumber, List.append_assoc, List.takeWhile_append_of_pos hcs,
    List.dropWhile_append_of_pos hcs, List.singleton_append,
    List.takeWhile_cons_of_neg (by simp [hdigit]), List.dropWhile_cons_of_neg (by simp [hdigit]),
    List.append_nil, Lexeme.numberTail, if_pos hs]
  simp [hpoint]

/-- Maybe digits, a point and digits. -/
theorem scans_fraction {whole : List Char} {d : Char} (hw : ∀ d ∈ whole, d.isDigit = true)
    (hd : d.isDigit = true) (hcs : ∀ d ∈ cs, d.isDigit = true) :
    Scans (whole ++ '.' :: d :: cs) .number (whole ++ '.' :: d :: cs) { floating := true } := by
  cases whole with
  | nil =>
    refine ⟨'.', d :: cs, rfl, by decide, fun rest hr => ?_⟩
    have hall : ∀ d' ∈ d :: cs, d'.isDigit = true := List.forall_mem_cons.2 ⟨hd, hcs⟩
    rw [Lexeme.first, if_pos (by simpa [Lexeme.startsWithDigit] using hd), Lexeme.ofFraction,
      takeWhile_of_ends (fun _ => isDigit_of_isBlank) hall hr,
      dropWhile_of_ends (fun _ => isDigit_of_isBlank) hall hr]
    rfl
  | cons c whole =>
    rw [List.forall_mem_cons] at hw
    refine ⟨c, whole ++ '.' :: d :: cs, rfl, isBlank_of_isDigit hw.1, fun rest hr => ?_⟩
    rw [first_of_isDigit hw.1, Lexeme.ofNumber, List.append_assoc,
      List.takeWhile_append_of_pos hw.2, List.dropWhile_append_of_pos hw.2, List.cons_append,
      List.cons_append, List.takeWhile_cons_of_neg (by decide),
      List.dropWhile_cons_of_neg (by decide), Lexeme.numberTail, if_pos hd,
      takeWhile_of_ends (fun _ => isDigit_of_isBlank) hcs hr,
      dropWhile_of_ends (fun _ => isDigit_of_isBlank) hcs hr]
    simp

/-- A mark of the grammar. Behind a point, no digit goes on to a number. -/
theorem scans_mark {kind : TokenKind} (h : kind ∈ marks) :
    ∃ value, Scans kind.text.toList kind value {} := by
  have single : ∀ {c : Char} {kind : TokenKind}, isBlank c = false →
      (∀ rest, Ends rest → Lexeme.first c rest = Lexeme.single kind c rest) →
      ∃ value, Scans [c] kind value {} :=
    fun hb hf => ⟨[], _, [], rfl, hb, fun rest hr => hf rest hr⟩
  simp only [marks, List.mem_cons, List.not_mem_nil, or_false] at h
  rcases h with rfl | rfl | rfl | rfl | rfl | rfl | rfl | rfl
  case inr.inr.inr.inr.inl =>
    refine single (c := '.') (by decide) fun rest hr => ?_
    cases rest with
    | nil => rfl
    | cons b rest =>
      rw [Lexeme.first, if_neg]
      simp [Lexeme.startsWithDigit, isDigit_of_isBlank (hr b rfl)]
  case inr.inr.inr.inr.inr.inr.inr =>
    exact ⟨_, scans_identifier (by decide) (List.all_eq_true.1 (by decide))⟩
  all_goals exact single (by decide) fun rest _ => rfl

end Scans

/-! ## Valid words are tokens -/

section Words

variable {text : List Char} {shape : NodeShape}

theorem integerShape?_eq_some {long : Bool} {digits : List Char}
    (h : integerShape? long digits = some shape) :
    ∃ c cs, digits = c :: cs ∧ LiteralValue.ofInteger long (digitsValue digits) ≠ .invalid ∧
      shape = .literal (.ofNumber digits { long }) (.ofList digits) { long } := by
  unfold integerShape? at h
  split at h
  · next hd =>
    obtain ⟨c, cs, rfl⟩ := List.exists_cons_of_ne_nil hd.1
    refine ⟨c, cs, rfl, ?_, (Option.some.inj h).symm⟩
    rw [ne_eq, LiteralValue.ofInteger_eq_invalid_iff]
    exact Nat.not_le.2 hd.2
  · cases h

/-- A number is a token by itself, with the value that its node says. -/
theorem scans_number (h : numberShape? text = some shape) :
    ∃ value flags, Scans text .number value flags ∧ flags.unterminated = false ∧
      LiteralValue.ofNumber value flags ≠ .invalid ∧
      shape = .literal (.ofNumber value flags) (.ofList value) flags := by
  have htext : text.takeWhile Char.isDigit ++ text.dropWhile Char.isDigit = text :=
    List.takeWhile_append_dropWhile
  have hdigits : ∀ c ∈ text.takeWhile Char.isDigit, c.isDigit = true := fun c hc =>
    List.mem_takeWhile_imp hc
  unfold numberShape? at h
  generalize hwhole : text.takeWhile Char.isDigit = whole at h htext hdigits
  dsimp only at h
  split at h
  · next hrest =>
    rw [hrest, List.append_nil] at htext
    subst htext
    obtain ⟨c, cs, rfl, hv, rfl⟩ := integerShape?_eq_some h
    rw [List.forall_mem_cons] at hdigits
    exact ⟨_, _, scans_digits hdigits.1 hdigits.2, rfl, hv, rfl⟩
  · next fraction hrest =>
    rw [hrest] at htext
    subst htext
    split at h
    · next hf =>
      obtain ⟨d, cs, rfl⟩ := List.exists_cons_of_ne_nil hf.1
      obtain ⟨hd, hcs⟩ := List.forall_mem_cons.1 (List.all_eq_true.1 hf.2)
      refine ⟨_, _, scans_fraction hdigits hd hcs, rfl, ?_, (Option.some.inj h).symm⟩
      simp [LiteralValue.ofNumber, LiteralValue.ofFloating]
    · cases h
  · next suffix _ hrest =>
    rw [hrest] at htext
    subst htext
    split at h
    · next hs =>
      obtain ⟨c, cs, rfl, hv, rfl⟩ := integerShape?_eq_some h
      rw [List.forall_mem_cons] at hdigits
      exact ⟨_, _, scans_long hdigits.1 hdigits.2 hs, rfl, hv, rfl⟩
    · cases h
  · cases h

/-- A keyword is spelled like an identifier. -/
theorem scans_keyword {kind : TokenKind} (h : TokenKind.ofKeyword? text = some kind) :
    Scans text kind text {} := by
  have : ∃ c cs, text = c :: cs ∧ isIdentifierStart c = true ∧
      ∀ d ∈ cs, isIdentifierPart d = true := by
    unfold TokenKind.ofKeyword? at h
    split at h
    case h_5 => cases h
    all_goals exact ⟨_, _, rfl, by decide, List.all_eq_true.1 (by decide)⟩
  obtain ⟨c, cs, rfl, hc, hcs⟩ := this
  have hscans := scans_identifier hc hcs
  rwa [h] at hscans

/-- A token with the characters of a literal is what scanning makes of it, if its data are those of
the literal. -/
theorem Word.Scanned.of_literal {text : String} {t : Token} (hk : t.kind ∈ literalKinds)
    (hu : t.flags.unterminated = false) (hr : t.InRange) (hl : t.lexeme = text)
    (hs : literalShape? text.toList = some t.shape) : (Word.literal text).Scanned t where
  spells := ⟨hk, hl⟩
  problem := by
    have hne : t.kind ≠ .unknown := fun he => by simp [he, literalKinds] at hk
    simp [Token.problem?, Token.issue?, hne, hu]
  inRange := hr
  lexeme := hl
  shape _ := hl ▸ hs

/-- A keyword that is a literal. -/
theorem literalKinds_of_isValue {kind : TokenKind} (h : kind.isValue = true) :
    kind ∈ literalKinds ∧ kind ≠ .number ∧ kind ≠ .string := by
  cases kind <;> first | exact absurd h (by decide) | simp [literalKinds]

theorem Token.shape_of_ne {t : Token} (hn : t.kind ≠ .number) (hs : t.kind ≠ .string) :
    t.shape = .token t.kind := by
  unfold shape
  split
  · next h => exact absurd h hn
  · next h => exact absurd h hs
  · rfl

/-- **A valid literal is a token by itself.** -/
theorem scans_literal {text : String} (h : literalShape? text.toList = some shape) :
    ∃ kind value flags, Scans text.toList kind value flags ∧
      ∀ span, (Word.literal text).Scanned ⟨kind, span, .ofList value, flags, text⟩ := by
  have hs := h
  unfold literalShape? at h
  split at h
  · next kind hk =>
    refine ⟨kind, _, _, scans_keyword hk, fun span => ?_⟩
    split at h
    · next hv =>
      obtain ⟨hmem, hnumber, hstring⟩ := literalKinds_of_isValue hv
      refine .of_literal hmem rfl (Token.inRange_of_ne hnumber) rfl ?_
      rw [hs, ← h, Token.shape_of_ne hnumber hstring]
    · cases h
  · split at h
    · next cs htext =>
      obtain ⟨value, hv, rfl⟩ := Option.map_eq_some_iff.1 h
      refine ⟨_, _, _, htext ▸ scans_string hv, fun span => ?_⟩
      refine .of_literal (by simp [literalKinds]) rfl (Token.inRange_of_ne (by simp)) rfl ?_
      simpa [Token.shape] using hs
    · obtain ⟨value, flags, hscans, hu, hv, rfl⟩ := scans_number h
      refine ⟨_, _, _, hscans, fun span => ?_⟩
      refine .of_literal (by simp [literalKinds]) hu (fun _ => ?_) rfl ?_
      · simpa using hv
      · simpa [Token.shape] using hs

/-- **A valid word is a token by itself, and the token matches it.** -/
theorem Word.scans {w : Word} (h : w.IsValid) : ∃ kind value flags,
    Scans w.text.toList kind value flags ∧
      ∀ span, w.Scanned ⟨kind, span, .ofList value, flags, w.text⟩ := by
  cases w with
  | literal text =>
    obtain ⟨shape, hs⟩ := Option.isSome_iff_exists.1 h
    exact scans_literal hs
  | name text =>
    obtain ⟨c, cs, htext⟩ : ∃ c cs, text.toList = c :: cs := by
      cases ht : text.toList with
      | nil => simp [Word.IsValid, ht, isName] at h
      | cons c cs => exact ⟨c, cs, rfl⟩
    simp only [Word.IsValid, htext, isName, Bool.and_eq_true, List.all_eq_true,
      Option.isNone_iff_eq_none] at h
    have hscans := scans_identifier h.1.1 h.1.2
    rw [h.2, Option.getD_none, ← htext] at hscans
    refine ⟨_, _, _, hscans, fun span => ⟨⟨rfl, String.ofList_toList⟩, rfl, ?_, rfl, ?_⟩⟩
    · exact Token.inRange_of_ne (by simp)
    · intro hk
      simp [literalKinds] at hk
  | mark kind =>
    obtain ⟨value, hscans⟩ := scans_mark h
    have hkind : kind ≠ .number ∧ kind ≠ .unknown ∧ kind ∉ literalKinds := by
      simp only [Word.IsValid, marks, List.mem_cons, List.not_mem_nil, or_false] at h
      rcases h with rfl | rfl | rfl | rfl | rfl | rfl | rfl | rfl <;> decide
    refine ⟨_, _, _, hscans, fun span => ⟨rfl, ?_, ?_, rfl, fun hk => absurd hk hkind.2.2⟩⟩
    · simp [Token.problem?, Token.issue?, hkind.2.1]
    · exact Token.inRange_of_ne hkind.1

end Words

/-! ## Words one by one -/

section Texts

/-- A text is made of some words with blanks between them, and maybe around them. -/
inductive Spaced : List Word → List Char → Prop
  | nil {blanks : List Char} (h : ∀ c ∈ blanks, isBlank c = true) : Spaced [] blanks
  | cons {w : Word} {ws : List Word} {blanks rest : List Char}
    (h : ∀ c ∈ blanks, isBlank c = true) (he : Ends rest) (hs : Spaced ws rest) :
    Spaced (w :: ws) (blanks ++ (w.text.toList ++ rest))

/-- Some words in one line, with a blank in front of each. -/
def Word.line (ws : List Word) : List Char :=
  ws.flatMap fun w => ' ' :: w.text.toList

theorem Word.spaced_line (ws : List Word) : Spaced ws (line ws) := by
  induction ws with
  | nil => exact .nil nofun
  | cons w ws ih =>
    have hends : Ends (line ws) := by
      cases ws with
      | nil => exact nofun
      | cons _ _ =>
        rintro _ ⟨⟩
        decide
    have hblank : ∀ c ∈ [' '], isBlank c = true := List.forall_mem_singleton.2 (by decide)
    exact .cons hblank hends ih

/-- A token is what scanning makes of a word of a text, and its span covers the word. -/
structure Word.StandsIn (text : List Char) (w : Word) (t : Token) : Prop extends w.Scanned t where
  slice : t.span.slice text = t.lexeme.toList

variable {blanks rest : List Char}

theorem Position.skipBlanks_append (h : ∀ c ∈ blanks, isBlank c = true)
    (hr : ∀ c ∈ rest.head?, isBlank c = false) (offset : Nat) :
    skipBlanks ⟨offset, blanks ++ rest⟩ = ⟨offset + byteLength blanks, rest⟩ := by
  simp only [skipBlanks, List.takeWhile_append_of_pos h, List.dropWhile_append_of_pos h]
  cases rest with
  | nil => simp
  | cons c rest => simp [hr c rfl]

/-- The token of a word behind blanks, and the position behind the word. -/
theorem Token.next_of_scans {w : Word} {kind : TokenKind} {value : List Char} {flags : TokenFlags}
    (hw : Scans w.text.toList kind value flags) (h : ∀ c ∈ blanks, isBlank c = true)
    (he : Ends rest) (offset : Nat) :
    next ⟨offset, blanks ++ (w.text.toList ++ rest)⟩ =
      (⟨kind, ⟨offset + byteLength blanks,
          offset + byteLength blanks + byteLength w.text.toList⟩, .ofList value, flags, w.text⟩,
        ⟨offset + byteLength blanks + byteLength w.text.toList, rest⟩) := by
  obtain ⟨c, cs, htext, hc, hfirst⟩ := hw
  rw [next, Position.skipBlanks_append h (by simpa [htext] using hc)]
  simp only [atPosition, htext, List.cons_append, hfirst rest he]
  rw [← htext, String.ofList_toList]

/-- The tokens from a position on, where valid words are left. -/
theorem Token.listFrom_of_spaced {ws : List Word} {text : List Char} (hs : Spaced ws text)
    (hv : ∀ w ∈ ws, w.IsValid) (before : List Char) {n : Nat} (hn : text.length < n) :
    ∃ ts stop, listFrom n ⟨byteLength before, text⟩ = ts ++ [.endAt stop] ∧
      List.Forall₂ (Word.StandsIn (before ++ text)) ws ts := by
  -- The induction is along the words; those that are passed move to the text before.
  induction hs generalizing before n with
  | @nil blanks h =>
    obtain ⟨n, rfl⟩ := Nat.exists_eq_add_one.2 (Nat.zero_lt_of_lt hn)
    have hskip : Position.skipBlanks ⟨byteLength before, blanks ++ []⟩ = _ :=
      Position.skipBlanks_append h (by simp) _
    rw [List.append_nil] at hskip
    refine ⟨[], byteLength before + byteLength blanks, ?_, .nil⟩
    simp [listFrom, next, hskip, atPosition, endAt]
  | @cons w ws blanks rest h he hs ih =>
    obtain ⟨hw, hws⟩ := List.forall_mem_cons.1 hv
    obtain ⟨kind, value, flags, hscans, hscanned⟩ := Word.scans hw
    obtain ⟨n, rfl⟩ := Nat.exists_eq_add_one.2 (Nat.zero_lt_of_lt hn)
    have hnext := next_of_scans hscans h he (byteLength before)
    have hlength : rest.length < n := by
      have := hscans.length_pos
      simp only [List.length_append] at hn
      omega
    obtain ⟨ts, stop, hlist, hts⟩ := ih hws (before ++ (blanks ++ w.text.toList)) hlength
    simp only [byteLength_append, ← Nat.add_assoc] at hlist
    have hstands : w.StandsIn (before ++ (blanks ++ (w.text.toList ++ rest)))
        ⟨kind, ⟨byteLength before + byteLength blanks,
          byteLength before + byteLength blanks + byteLength w.text.toList⟩, .ofList value, flags,
          w.text⟩ := by
      refine ⟨hscanned _, ?_⟩
      have := Span.slice_append (before ++ blanks) w.text.toList rest
      simpa [List.append_assoc] using this
    refine ⟨_ :: ts, stop, ?_, .cons hstands ?_⟩
    · rw [listFrom, hnext]
      simp only [hscans.kind_ne_endOfFile, if_false, hlist]
      rfl
    · simpa [List.append_assoc] using hts

/-- **The tokens of a text that is made of valid words** are those words, and its end. -/
theorem Token.ofText_of_spaced {ws : List Word} {text : List Char} (hs : Spaced ws text)
    (hv : ∀ w ∈ ws, w.IsValid) : ∃ ts stop, ofText text = ts ++ [.endAt stop] ∧
      List.Forall₂ (Word.StandsIn text) ws ts :=
  listFrom_of_spaced hs hv [] (Nat.lt_succ_self _)

end Texts

end UpdateExpr
