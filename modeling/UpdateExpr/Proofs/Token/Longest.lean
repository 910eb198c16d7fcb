import UpdateExpr.Proofs.Syntax.Spaced
import UpdateExpr.Proofs.Token.Cut
import UpdateExpr.Proofs.Token.Scanning

/-!
# Longest lexemes

The grammar of tokens says, form by form, which characters are a token, what they stand for, and
which flags they have. Several forms may fit the front of a text, and one form may fit it in several
lengths. The scanner looks at one or two characters at a time, and yet what it takes is the longest
of all.

## Main definitions

* `IsDigits`, `IsNumber`, `IsWord`: the characters of numbers and of words
* `Lexeme.Formed`: the grammar of tokens
* `Lexeme.IsLongest`: the longest lexeme at the front of a text; where none is formed, a character
  by itself

## Main results

* `Lexeme.Formed.eq_or_lt`: a lexeme at the front of a text is the one that is scanned, or shorter
* `Lexeme.isLongest_iff`: the scanned lexeme is the longest one, and there is no other
* `Scanner.scans_longest`: each token of a text is the longest at its place
-/

namespace UpdateExpr

/-! ## The grammar -/

/-- One digit or more. -/
def IsDigits (ds : List Char) : Prop :=
  ds ≠ [] ∧ ∀ d ∈ ds, d.isDigit = true

/-- The characters of a number: digits, maybe with the suffix of long integers, and digits behind a
point, maybe with others in front of it. -/
inductive IsNumber : List Char → Prop
  | whole {ds : List Char} (h : IsDigits ds) : IsNumber ds
  | long {ds : List Char} {suffix : Char} (h : IsDigits ds) (hs : suffix = 'L' ∨ suffix = 'l') :
    IsNumber (ds ++ [suffix])
  | mixed {ds es : List Char} (h : IsDigits ds) (he : IsDigits es) : IsNumber (ds ++ '.' :: es)
  | fraction {es : List Char} (he : IsDigits es) : IsNumber ('.' :: es)

/-- The characters of an identifier or keyword. -/
def IsWord : List Char → Prop
  | [] => False
  | c :: cs => isIdentifierStart c = true ∧ ∀ d ∈ cs, isIdentifierPart d = true

/-- The characters that always are tokens by themselves. -/
def markChars : List (TokenKind × Char) :=
  [(.openBrace, '{'), (.closeBrace, '}'), (.openParen, '('), (.closeParen, ')'), (.comma, ','),
    (.equals, '=')]

/-- Whether the last of some characters is the suffix of long integers. -/
def endsLong (text : List Char) : Bool :=
  text.getLast?.any fun c => c == 'L' || c == 'l'

namespace Lexeme

/-- Some characters as a number: it stands for its characters less the suffix, and it is floating if
there is a point in it. -/
def number (text rest : List Char) : Lexeme where
  kind := .number
  taken := text
  value := if endsLong text then text.dropLast else text
  flags := { floating := text.contains '.', long := endsLong text }
  rest := rest

/-- **The grammar of tokens.** A point is a token unless a digit stands behind it; a string goes up
to the first quote that is not escaped, and one that is not closed goes through the first newline
that is not escaped, or up to the end of the text. -/
inductive Formed : Lexeme → Prop
  | mark {kind : TokenKind} {c : Char} {rest : List Char} (h : (kind, c) ∈ markChars) :
    Formed (single kind c rest)
  | dot {rest : List Char} (h : ∀ c ∈ rest.head?, c.isDigit = false) : Formed (single .dot '.' rest)
  | number {text rest : List Char} (h : IsNumber text) : Formed (number text rest)
  | keyword {kind : TokenKind} {rest : List Char} (h : kind.isKeyword = true) :
    Formed ⟨kind, kind.text.toList, kind.text.toList, {}, rest⟩
  | identifier {text rest : List Char} (h : IsWord text)
    (hk : ∀ kind : TokenKind, kind.isKeyword = true → text ≠ kind.text.toList) :
    Formed ⟨.identifier, text, text, {}, rest⟩
  | closed {body rest : List Char} (h : GoesOn body) (hu : Unescaped body) :
    Formed ⟨.string, '"' :: (body ++ ['"']), decoded body, {}, rest⟩
  | broken {body rest : List Char} (h : GoesOn body) (hu : Unescaped body) :
    Formed ⟨.string, '"' :: (body ++ ['\n']), decoded body, { unterminated := true }, rest⟩
  | unclosed {body : List Char} (h : GoesOn body) :
    Formed ⟨.string, '"' :: body, decoded body, { unterminated := true }, []⟩

/-- The longest lexeme at the front of a text. Where the grammar has none, the first character is a
token that is unknown. -/
inductive IsLongest (text : List Char) : Lexeme → Prop
  | formed {l : Lexeme} (h : l.Formed) (ht : l.taken ++ l.rest = text)
    (hmax : ∀ l' : Lexeme, l'.Formed → l'.taken ++ l'.rest = text →
      l'.taken.length ≤ l.taken.length) : IsLongest text l
  | unknown {c : Char} {cs : List Char} (ht : c :: cs = text)
    (hnone : ∀ l' : Lexeme, l'.Formed → l'.taken ++ l'.rest ≠ text) :
    IsLongest text (single .unknown c cs)

/-- The token that a lexeme is at a place. -/
def token (l : Lexeme) (start : Nat) : Token where
  kind := l.kind
  span := ⟨start, start + byteLength l.taken⟩
  value := .ofList l.value
  flags := l.flags
  lexeme := .ofList l.taken

end Lexeme

/-! ## Characters -/

section Chars

variable {p : Char → Bool} {c : Char} {ds es cs rest : List Char}

/-- Characters that some class goes on with are all of them, or there are more. -/
theorem takeWhile_eq_or_lt (h : ∀ d ∈ ds, p d = true) (rest : List Char) :
    ((ds ++ rest).takeWhile p = ds ∧ (ds ++ rest).dropWhile p = rest) ∨
      ds.length < ((ds ++ rest).takeWhile p).length := by
  cases rest with
  | nil => exact .inl (takeWhile_append_eq h nofun)
  | cons d rest =>
    by_cases hd : p d = true
    · refine .inr ?_
      rw [List.takeWhile_append_of_pos h, List.takeWhile_cons_of_pos hd]
      simp
    · exact .inl (takeWhile_append_eq h (by simpa using hd))

theorem IsDigits.takeWhile (hc : c.isDigit = true) (cs : List Char) :
    IsDigits (c :: cs.takeWhile Char.isDigit) :=
  ⟨List.cons_ne_nil _ _, List.forall_mem_cons.2 ⟨hc, fun _ hd => List.mem_takeWhile_imp hd⟩⟩

theorem not_isDigit_of_suffix (hs : c = 'L' ∨ c = 'l') : c.isDigit = false := by
  rcases hs with rfl | rfl <;> rfl

theorem not_mem_point_of_digits (h : ∀ d ∈ ds, d.isDigit = true) : '.' ∉ ds :=
  fun hp => absurd (h _ hp) (by decide)

/-- Characters that end in digits do not end in a suffix. -/
theorem endsLong_append (es : List Char) (h : IsDigits ds) : endsLong (es ++ ds) = false := by
  obtain ⟨hne, hd⟩ := h
  have hlast : (es ++ ds).getLast? = some (ds.getLast hne) := by
    rw [List.getLast?_append_of_ne_nil _ hne, List.getLast?_eq_some_getLast hne]
  have hdigit := hd _ (ds.getLast_mem hne)
  rw [endsLong, hlast, Option.any_some, Bool.or_eq_false_iff, beq_eq_false_iff_ne,
    beq_eq_false_iff_ne]
  constructor
  all_goals
    intro he
    rw [he] at hdigit
    cases hdigit

end Chars

/-! ## Numbers -/

namespace Lexeme

variable {c : Char} {ds es cs rest : List Char} {l : Lexeme}

theorem number_whole (h : IsDigits ds) :
    number ds rest = { kind := .number, taken := ds, value := ds, rest } := by
  have hlong : endsLong ds = false := endsLong_append [] h
  have hpoint : ds.contains '.' = false := by simpa using not_mem_point_of_digits h.2
  rw [number, hlong, hpoint]
  rfl

theorem number_long (h : IsDigits ds) (hs : c = 'L' ∨ c = 'l') : number (ds ++ [c]) rest =
    { kind := .number, taken := ds ++ [c], value := ds, flags := { long := true }, rest } := by
  have hlong : endsLong (ds ++ [c]) = true := by
    rw [endsLong, List.getLast?_concat]
    rcases hs with rfl | rfl <;> rfl
  have hpoint : (ds ++ [c]).contains '.' = false := by
    have hc : c ≠ '.' := by rcases hs with rfl | rfl <;> decide
    simpa [hc.symm] using not_mem_point_of_digits h.2
  rw [number, hlong, hpoint, if_pos rfl, List.dropLast_concat]

theorem number_point (he : IsDigits es) : number (ds ++ '.' :: es) rest =
    { kind := .number, taken := ds ++ '.' :: es, value := ds ++ '.' :: es
      flags := { floating := true }, rest } := by
  have hlong : endsLong (ds ++ '.' :: es) = false := by
    rw [List.append_cons]
    exact endsLong_append _ he
  have hpoint : (ds ++ '.' :: es).contains '.' = true := by simp
  rw [number, hlong, hpoint]
  rfl

theorem numberTail_point (hd : c.isDigit = true) (ds cs : List Char) :
    numberTail ds ('.' :: c :: cs) =
      number (ds ++ '.' :: c :: cs.takeWhile Char.isDigit) (cs.dropWhile Char.isDigit) := by
  rw [numberTail, if_pos hd, number_point (IsDigits.takeWhile hd cs)]

/-- A point in front of a digit starts a number without digits in front of the point. -/
theorem first_fraction (hd : c.isDigit = true) :
    first '.' (c :: cs) = numberTail [] ('.' :: c :: cs) := by
  have hstarts : startsWithDigit (c :: cs) = true := hd
  rw [first, if_pos hstarts, ofFraction, numberTail, if_pos hd, List.takeWhile_cons_of_pos hd,
    List.dropWhile_cons_of_pos hd]
  rfl

/-- What is scanned of digits and what follows them is a number. -/
theorem exists_number_numberTail (h : IsDigits ds) (cs : List Char) :
    ∃ text rest, IsNumber text ∧ numberTail ds cs = number text rest := by
  fun_cases numberTail ds cs with
  | case1 d cs hd =>
    have he := IsDigits.takeWhile hd cs
    exact ⟨_, _, .mixed h he, (number_point he).symm⟩
  | case3 c cs _ hs => exact ⟨_, _, .long h hs, (number_long h hs).symm⟩
  | case2 | case4 | case5 => exact ⟨_, _, .whole h, (number_whole h).symm⟩

theorem ofNumber_of_digits (hd : ∀ d ∈ ds, d.isDigit = true)
    (hr : ∀ d ∈ rest.head?, d.isDigit = false) :
    ofNumber c (ds ++ rest) = numberTail (c :: ds) rest := by
  obtain ⟨ht, hdrop⟩ := takeWhile_append_eq hd hr
  rw [ofNumber, ht, hdrop]

/-- Digits are all that is scanned, or they are less. -/
theorem ofNumber_eq_or_lt (h : ∀ d ∈ ds, d.isDigit = true) (rest : List Char) :
    { kind := .number, taken := c :: ds, value := c :: ds, rest } = ofNumber c (ds ++ rest) ∨
      (c :: ds).length < (ofNumber c (ds ++ rest)).taken.length := by
  rcases takeWhile_eq_or_lt h rest with ⟨ht, hdrop⟩ | hlt
  · rw [ofNumber, ht, hdrop]
    obtain ⟨more, hmore⟩ := numberTail_taken (c :: ds) rest
    by_cases hm : more = []
    · rw [hm, List.append_nil] at hmore
      exact .inl (endsNumber_of_taken hmore).numberTail_eq.symm
    · have hpos := List.length_pos_of_ne_nil hm
      rw [hmore, List.length_append]
      exact .inr (Nat.lt_add_of_pos_right hpos)
  · obtain ⟨more, hmore⟩ := numberTail_taken (c :: (ds ++ rest).takeWhile Char.isDigit)
      ((ds ++ rest).dropWhile Char.isDigit)
    rw [ofNumber, hmore, List.length_append]
    exact .inr (Nat.lt_add_right _ (Nat.succ_lt_succ hlt))

/-- A point and digits are all that is scanned behind some digits, or they are less. -/
theorem numberTail_eq_or_lt (he : IsDigits es) (ds rest : List Char) :
    number (ds ++ '.' :: es) rest = numberTail ds ('.' :: (es ++ rest)) ∨
      (ds ++ '.' :: es).length < (numberTail ds ('.' :: (es ++ rest))).taken.length := by
  rw [number_point he]
  obtain ⟨e, es, rfl⟩ := List.exists_cons_of_ne_nil he.1
  obtain ⟨hd, hes⟩ := List.forall_mem_cons.1 he.2
  rw [List.cons_append, numberTail, if_pos hd]
  rcases takeWhile_eq_or_lt hes rest with ⟨ht, hdrop⟩ | hlt
  · rw [ht, hdrop]
    exact .inl rfl
  · refine .inr ?_
    simp only [List.length_append, List.length_cons]
    omega

/-- **A number at the front of a text is the one that is scanned, or shorter.** -/
theorem number_eq_or_lt {more : List Char} (h : IsNumber (c :: more)) (rest : List Char) :
    number (c :: more) rest = first c (more ++ rest) ∨
      (c :: more).length < (first c (more ++ rest)).taken.length := by
  generalize ht : c :: more = text at h
  cases h with
  | whole h =>
    subst ht
    rw [number_whole h, first_of_isDigit (List.forall_mem_cons.1 h.2).1]
    exact ofNumber_eq_or_lt (List.forall_mem_cons.1 h.2).2 rest
  | @long ds suffix h hs =>
    rw [number_long h hs]
    obtain ⟨d, ds, rfl⟩ := List.exists_cons_of_ne_nil h.1
    obtain ⟨rfl, rfl⟩ : c = d ∧ more = ds ++ [suffix] := by simpa using ht
    obtain ⟨hc, hds⟩ := List.forall_mem_cons.1 h.2
    have hpoint : suffix ≠ '.' := by rcases hs with rfl | rfl <;> decide
    have hnot := not_isDigit_of_suffix hs
    rw [first_of_isDigit hc, List.append_assoc, List.singleton_append,
      ofNumber_of_digits hds (by simpa using hnot), numberTail, if_pos hs]
    · exact .inl rfl
    · simp [hpoint]
  | @mixed ds es h he =>
    obtain ⟨d, ds, rfl⟩ := List.exists_cons_of_ne_nil h.1
    obtain ⟨rfl, rfl⟩ : c = d ∧ more = ds ++ '.' :: es := by simpa using ht
    obtain ⟨hc, hds⟩ := List.forall_mem_cons.1 h.2
    rw [first_of_isDigit hc, List.append_assoc, List.cons_append,
      ofNumber_of_digits hds (by simp)]
    exact numberTail_eq_or_lt he (c :: ds) rest
  | @fraction es he =>
    obtain ⟨rfl, rfl⟩ := List.cons.inj ht
    have hfirst : first '.' (more ++ rest) = numberTail [] ('.' :: (more ++ rest)) := by
      obtain ⟨e, es, rfl⟩ := List.exists_cons_of_ne_nil he.1
      exact first_fraction (List.forall_mem_cons.1 he.2).1
    rw [hfirst]
    exact numberTail_eq_or_lt he [] rest

/-! ## Words and marks -/

theorem first_of_isIdentifierStart (h : isIdentifierStart c = true) :
    first c cs = ofIdentifier c cs := by
  have hdigit : c.isDigit = false := by
    cases hd : c.isDigit with
    | false => rfl
    | true => rw [isIdentifierStart_of_isDigit hd] at h; cases h
  unfold first
  split
  case h_9 => rw [if_neg (by simp [hdigit]), if_pos h]
  all_goals exact absurd h (by decide)

/-- Which words are keywords, and how they are spelled. -/
theorem ofKeyword?_eq_some_iff {word : List Char} {kind : TokenKind} :
    TokenKind.ofKeyword? word = some kind ↔ kind.isKeyword = true ∧ word = kind.text.toList := by
  constructor
  · intro h
    unfold TokenKind.ofKeyword? at h
    split at h
    case h_5 => cases h
    all_goals
      cases h
      exact ⟨rfl, rfl⟩
  · rintro ⟨hk, rfl⟩
    revert hk
    cases kind <;> decide

/-- What is scanned of a word is a keyword or an identifier. -/
theorem formed_word {text : List Char} (h : IsWord text) (rest : List Char) :
    Formed ⟨(TokenKind.ofKeyword? text).getD .identifier, text, text, {}, rest⟩ := by
  cases hk : TokenKind.ofKeyword? text with
  | some kind =>
    obtain ⟨hkind, rfl⟩ := ofKeyword?_eq_some_iff.1 hk
    exact .keyword hkind
  | none =>
    refine .identifier h fun kind hkind htext => ?_
    rw [ofKeyword?_eq_some_iff.2 ⟨hkind, htext⟩] at hk
    cases hk

/-- **A word at the front of a text is the one that is scanned, or shorter.** -/
theorem word_eq_or_lt {more : List Char} (h : IsWord (c :: more)) (rest : List Char) :
    ⟨(TokenKind.ofKeyword? (c :: more)).getD .identifier, c :: more, c :: more, {}, rest⟩ =
        first c (more ++ rest) ∨
      (c :: more).length < (first c (more ++ rest)).taken.length := by
  rw [first_of_isIdentifierStart h.1, ofIdentifier]
  rcases takeWhile_eq_or_lt h.2 rest with ⟨ht, hdrop⟩ | hlt
  · rw [ht, hdrop]
    exact .inl rfl
  · exact .inr (Nat.succ_lt_succ hlt)

theorem isWord_of_isKeyword {kind : TokenKind} (h : kind.isKeyword = true) :
    IsWord kind.text.toList := by
  have hkind := ofKeyword?_eq_some_iff.2 ⟨h, rfl⟩
  generalize kind.text.toList = text at hkind ⊢
  unfold TokenKind.ofKeyword? at hkind
  split at hkind
  case h_5 => cases hkind
  all_goals exact ⟨by decide, List.all_eq_true.1 (by decide)⟩

/-! ## All forms -/

namespace Formed

theorem taken_ne_nil (h : l.Formed) : l.taken ≠ [] := by
  cases h with
  | number h => cases h <;> simp_all [Lexeme.number, IsDigits]
  | @keyword kind _ h =>
    have hword := isWord_of_isKeyword h
    intro hnil
    rw [show kind.text.toList = [] from hnil] at hword
    exact hword
  | @identifier text _ h _ =>
    rintro rfl
    exact h
  | _ => exact List.cons_ne_nil _ _

theorem kind_ne_unknown (h : l.Formed) : l.kind ≠ .unknown := by
  cases h with
  | mark h =>
    rintro rfl
    simp [markChars] at h
  | keyword h =>
    rintro rfl
    cases h
  | _ => exact nofun

/-- **A lexeme at the front of a text is the one that is scanned, or shorter.** -/
theorem eq_or_lt (h : l.Formed) (ht : l.taken ++ l.rest = c :: cs) :
    l = first c cs ∨ l.taken.length < (first c cs).taken.length := by
  obtain ⟨d, more, hmore⟩ := List.exists_cons_of_ne_nil h.taken_ne_nil
  obtain ⟨rfl, rfl⟩ : d = c ∧ more ++ l.rest = cs := by simpa [hmore] using ht
  cases h with
  | mark h =>
    obtain ⟨rfl, rfl⟩ := List.cons.inj hmore
    simp only [markChars, List.mem_cons, Prod.mk.injEq, List.not_mem_nil, or_false] at h
    rcases h with ⟨rfl, rfl⟩ | ⟨rfl, rfl⟩ | ⟨rfl, rfl⟩ | ⟨rfl, rfl⟩ | ⟨rfl, rfl⟩ | ⟨rfl, rfl⟩
    all_goals exact .inl rfl
  | @dot rest h =>
    obtain ⟨rfl, rfl⟩ := List.cons.inj hmore
    have hstarts : ¬ startsWithDigit rest = true := by
      cases rest with
      | nil => exact nofun
      | cons e rest => simpa [startsWithDigit] using h
    exact .inl (if_neg hstarts).symm
  | @number text rest h =>
    obtain rfl : text = d :: more := hmore
    exact number_eq_or_lt h rest
  | @keyword kind rest h =>
    have htext : kind.text.toList = d :: more := hmore
    have hword := isWord_of_isKeyword h
    have hkind := ofKeyword?_eq_some_iff.2 ⟨h, rfl⟩
    rw [htext] at hword hkind ⊢
    have hor := word_eq_or_lt hword rest
    rw [hkind] at hor
    exact hor
  | @identifier text rest h hk =>
    obtain rfl : text = d :: more := hmore
    have hkind : TokenKind.ofKeyword? (d :: more) = none := by
      refine Option.eq_none_iff_forall_ne_some.2 fun kind hsome => ?_
      obtain ⟨hkind, htext⟩ := ofKeyword?_eq_some_iff.1 hsome
      exact hk kind hkind htext
    have hor := word_eq_or_lt h rest
    rw [hkind] at hor
    exact hor
  | closed h hu | broken h hu =>
    obtain ⟨rfl, rfl⟩ := List.cons.inj hmore
    refine .inl ?_
    show _ = ofString _
    rw [ofString, List.append_assoc, stringTail_append h hu, List.singleton_append, stringTail]
    simp
  | unclosed h =>
    obtain ⟨rfl, rfl⟩ := List.cons.inj hmore
    refine .inl ?_
    show _ = ofString _
    rw [ofString, List.append_nil, stringTail_of_goesOn h]

end Formed

/-- What is scanned of a string has a form, whether there is a closing quote or not. -/
theorem formed_ofString (cs : List Char) : (ofString cs).Formed := by
  rcases goesOn_or_exists_end cs with h | ⟨body, c, rest, rfl, h, hu, rfl | rfl⟩
  · rw [ofString, stringTail_of_goesOn h]
    exact .unclosed h
  · rw [ofString, stringTail_append h hu, stringTail, List.append_nil]
    exact .closed h hu
  · rw [ofString, stringTail_append h hu, stringTail, List.append_nil]
    exact .broken h hu

/-- **What is scanned has a form**, or else it is one character that is unknown. -/
theorem formed_or_unknown (c : Char) (cs : List Char) :
    (first c cs).Formed ∨ first c cs = single .unknown c cs := by
  unfold first
  split
  case h_7 =>
    cases cs with
    | nil => exact .inl (.dot nofun)
    | cons d cs =>
      by_cases hd : d.isDigit = true
      · have hfirst := @first_fraction d cs hd
        rw [first, numberTail_point hd] at hfirst
        rw [hfirst]
        exact .inl (.number (.fraction (IsDigits.takeWhile hd cs)))
      · rw [startsWithDigit, if_neg hd]
        exact .inl (.dot (by simpa using hd))
  case h_8 => exact .inl (formed_ofString cs)
  case h_9 =>
    split
    · next h =>
      obtain ⟨text, rest, hnumber, heq⟩ := exists_number_numberTail (IsDigits.takeWhile h cs)
        (cs.dropWhile Char.isDigit)
      rw [ofNumber, heq]
      exact .inl (.number hnumber)
    · split
      · next h =>
        have hword : IsWord (c :: cs.takeWhile isIdentifierPart) :=
          ⟨h, fun _ hd => List.mem_takeWhile_imp hd⟩
        exact .inl (formed_word hword _)
      · exact .inr rfl
  all_goals exact .inl (.mark (by decide))

/-! ## The longest lexeme -/

/-- No lexeme of the grammar stands where none is scanned. -/
theorem Formed.append_ne {l : Lexeme} (h : l.Formed) (hu : first c cs = single .unknown c cs) :
    l.taken ++ l.rest ≠ c :: cs := by
  intro ht
  rcases h.eq_or_lt ht with rfl | hlt
  · rw [hu] at h
    exact h.kind_ne_unknown rfl
  · rw [hu] at hlt
    exact h.taken_ne_nil (List.length_eq_zero_iff.1 (Nat.lt_one_iff.1 hlt))

/-- **What is scanned is the longest lexeme**, and there is no other. -/
theorem isLongest_iff : l.IsLongest (c :: cs) ↔ l = first c cs := by
  constructor
  · rintro (⟨h, ht, hmax⟩ | ⟨ht, hnone⟩)
    · rcases formed_or_unknown c cs with hfirst | hu
      · rcases h.eq_or_lt ht with heq | hlt
        · exact heq
        · exact absurd (hmax _ hfirst (taken_append_rest c cs)) (Nat.not_le.2 hlt)
      · exact absurd ht (h.append_ne hu)
    · obtain ⟨rfl, rfl⟩ := List.cons.inj ht
      rcases formed_or_unknown _ _ with hfirst | hu
      · exact absurd (taken_append_rest _ _) (hnone _ hfirst)
      · exact hu.symm
  · rintro rfl
    rcases formed_or_unknown c cs with hfirst | hu
    · refine .formed hfirst (taken_append_rest c cs) fun l' h ht => ?_
      rcases h.eq_or_lt ht with rfl | hlt
      · exact Nat.le_refl _
      · exact Nat.le_of_lt hlt
    · rw [hu]
      exact .unknown rfl fun l' h => h.append_ne hu

end Lexeme

/-! ## Tokens -/

/-- The token at a place is what is scanned from the first character on that is no blank. -/
theorem Position.token_of_rest {p : Position} {c : Char} {cs : List Char}
    (h : p.skipBlanks.rest = c :: cs) : p.token = (Lexeme.first c cs).token p.tokenStart := by
  unfold token Token.next Token.atPosition
  rw [h]
  rfl

namespace Scanner

open Position

/-- **Each token of a text is the longest at its place.** Behind the last token, and behind any
blanks there, either the text ends and the token is its end; or the token is, of all that the
grammar has at the front of the text from there on, the longest, and nothing else is. -/
theorem scans_longest (text : List Char) (n : Nat) : ∃ front blanks rest,
    text = front ++ (blanks ++ rest) ∧
      byteLength front = (scan^[n] (ofText text)).current.span.stop ∧
      (∀ c ∈ blanks, isBlank c = true) ∧ (∀ c ∈ rest.head?, isBlank c = false) ∧
      (rest = [] → (scan^[n + 1] (ofText text)).current = .endAt (byteLength text)) ∧
      (rest ≠ [] → ∃ l : Lexeme, (∀ l' : Lexeme, l'.IsLongest rest ↔ l' = l) ∧
        (scan^[n + 1] (ofText text)).current = l.token (byteLength (front ++ blanks))) := by
  rw [stop_iterate_scan, current_iterate_scan]
  have hplace := of_iterate_after (of_start text) n
  set p := after^[n] (Position.start text)
  obtain ⟨front, ht, ho⟩ := hplace
  refine ⟨front, p.rest.takeWhile isBlank, p.skipBlanks.rest, ?_, ho.symm,
    fun c hc => List.mem_takeWhile_imp hc, ?_, fun hend => ?_, fun hne => ?_⟩
  · rw [ht]
    exact congrArg (front ++ ·) List.takeWhile_append_dropWhile.symm
  · intro c hc
    have hfirst := List.head?_dropWhile_not isBlank p.rest
    rw [show (p.rest.dropWhile isBlank).head? = some c from hc] at hfirst
    simpa using hfirst
  · exact Of.token_of_endOfFile ⟨front, ht, ho⟩ ((Token.next_kind_eq_endOfFile_iff p).2 hend)
  · obtain ⟨c, cs, hr⟩ := List.exists_cons_of_ne_nil hne
    refine ⟨Lexeme.first c cs, fun l' => by rw [hr]; exact Lexeme.isLongest_iff, ?_⟩
    rw [token_of_rest hr, byteLength_append, ← ho]
    rfl

end Scanner

end UpdateExpr
