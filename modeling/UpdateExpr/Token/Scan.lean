import UpdateExpr.Token.Lexeme

/-!
# The tokens of a text

Blanks separate tokens and mean nothing else. The last token of a text is its end.

## Main definitions

* `Position`: a place in a text, with the text behind it
* `Token.next`: the token after a position, and the position after the token
* `Token.ofText`: the tokens of a text

## Main results

* `Token.next_rest_length_lt`: a token that is not the end makes the text behind shorter
-/

namespace UpdateExpr

/-- A place in a text: the bytes before it, and the characters behind it. -/
structure Position where
  offset : Nat := 0
  rest : List Char
  deriving DecidableEq, Repr, Inhabited

namespace Position

/-- The start of a text. -/
def start (text : List Char) : Position :=
  ⟨0, text⟩

/-- The first place from here on that is not in front of a blank. -/
def skipBlanks (p : Position) : Position :=
  ⟨p.offset + byteLength (p.rest.takeWhile isBlank), p.rest.dropWhile isBlank⟩

theorem skipBlanks_rest_length_le (p : Position) : p.skipBlanks.rest.length ≤ p.rest.length :=
  (List.dropWhile_sublist _).length_le

end Position

namespace Token

/-- The token that starts at a position, and the position behind it. -/
def atPosition (p : Position) : Token × Position :=
  match p.rest with
  | [] => (.endAt p.offset, p)
  | c :: cs =>
    let lexeme := Lexeme.first c cs
    let stop := p.offset + byteLength lexeme.taken
    ({ kind := lexeme.kind
       span := ⟨p.offset, stop⟩
       value := .ofList lexeme.value
       flags := lexeme.flags
       lexeme := .ofList lexeme.taken },
      ⟨stop, lexeme.rest⟩)

/-- The first token from a position on, and the position behind it. -/
def next (p : Position) : Token × Position :=
  atPosition p.skipBlanks

/-- At most `n` tokens from a position on, up to the end of the text. -/
def listFrom : Nat → Position → List Token
  | 0, _ => []
  | n + 1, p =>
    let (token, behind) := next p
    if token.kind = .endOfFile then [token] else token :: listFrom n behind

/-- The tokens of a text, with its end. Every token but the end takes a character. -/
def ofText (text : List Char) : List Token :=
  listFrom (text.length + 1) (.start text)

/-- A lexeme never is the end of the text. -/
theorem first_kind_ne_endOfFile (c : Char) (cs : List Char) :
    (Lexeme.first c cs).kind ≠ .endOfFile := by
  have keyword : ∀ w, (TokenKind.ofKeyword? w).getD .identifier ≠ .endOfFile := fun w => by
    unfold TokenKind.ofKeyword?
    split <;> simp
  unfold Lexeme.first
  split
  case h_7 => split <;> simp [Lexeme.ofFraction, Lexeme.single]
  case h_8 => simp [Lexeme.ofString]
  case h_9 =>
    split
    · simp [Lexeme.ofNumber]
    · split
      · exact keyword _
      · simp [Lexeme.single]
  all_goals simp [Lexeme.single]

/-- **A token is the end of the text just where no character is left.** -/
theorem next_kind_eq_endOfFile_iff (p : Position) :
    (next p).1.kind = .endOfFile ↔ p.skipBlanks.rest = [] := by
  unfold next atPosition
  cases h : p.skipBlanks.rest with
  | nil => simp [endAt]
  | cons c cs => simp [first_kind_ne_endOfFile]

/-- **A token that is not the end makes the text behind shorter.** -/
theorem next_rest_length_lt {p : Position} (h : (next p).1.kind ≠ .endOfFile) :
    (next p).2.rest.length < p.rest.length := by
  have hle := p.skipBlanks_rest_length_le
  rw [ne_eq, next_kind_eq_endOfFile_iff] at h
  unfold next atPosition
  cases hr : p.skipBlanks.rest with
  | nil => exact absurd hr h
  | cons c cs =>
    obtain ⟨more, hm⟩ := Lexeme.taken_eq_cons c cs
    have := congrArg List.length (Lexeme.taken_append_rest c cs)
    simp only [hm, List.length_append, List.length_cons] at this
    simp only [hr, List.length_cons] at hle ⊢
    omega

end Token

end UpdateExpr
