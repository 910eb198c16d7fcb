import UpdateExpr.Proofs.Syntax.Layout
import UpdateExpr.Proofs.Syntax.Parse
import UpdateExpr.Proofs.Syntax.Position

/-!
# Where nodes stand

A rule of the parser takes the start of a node from the token that comes next, and its end from the
last token that was read. So the ends of every node are boundaries of the text, and they are in
order for every node that is built behind the token where it starts.

There is one kind of node that is built without reading anything: an initializer without a name
whose value is missing. It starts at the token that stands where the value should be, and ends
behind the brace or comma before it. If there is a blank between the two, the node ends before it
starts. A token there is a closing parenthesis, an opening brace or a comma, as at any other token a
value is read, or no initializer.

## Main definitions

* `Span.Proper`: the ends of a span are boundaries of a text, and in order
* `LeftOutAt`: where an initializer without a name finds nothing to read behind a blank
* `SyntaxTree.Stands`: where the parts of a tree stand, and that initializers stand in order
* `Arena.LeftOut`: a node that ends before it starts

## Main results

* `ParseM.walks_expression`: from every place, an expression is read that stands in the text
* `parse_stands`: where the nodes of an expression stand
-/

namespace UpdateExpr

/-! ## Places without a value -/

/-- The ends of a span are boundaries of a text, and in order. -/
structure Span.Proper (text : List Char) (s : Span) : Prop where
  start : IsBoundary text s.start
  stop : IsBoundary text s.stop
  le : s.start ≤ s.stop

/-- Right behind a blank there is a character at which no value starts and no list ends. -/
def LeftOutAt (text : List Char) (start : Nat) : Prop :=
  ∃ front c d back, text = (front ++ [c]) ++ d :: back ∧ start = byteLength (front ++ [c]) ∧
    isBlank c = true ∧ d ∈ [')', '{', ',']

/-- The tokens that start with these characters. -/
def TokenKind.leftOut : List TokenKind :=
  [.closeParen, .openBrace, .comma]

/-- The same front of a text has the same length, and the other way round. -/
theorem append_inj_of_byteLength {front front' back back' : List Char}
    (h : front ++ back = front' ++ back') (hl : byteLength front = byteLength front') :
    front = front' ∧ back = back' := by
  have hfront : some front = some front' := by
    rw [← takeBytes?_append front back, ← takeBytes?_append front' back', h, hl]
  obtain rfl := Option.some.inj hfront
  exact ⟨rfl, List.append_cancel_left h⟩

theorem Lexeme.kind_first_mem_leftOut (c : Char) (cs : List Char) :
    (Lexeme.first c cs).kind ∈ TokenKind.leftOut ↔ c ∈ [')', '{', ','] := by
  unfold Lexeme.first
  split
  case h_7 => split <;> simp [TokenKind.leftOut, ofFraction, single]
  case h_8 => simp [TokenKind.leftOut, ofString]
  case h_9 =>
    have keyword : ∀ w, (TokenKind.ofKeyword? w).getD .identifier ∉ TokenKind.leftOut := fun w => by
      unfold TokenKind.ofKeyword?
      split <;> simp [TokenKind.leftOut]
    split
    · simp_all [TokenKind.leftOut, ofNumber]
    · split
      · simp_all [ofIdentifier]
      · simp_all [TokenKind.leftOut, single]
  all_goals simp [TokenKind.leftOut, single]

/-- A mark that opens or goes on with a list is one character, and no blank. -/
theorem Lexeme.taken_first_of_mark {c : Char} {cs : List Char}
    (h : (Lexeme.first c cs).kind ∈ [TokenKind.openBrace, .comma]) :
    (Lexeme.first c cs).taken = [c] ∧ isBlank c = false := by
  revert h
  unfold Lexeme.first
  split
  case h_7 => split <;> simp [ofFraction, single]
  case h_8 => simp [ofString]
  case h_9 =>
    have keyword : ∀ w, (TokenKind.ofKeyword? w).getD .identifier ∉ [TokenKind.openBrace, .comma] :=
      fun w => by
        unfold TokenKind.ofKeyword?
        split <;> simp
    split
    · simp [ofNumber]
    · split
      · intro h
        exact absurd h (keyword _)
      · simp [single]
  all_goals simp [single]
  all_goals decide

namespace Position

variable {text : List Char} {p q : Position}

/-- A place of a text with no blank right before it. -/
def Tight (text : List Char) (p : Position) : Prop :=
  ∃ front, text = front ++ p.rest ∧ p.offset = byteLength front ∧
    ∀ c ∈ front.getLast?, isBlank c = false

theorem Tight.of (h : p.Tight text) : p.Of text := by
  obtain ⟨front, ht, ho, -⟩ := h
  exact ⟨front, ht, ho⟩

/-- Behind the mark before an initializer there is such a place. -/
theorem Of.tight_after (h : p.Of text) (hk : p.token.kind ∈ [TokenKind.openBrace, .comma]) :
    p.after.Tight text := by
  obtain ⟨front, rfl, ho⟩ := h.skipBlanks
  unfold Position.token Token.next Token.atPosition at hk
  unfold Position.after Token.next Token.atPosition
  cases hr : p.skipBlanks.rest with
  | nil => simp [hr, Token.endAt] at hk
  | cons c cs =>
    simp only [hr] at hk
    obtain ⟨htaken, hc⟩ := Lexeme.taken_first_of_mark hk
    have hrest := Lexeme.taken_append_rest c cs
    refine ⟨front ++ [c], ?_, ?_, ?_⟩
    · rw [List.append_assoc, ← htaken, hrest]
    · simp [htaken, ho]
    · simpa using hc

/-- The kind of the next token tells its first character. -/
theorem kind_mem_leftOut_iff (p : Position) :
    p.token.kind ∈ TokenKind.leftOut ↔
      ∃ d back, p.skipBlanks.rest = d :: back ∧ d ∈ [')', '{', ','] := by
  unfold token Token.next Token.atPosition
  cases hr : p.skipBlanks.rest with
  | nil => simp [Token.endAt, TokenKind.leftOut]
  | cons c cs => simpa using Lexeme.kind_first_mem_leftOut c cs

/-- Where nothing is read behind a blank there is one of three tokens. -/
theorem Of.kind_of_leftOutAt (h : p.Of text) (hl : LeftOutAt text p.tokenStart) :
    p.token.kind ∈ TokenKind.leftOut := by
  obtain ⟨front, rfl, ho⟩ := h.skipBlanks
  obtain ⟨front', c, d, back, ht, hs, -, hd⟩ := hl
  obtain ⟨-, hrest⟩ := append_inj_of_byteLength ht (ho.symm.trans hs)
  exact (kind_mem_leftOut_iff p).2 ⟨d, back, hrest, hd⟩

/-- Behind a place without a blank before it, at one of these tokens, there is such a place if there
is a blank between the two. -/
theorem Tight.leftOutAt_iff (h : p.Tight text) (hk : p.token.kind ∈ TokenKind.leftOut) :
    LeftOutAt text p.tokenStart ↔ p.offset < p.tokenStart := by
  obtain ⟨front, rfl, ho, hlast⟩ := h
  have hrest : p.rest = p.rest.takeWhile isBlank ++ p.skipBlanks.rest :=
    List.takeWhile_append_dropWhile.symm
  have hstart : p.tokenStart = byteLength (front ++ p.rest.takeWhile isBlank) := by
    rw [byteLength_append, ← ho]
    rfl
  rw [hstart, byteLength_append, ← ho]
  constructor
  · rintro ⟨front', c, d, back, ht, hs, hc, -⟩
    rw [hrest, ← List.append_assoc] at ht
    obtain ⟨hfront, -⟩ := append_inj_of_byteLength ht
      (by rw [byteLength_append, ← ho, hs])
    rcases List.eq_nil_or_concat (p.rest.takeWhile isBlank) with hnil | ⟨blanks, c', hblanks⟩
    · rw [hnil, List.append_nil] at hfront
      have := hlast c (by simp [hfront])
      simp [hc] at this
    · rw [hblanks]
      have := c'.utf8Size_pos
      simp
      omega
  · intro hlt
    obtain ⟨d, back, hd, hmem⟩ := (kind_mem_leftOut_iff p).1 hk
    rcases List.eq_nil_or_concat (p.rest.takeWhile isBlank) with hnil | ⟨blanks, c, hblanks⟩
    · rw [hnil] at hlt
      simp at hlt
    · have hc : isBlank c = true :=
        List.all_eq_true.1 (List.all_takeWhile (l := p.rest)) c (by simp [hblanks])
      rw [List.concat_eq_append] at hblanks
      refine ⟨front ++ blanks, c, d, back, ?_, ?_, hc, hmem⟩
      · rw [← hd, List.append_assoc, List.append_assoc, ← List.append_assoc blanks, ← hblanks,
          ← hrest]
      · rw [hblanks, ho]
        simp

end Position

/-! ## Trees in a text -/

/-- An initializer without a name finds no value behind a blank. -/
def Initializer.LeftOut (text : List Char) (entry : Initializer SyntaxTree) : Prop :=
  entry.name = none ∧ entry.value.span = .point entry.span.start ∧
    LeftOutAt text entry.span.start

/-- An initializer stands in a text, from its start to its end unless it finds no value. -/
structure Initializer.Stands (text : List Char) (entry : Initializer SyntaxTree) : Prop where
  start : IsBoundary text entry.span.start
  stop : IsBoundary text entry.span.stop
  le_iff : entry.span.start ≤ entry.span.stop ↔ ¬ entry.LeftOut text

/-- An initializer stands before another one. -/
def Initializer.Before (entry later : Initializer SyntaxTree) : Prop :=
  entry.span.start < later.span.start ∧ entry.span.stop < later.span.start

/-- All parts of a tree stand in a text, and initializers stand in their order. -/
inductive SyntaxTree.Stands (text : List Char) : SyntaxTree → Prop
  | identifier {id : Identifier} (h : id.span.Proper text) : Stands text (.identifier id)
  | literal {value : LiteralValue} {written : String} {flags : TokenFlags} {span : Span}
    (h : span.Proper text) : Stands text (.literal value written flags span)
  | keyword {kind : TokenKind} {span : Span} (h : span.Proper text) :
    Stands text (.keyword kind span)
  | access {target : SyntaxTree} {member : Identifier} {span : Span} (ht : Stands text target)
    (hm : member.span.Proper text) (h : span.Proper text) :
    Stands text (.access target member span)
  | call {target : SyntaxTree} {span : Span} (ht : Stands text target) (h : span.Proper text) :
    Stands text (.call target span)
  | paren {inner : SyntaxTree} {span : Span} (hi : Stands text inner) (h : span.Proper text) :
    Stands text (.paren inner span)
  | update {receiver : SyntaxTree} {entries : List (Initializer SyntaxTree)} {list : ListSpan}
    {span : Span} (hr : Stands text receiver)
    (hn : ∀ entry ∈ entries, ∀ id ∈ entry.name, id.span.Proper text)
    (hv : ∀ entry ∈ entries, Stands text entry.value)
    (he : ∀ entry ∈ entries, entry.Stands text) (ho : entries.Pairwise Initializer.Before)
    (h : span.Proper text) : Stands text (.update receiver entries list span)

section Spans

variable {text : List Char} {p q : Position} {tree : SyntaxTree}

theorem SyntaxTree.Stands.proper (h : tree.Stands text) : tree.span.Proper text := by
  cases h <;> assumption

theorem Position.Of.proper_token (h : p.Of text) : p.token.span.Proper text := by
  rw [p.token_span]
  exact ⟨h.tokenStart, h.after.boundary, p.tokenStart_le_after⟩

theorem Span.proper_point {n : Nat} (h : IsBoundary text n) : (Span.point n).Proper text :=
  ⟨h, h, Nat.le_refl n⟩

theorem SyntaxTree.stands_hole {n : Nat} (h : IsBoundary text n) :
    (SyntaxTree.hole n).Stands text :=
  .identifier (Span.proper_point h)

end Spans

/-! ## Rules -/

namespace ParseM

variable {text : List Char} {p : Position} {nested : ParseM SyntaxTree} {start n bound : Nat}
  {target : SyntaxTree}

theorem walks_expect (kind : TokenKind) :
    Walks text p (expect kind) fun q there =>
      (there = true → p.token.kind = kind ∧ q = p.after) ∧ (there = false → q = p) := by
  refine Walks.current ?_
  by_cases hk : p.token.kind = kind
  · rw [if_pos hk]
    exact Walks.advance (.pure fun _ => ⟨fun _ => ⟨hk, rfl⟩, nofun⟩)
  · rw [if_neg hk]
    exact Walks.report (.pure fun _ => ⟨nofun, fun _ => rfl⟩)

/-- A name stands at its token; a missing one stands behind the last token. -/
theorem walks_name (hp : p.Of text) :
    Walks text p parseName fun q id => id.span.Proper text ∧
      (p.token.kind = .identifier → id.span.start = p.tokenStart ∧ q = p.after) := by
  refine Walks.current ?_
  by_cases hk : p.token.kind = .identifier
  · rw [if_pos hk]
    refine Walks.meet (Walks.advance (.pure fun _ => ⟨hp.proper_token, fun _ => ⟨?_, rfl⟩⟩))
    show p.token.span.start = _
    rw [p.token_span]
  · rw [if_neg hk]
    refine Walks.report (Walks.get fun s hs => .pure fun _ => ⟨?_, fun h => absurd h hk⟩)
    exact Span.proper_point (hs.lastEnd ▸ hp.boundary)

/-- The kinds of tokens at which no expression starts. Nothing is read there. -/
def closing : List TokenKind :=
  [.endOfFile, .openBrace, .closeBrace, .closeParen, .dot, .comma, .equals, .withKeyword]

theorem mem_closing_of_mem_leftOut {kind : TokenKind} (h : kind ∈ TokenKind.leftOut) :
    kind ∈ closing := by
  revert h
  cases kind <;> decide

theorem mem_leftOut_of_mem_closing {kind : TokenKind} (h : kind ∈ closing)
    (hv : kind ∉ [TokenKind.endOfFile, .closeBrace, .equals]) (hd : kind ≠ .dot)
    (hw : kind ≠ .withKeyword) : kind ∈ TokenKind.leftOut := by
  revert h hv hd hw
  cases kind <;> decide

/-- What a rule reads that starts with a primary expression: a tree that stands in the text from the
next token on. -/
structure Primary (text : List Char) (p q : Position) (tree : SyntaxTree) : Prop where
  stands : tree.Stands text
  start : tree.span.start = p.tokenStart
  closed : p.token.kind ∈ closing → q = p ∧ tree = .hole p.tokenStart
  read : p.token.kind ∉ closing → p.after.offset ≤ q.offset

/-- What is read where a token is all there is. -/
theorem primary_token {tree : SyntaxTree} (hs : tree.Stands text)
    (hstart : tree.span.start = p.tokenStart) (hk : p.token.kind ∉ closing) :
    Primary text p p.after tree :=
  ⟨hs, hstart, fun h => absurd h hk, fun _ => Nat.le_refl _⟩

theorem walks_primary (hp : p.Of text)
    (hn : ∀ p : Position, p.Of text → Walks text p nested fun _ tree => tree.Stands text) :
    Walks text p (parsePrimary nested) (Primary text p) := by
  have hstart : p.token.span.start = p.tokenStart := by rw [p.token_span]
  have hproper := hp.proper_token
  refine Walks.current ?_
  cases hk : p.token.kind
  case number =>
    show Walks text p (parseNumber p.token) _
    have hread : Walks text p (advance >>= fun _ => pure (.literal (LiteralValue.ofNumber
        p.token.value.toList p.token.flags) p.token.value p.token.flags p.token.span))
        (Primary text p) :=
      .advance (.pure fun _ => primary_token (.literal hproper) hstart (by simp [closing, hk]))
    unfold parseNumber
    by_cases hv : LiteralValue.ofNumber p.token.value.toList p.token.flags = .invalid
    · simp only [hv, if_true]
      rw [hv] at hread
      exact .report hread
    · simp only [hv, if_false]
      exact hread
  case string =>
    exact .advance (.pure fun _ =>
      primary_token (.literal hproper) hstart (by simp [closing, hk]))
  case trueKeyword =>
    exact .advance (.pure fun _ =>
      primary_token (.keyword hproper) hstart (by simp [closing, hk]))
  case falseKeyword =>
    exact .advance (.pure fun _ =>
      primary_token (.keyword hproper) hstart (by simp [closing, hk]))
  case nullKeyword =>
    exact .advance (.pure fun _ =>
      primary_token (.keyword hproper) hstart (by simp [closing, hk]))
  case identifier =>
    refine (walks_name hp).bind fun q id hlead hid => .pure fun _ => ?_
    obtain ⟨hs, rfl⟩ := hid.2 hk
    exact primary_token (.identifier hid.1) hs (by simp [closing, hk])
  case openParen =>
    refine Walks.advance ((hn _ hp.after).bind fun q inner hlead hi => ?_)
    refine (walks_expect .closeParen).bind fun r there hlead' _ => .spanFrom (.pure fun hr => ?_)
    have hle : p.after.offset ≤ r.offset := (hlead.trans hlead').le
    refine ⟨.paren hi ⟨hproper.start, hr.boundary, ?_⟩, hstart, by simp [closing, hk],
      fun _ => hle⟩
    rw [hstart]
    exact Nat.le_trans p.tokenStart_le_after hle
  case unknown =>
    refine .advance (.pure fun _ => ?_)
    rw [hstart]
    exact primary_token (SyntaxTree.stands_hole hp.tokenStart) rfl (by simp [closing, hk])
  all_goals
    refine .report (.pure fun _ => ?_)
    rw [hstart]
    exact ⟨SyntaxTree.stands_hole hp.tokenStart, rfl, fun _ => ⟨rfl, rfl⟩, by simp [closing, hk]⟩

/-! ### Members and calls -/

/-- What a rule gives that goes on behind an expression at a token of some kind, as often as it may:
a tree from the same start on. -/
structure Tail (text : List Char) (kind : TokenKind) (n : Nat) (target : SyntaxTree)
    (p q : Position) (tree : SyntaxTree) : Prop where
  stands : tree.Stands text
  start : tree.span.start = target.span.start
  kept : p.token.kind ≠ kind → q = p ∧ tree = target
  read : p.token.kind = kind → 0 < n → p.after.offset ≤ q.offset

theorem walks_call (ht : target.Stands text) (hs : target.span.start = start)
    (hle : start ≤ p.offset) :
    Walks text p (parseCall start target) fun _ tree =>
      tree.Stands text ∧ tree.span.start = target.span.start := by
  refine Walks.current ?_
  by_cases hk : p.token.kind = .openParen
  · rw [if_pos hk]
    refine .advance ((walks_expect .closeParen).bind fun q there hlead _ => ?_)
    refine .spanFrom (.pure fun hq => ⟨.call ht ⟨hs ▸ ht.proper.start, hq.boundary, ?_⟩, hs.symm⟩)
    exact Nat.le_trans hle (((Position.Leads.after p).trans hlead).le)
  · rw [if_neg hk]
    exact .pure fun _ => ⟨ht, rfl⟩

theorem walks_members (hp : p.Of text) (ht : target.Stands text) (hs : target.span.start = start)
    (hle : start ≤ p.after.offset) :
    Walks text p (parseMembers start n target) (Tail text .dot n target p) := by
  induction n generalizing p target with
  | zero =>
    exact .pure fun _ => ⟨ht, rfl, fun _ => ⟨rfl, rfl⟩, fun _ h => absurd h (Nat.lt_irrefl 0)⟩
  | succ n ih =>
    refine Walks.current ?_
    by_cases hk : p.token.kind = .dot
    · rw [if_pos hk]
      refine .advance ((walks_name hp.after).bind fun q member hq hm => .spanFrom ?_)
      have hleq : start ≤ q.offset := Nat.le_trans hle hq.le
      have hspan : Span.Proper text ⟨start, q.offset⟩ :=
        ⟨hs ▸ ht.proper.start, (hq.of hp.after).boundary, hleq⟩
      refine (walks_call (.access ht hm.1 hspan) rfl hleq).bind fun r tree hr htree => ?_
      obtain ⟨htree, hstart⟩ := htree
      have hler : start ≤ r.after.offset :=
        Nat.le_trans (Nat.le_trans hleq hr.le) r.offset_le_after
      refine (ih (hr.of (hq.of hp.after)) htree hstart hler).weaken fun r' tree' hr' _ htail => ?_
      refine ⟨htail.stands, htail.start.trans (hstart.trans hs.symm), fun h => absurd hk h,
        fun _ _ => ((hq.trans hr).trans hr').le⟩
    · rw [if_neg hk]
      exact .pure fun _ => ⟨ht, rfl, fun _ => ⟨rfl, rfl⟩, fun h => absurd h hk⟩

/-! ### Initializers -/

/-- What is read where an initializer is wanted: an expression, or nothing at one of the tokens at
which none starts. -/
structure Value (text : List Char) (p q : Position) (tree : SyntaxTree) : Prop where
  stands : tree.Stands text
  read : p.token.kind ∉ [TokenKind.endOfFile, .closeBrace, .equals] →
    q = p ∧ p.token.kind ∈ TokenKind.leftOut ∧ tree.span = .point p.tokenStart ∨
      p.after.offset ≤ q.offset ∧
        (p.token.kind ∈ TokenKind.leftOut → p.tokenStart < tree.span.start)

/-- An expression is read from any place of the text. -/
def WalksValues (text : List Char) (nested : ParseM SyntaxTree) : Prop :=
  ∀ p : Position, p.Of text → Walks text p nested (Value text p)

/-- What is read as an initializer: it stands in the text, from the next token to the last one. -/
structure Entry (text : List Char) (p q : Position) (entry : Initializer SyntaxTree) : Prop where
  span : entry.span = ⟨p.tokenStart, q.offset⟩
  name : ∀ id ∈ entry.name, id.span.Proper text
  value : entry.value.Stands text
  stands : entry.Stands text

theorem walks_bareInitializer (hn : WalksValues text nested) (hp : p.Tight text)
    (hk : p.token.kind ∉ [TokenKind.endOfFile, .closeBrace, .equals]) :
    Walks text p (parseBareInitializer nested p.tokenStart) (Entry text p) := by
  refine (hn p hp.of).bind fun q value _ hv => .spanFrom (.pure fun hq => ?_)
  refine ⟨rfl, nofun, hv.stands, hp.of.tokenStart, hq.boundary, ?_⟩
  rcases hv.read hk with ⟨heq, hleft, hspan⟩ | ⟨hle, hafter⟩
  · have hiff : Initializer.LeftOut text ⟨none, value, ⟨p.tokenStart, q.offset⟩⟩ ↔
        p.offset < p.tokenStart :=
      ⟨fun h => (hp.leftOutAt_iff hleft).1 h.2.2,
        fun h => ⟨rfl, hspan, (hp.leftOutAt_iff hleft).2 h⟩⟩
    rw [hiff, heq]
    exact Nat.not_lt.symm
  · have hlt : p.tokenStart ≤ q.offset := Nat.le_trans p.tokenStart_le_after hle
    refine iff_of_true hlt ?_
    rintro ⟨-, hspan, hleft⟩
    have hstart := hafter (hp.of.kind_of_leftOutAt hleft)
    have hpoint : value.span.start = p.tokenStart := congrArg Span.start hspan
    omega

/-- From its name on, an initializer has something to stand at. -/
theorem walks_namedInitializer (hn : WalksValues text nested) {q : Position} (hp : p.Of text)
    (hq : q.Of text) (hle : p.tokenStart ≤ q.after.offset) {name : Identifier}
    (hname : name.span.Proper text) :
    Walks text q (parseNamedInitializer nested p.tokenStart name) (Entry text p) := by
  refine .advance ((hn _ hq.after).bind fun r value hlead hv => .spanFrom (.pure fun hr => ?_))
  have hler : p.tokenStart ≤ r.offset := Nat.le_trans hle hlead.le
  refine ⟨rfl, ?_, hv.stands, hp.tokenStart, hr.boundary, iff_of_true hler fun h =>
    Option.some_ne_none _ h.1⟩
  rintro _ ⟨⟩
  exact hname

theorem walks_initializer (hn : WalksValues text nested) (hp : p.Tight text)
    (hk : p.token.kind ≠ .endOfFile ∧ p.token.kind ≠ .closeBrace) :
    Walks text p (parseInitializer nested) (Entry text p) := by
  have hstart : p.token.span.start = p.tokenStart := by rw [p.token_span]
  have hbare : p.token.kind ≠ .equals →
      Walks text p (parseBareInitializer nested p.tokenStart) (Entry text p) :=
    fun he => walks_bareInitializer hn hp (by simp [hk, he])
  refine Walks.current ?_
  cases hkind : p.token.kind
  case identifier =>
    dsimp only
    rw [hstart]
    refine .meet (.get fun s hs => ?_)
    split
    · exact .advance (walks_namedInitializer hn hp.of hp.of.after
        (Nat.le_trans p.tokenStart_le_after p.after.offset_le_after) hp.of.proper_token)
    · exact hbare (by simp [hkind])
  case equals =>
    dsimp only
    rw [hstart]
    exact .report (walks_namedInitializer hn hp.of hp.of p.tokenStart_le_after
      (Span.proper_point hp.of.tokenStart))
  case endOfFile => exact absurd hkind hk.1
  case closeBrace => exact absurd hkind hk.2
  all_goals
    dsimp only
    rw [hstart]
    exact hbare (by simp [hkind])

/-- What is read as a list of initializers: all of them stand in the text, one before the other. -/
structure Entries (text : List Char) (p : Position) (entries : List (Initializer SyntaxTree)) :
    Prop where
  name : ∀ entry ∈ entries, ∀ id ∈ entry.name, id.span.Proper text
  value : ∀ entry ∈ entries, entry.value.Stands text
  stands : ∀ entry ∈ entries, entry.Stands text
  ordered : entries.Pairwise Initializer.Before
  start : ∀ entry ∈ entries, p.offset ≤ entry.span.start

theorem entries_nil (text : List Char) (p : Position) : Entries text p [] :=
  ⟨nofun, nofun, nofun, .nil, nofun⟩

/-- An initializer in front of others that are read behind the comma. -/
theorem Entry.entries {q : Position} {entry : Initializer SyntaxTree}
    {entries : List (Initializer SyntaxTree)} (he : Entry text p q entry) (hlead : p.Leads q)
    (hr : Entries text q.after entries) (hk : entries ≠ [] → q.token.kind ≠ .endOfFile) :
    Entries text p (entry :: entries) := by
  refine ⟨List.forall_mem_cons.2 ⟨he.name, hr.name⟩, List.forall_mem_cons.2 ⟨he.value, hr.value⟩,
    List.forall_mem_cons.2 ⟨he.stands, hr.stands⟩, .cons (fun later hlater => ?_) hr.ordered,
    List.forall_mem_cons.2 ⟨?_, fun later hlater => ?_⟩⟩
  · have hlt := Position.tokenStart_lt_after (hk (List.ne_nil_of_mem hlater))
    have hle := hr.start later hlater
    have hq := q.offset_le_tokenStart
    have hstart : p.tokenStart ≤ q.tokenStart := by
      rcases hlead.le_after with rfl | hle
      · exact Nat.le_refl _
      · exact Nat.le_trans (Nat.le_trans p.tokenStart_le_after hle) hq
    rw [Initializer.Before, he.span]
    dsimp only
    omega
  · rw [he.span]
    exact p.offset_le_tokenStart
  · exact Nat.le_trans (Nat.le_trans hlead.le q.offset_le_after) (hr.start later hlater)

theorem walks_initializers (hn : WalksValues text nested) (hp : p.Tight text) :
    Walks text p (parseInitializers nested n) fun _ list => Entries text p list.1 := by
  induction n generalizing p with
  | zero => exact .pure fun _ => entries_nil text p
  | succ n ih =>
    refine Walks.current ?_
    by_cases hk : p.token.kind = .closeBrace ∨ p.token.kind = .endOfFile
    · rw [if_pos hk]
      exact .pure fun _ => entries_nil text p
    · rw [if_neg hk]
      rw [not_or] at hk
      refine (walks_initializer hn hp ⟨hk.2, hk.1⟩).bind fun q entry hlead he => ?_
      refine Walks.current ?_
      by_cases hcomma : q.token.kind = .comma
      · rw [if_pos hcomma]
        have hq := (hlead.of hp.of).tight_after (by simp [hcomma])
        refine .advance (.current ((ih hq).bind fun r list _ hlist => .pure fun _ => ?_))
        exact he.entries hlead hlist fun _ => by simp [hcomma]
      · rw [if_neg hcomma]
        exact .pure fun _ => he.entries hlead (entries_nil text _) fun h => absurd rfl h

/-! ### Updates -/

theorem walks_update (hn : WalksValues text nested) (hp : p.Of text) (ht : target.Stands text)
    (hle : target.span.start ≤ p.after.offset) :
    Walks text p (parseUpdate nested n target) fun q tree =>
      tree.Stands text ∧ tree.span.start = target.span.start ∧ p.after.offset ≤ q.offset := by
  have hspan : ∀ q : Position, q.Of text → p.after.offset ≤ q.offset →
      Span.Proper text ⟨target.span.start, q.offset⟩ :=
    fun q hq hleq => ⟨ht.proper.start, hq.boundary, Nat.le_trans hle hleq⟩
  refine .advance (.current ((walks_expect .openBrace).bind fun q there hlead hthere => ?_))
  cases there with
  | true =>
    obtain ⟨hbrace, rfl⟩ := hthere.1 rfl
    have htight := hp.after.tight_after (by simp [hbrace])
    refine .get fun s hs => (walks_initializers hn htight).bind fun r list hlead' hlist => ?_
    refine .current ((walks_expect .closeBrace).bind fun r' _ hlead'' _ => ?_)
    have hler : p.after.offset ≤ r'.offset := (hlead.trans (hlead'.trans hlead'')).le
    refine .spanFrom (.pure fun hr => ⟨?_, rfl, hler⟩)
    exact .update ht hlist.name hlist.value hlist.stands hlist.ordered (hspan _ hr hler)
  | false =>
    refine .spanFrom (.pure fun hq => ⟨?_, rfl, hlead.le⟩)
    exact .update ht nofun nofun nofun .nil (hspan _ hq hlead.le)

theorem walks_updates (hn : WalksValues text nested) (hp : p.Of text) (ht : target.Stands text)
    (hle : target.span.start ≤ p.after.offset) :
    Walks text p (parseUpdates nested bound n target) (Tail text .withKeyword n target p) := by
  induction n generalizing p target with
  | zero =>
    exact .pure fun _ => ⟨ht, rfl, fun _ => ⟨rfl, rfl⟩, fun _ h => absurd h (Nat.lt_irrefl 0)⟩
  | succ n ih =>
    refine Walks.current ?_
    by_cases hk : p.token.kind = .withKeyword
    · rw [if_pos hk]
      refine (walks_update hn hp ht hle).bind fun q tree hlead htree => ?_
      obtain ⟨hs, hstart, hleq⟩ := htree
      have hnext : tree.span.start ≤ q.after.offset :=
        hstart ▸ Nat.le_trans (Nat.le_trans hle hleq) q.offset_le_after
      refine (ih (hlead.of hp) hs hnext).weaken fun r tree' hlead' _ htail => ?_
      exact ⟨htail.stands, htail.start.trans hstart, fun h => absurd hk h,
        fun _ _ => Nat.le_trans hleq hlead'.le⟩
    · rw [if_neg hk]
      exact .pure fun _ => ⟨ht, rfl, fun _ => ⟨rfl, rfl⟩, fun h => absurd h hk⟩

/-! ### Expressions -/

theorem walks_cut (hp : p.Of text) : Walks text p parseCut (Value text p) := by
  refine .current (.report ?_)
  intro s hs
  have hcut : ({ s with cut := true } : ParseState).At text p := ⟨hs.of, hs.ahead, hs.lastEnd⟩
  obtain ⟨q, hlead, hat, hle⟩ := hcut.skipToEnd
  refine ⟨q, hlead, hat, SyntaxTree.stands_hole (hat.lastEnd ▸ (hlead.of hp).boundary), ?_⟩
  intro hk
  have hend : p.token.kind ≠ .endOfFile := fun h => hk (by simp [h])
  refine .inr ⟨hle hend, fun _ => ?_⟩
  show p.tokenStart < ({ s with cut := true } : ParseState).skipToEnd.lastEnd
  rw [hat.lastEnd]
  exact Nat.lt_of_lt_of_le (Position.tokenStart_lt_after hend) (hle hend)

/-- **From every place, an expression is read that stands in the text.** Nothing is read only at a
token where no expression starts. -/
theorem walks_expression (hb : 0 < bound) (depth : Nat) :
    WalksValues text (parseExpression bound depth) := by
  induction depth with
  | zero => exact fun p hp => walks_cut hp
  | succ depth ih =>
    intro p hp
    refine .current ((walks_primary hp fun p hp => (ih p hp).weaken fun _ _ _ _ h => h.stands).bind
      fun q primary hlead hprimary => ?_)
    have hq := hlead.of hp
    have hstart : primary.span.start = p.token.span.start := by
      rw [hprimary.start, p.token_span]
    have hle : p.token.span.start ≤ q.after.offset := by
      rw [p.token_span]
      exact hlead.tokenStart_le
    refine (walks_members hq hprimary.stands hstart hle).bind fun r target hlead' htarget => ?_
    have hle' : target.span.start ≤ r.after.offset := by
      rw [htarget.start, hprimary.start]
      exact (hlead.trans hlead').tokenStart_le
    refine (walks_updates ih (hlead'.of hq) htarget.stands hle').weaken
      fun r' tree hlead'' _ htree => ⟨htree.stands, fun hk => ?_⟩
    by_cases hclosed : p.token.kind ∈ closing
    · obtain ⟨rfl, rfl⟩ := hprimary.closed hclosed
      by_cases hdot : q.token.kind = .dot
      · refine .inr ⟨Nat.le_trans (htarget.read hdot hb) hlead''.le, fun h => ?_⟩
        simp [hdot, TokenKind.leftOut] at h
      · obtain ⟨rfl, rfl⟩ := htarget.kept hdot
        by_cases hwith : r.token.kind = .withKeyword
        · refine .inr ⟨htree.read hwith hb, fun h => ?_⟩
          simp [hwith, TokenKind.leftOut] at h
        · obtain ⟨rfl, rfl⟩ := htree.kept hwith
          exact .inl ⟨rfl, mem_leftOut_of_mem_closing hclosed hk hdot hwith, rfl⟩
    · refine .inr ⟨Nat.le_trans (hprimary.read hclosed) (hlead'.trans hlead'').le, fun h => ?_⟩
      exact absurd (mem_closing_of_mem_leftOut h) hclosed

end ParseM

/-- What some tokens write, from what reading has come to. -/
theorem parseTokens_eq {tokens : List Token} {tree : SyntaxTree} {s : ParseState}
    (h : parseRoot tokens.length (.ofTokens tokens) = (tree, s)) :
    parseTokens tokens = ⟨tree, (s.problems ++ (tokens.take
      (tokens.length - s.later.length)).filterMap Token.problem?).mergeSort Problem.startsBefore,
      s.names⟩ := by
  rw [parseTokens, StateT.run, h]

/-- **The expression of a text stands in it.** -/
theorem stands_parse (text : String) : (parse text).tree.Stands text.toList := by
  have htokens : 0 < (Token.ofText text.toList).length :=
    List.length_pos_iff.2 (Position.tokens_ne_nil (.start text.toList))
  obtain ⟨q, -, -, hv⟩ := ParseM.walks_expression htokens maxParseDepth (.start text.toList)
    (Position.of_start _) _ (ParseState.at_ofTokens text.toList)
  rcases hr : parseRoot (Token.ofText text.toList).length
    (.ofTokens (Token.ofText text.toList)) with ⟨tree, s⟩
  rw [parse, parseTokens_eq hr]
  obtain ⟨rfl, -⟩ := Prod.mk.inj ((parseRoot_apply _ _).symm.trans hr)
  exact hv.stands

/-! ## Nodes -/

namespace Arena

/-- An initializer without a name that finds no value behind a blank. Its value is the missing name
that stands for what it does not find. -/
inductive LeftOut (a : Arena) (text : List Char) (n : Node) : Prop
  | intro {value : NodeRef} (hn : n.shape = .initializer none value)
    (hv : a.span value = .point n.span.start) (ht : LeftOutAt text n.span.start) :
    LeftOut a text n

/-- A node of an arena stands in a text, from its start to its end unless it finds no value. -/
structure NodeStands (a : Arena) (text : List Char) (n : Node) : Prop where
  start : IsBoundary text n.span.start
  stop : IsBoundary text n.span.stop
  le_iff : n.span.start ≤ n.span.stop ↔ ¬ a.LeftOut text n

variable {a b : Arena} {text : List Char} {n : Node} {p : Node → Prop}

/-- A node that is no initializer. -/
theorem nodeStands_of_proper (h : n.span.Proper text)
    (hn : ∀ value, n.shape ≠ .initializer none value) : b.NodeStands text n :=
  ⟨h.start, h.stop, iff_of_true h.le fun hl => by
    obtain ⟨hs, -, -⟩ := hl
    exact hn _ hs⟩

/-- All nodes have a property. -/
def All (p : Node → Prop) (a : Arena) : Prop :=
  ∀ r, ∀ n ∈ a.get? r, p n

theorem all_empty : All p {} := by
  intro r n hn
  cases r <;> simp [get?] at hn

theorem All.push (h : All p a) (hn : p n) : All p (a.push n) := by
  rintro (_ | i) m hm
  · cases hm
  · by_cases hi : i < a.size
    · rw [get?_push_of_lt hi] at hm
      exact h _ m hm
    · obtain ⟨hlt, -⟩ := Array.getElem?_eq_some_iff.1 hm
      have heq : i = a.size := by
        have hsize := size_push a n
        rw [size] at hsize
        omega
      rw [heq, get?_push_size] at hm
      cases hm
      exact hn

theorem All.addName {id? : Option Identifier} (h : All p a) (hid : ∀ id ∈ id?, p id.node) :
    All p (a.addName id?).2 := by
  cases id? with
  | none => exact h
  | some id => exact h.push (hid id rfl)

end Arena

namespace SyntaxTree

variable {text : List Char} {a b : Arena}

/-- The node of the whole stands where the tree stands. -/
theorem span_layOut (t : SyntaxTree) (h : (t.layOut a).2 ≤ b) :
    b.span (some (t.layOut a).1) = t.span := by
  have hnode : ∃ n, (t.layOut a).2.get? (some (t.layOut a).1) = some n ∧ n.span = t.span := by
    cases t <;> exact ⟨_, Arena.get?_push_size _ _, rfl⟩
  obtain ⟨n, hn, hs⟩ := hnode
  rw [Arena.span, Arena.get?_of_le h hn, ← hs]
  rfl

theorem nodeStands_name {id : Identifier} (h : id.span.Proper text) :
    b.NodeStands text id.node :=
  Arena.nodeStands_of_proper h nofun

/-- The node of an initializer stands where the initializer does. -/
theorem nodeStands_entry {entry : Initializer SyntaxTree} (h : entry.Stands text)
    (hb : (entry.value.layOut (a.addName entry.name).2).2 ≤ b) :
    b.NodeStands text ⟨.initializer (a.addName entry.name).1
      (some (entry.value.layOut (a.addName entry.name).2).1), entry.span, false⟩ := by
  refine ⟨h.start, h.stop, h.le_iff.trans (not_congr ⟨?_, ?_⟩)⟩
  · rintro ⟨hname, hv, ht⟩
    have hvalue := (span_layOut _ hb).trans hv
    refine .intro ?_ hvalue ht
    rw [hname]
    rfl
  · rintro ⟨hn, hv, ht⟩
    obtain ⟨hname, hvalue⟩ := NodeShape.initializer.inj hn
    refine ⟨?_, ?_, ht⟩
    · cases hid : entry.name with
      | none => rfl
      | some id => simp [hid, Arena.addName] at hname
    · rw [← hvalue, span_layOut _ hb] at hv
      exact hv

/-- The nodes of some initializers whose values are laid out in their places. -/
theorem all_layOutEntries {entries : List (Initializer SyntaxTree)}
    (hn : ∀ entry ∈ entries, ∀ id ∈ entry.name, id.span.Proper text)
    (hv : ∀ entry ∈ entries, ∀ a : Arena, (entry.value.layOut a).2 ≤ b →
      a.All (b.NodeStands text) → (entry.value.layOut a).2.All (b.NodeStands text))
    (he : ∀ entry ∈ entries, entry.Stands text) (hb : (layOutEntries entries a).2 ≤ b)
    (ha : a.All (b.NodeStands text)) :
    (layOutEntries entries a).2.All (b.NodeStands text) := by
  induction entries generalizing a with
  | nil => exact ha
  | cons entry entries ih =>
    obtain ⟨name, value, span⟩ := entry
    rw [List.forall_mem_cons] at hn hv he
    have hrest := (le_layOutEntries entries _).trans hb
    have hvalue := (Arena.le_push _ _).trans hrest
    refine ih hn.2 hv.2 he.2 hb ((hv.1 _ hvalue ?_).push (nodeStands_entry he.1 hvalue))
    exact ha.addName fun id hid => nodeStands_name (hn.1 id hid)

/-- **The nodes of a tree that stands in a text stand in it.** -/
theorem Stands.all_layOut {t : SyntaxTree} (h : t.Stands text) (hb : (t.layOut a).2 ≤ b)
    (ha : a.All (b.NodeStands text)) : (t.layOut a).2.All (b.NodeStands text) := by
  induction h generalizing a with
  | identifier h => exact ha.push (nodeStands_name h)
  | literal h | keyword h => exact ha.push (Arena.nodeStands_of_proper h nofun)
  | access _ hm h ih =>
    have hname := (Arena.le_push _ _).trans hb
    exact ((ih ((Arena.le_push _ _).trans hname) ha).push (nodeStands_name hm)).push
      (Arena.nodeStands_of_proper h nofun)
  | call _ h ih | paren _ h ih =>
    exact (ih ((Arena.le_push _ _).trans hb) ha).push (Arena.nodeStands_of_proper h nofun)
  | update _ hn _ he _ h ihr ihv =>
    have hentries := (Arena.le_push _ _).trans hb
    refine (all_layOutEntries hn (fun entry hentry a => ihv entry hentry) he hentries ?_).push
      (Arena.nodeStands_of_proper h nofun)
    exact ihr ((le_layOutEntries _ _).trans hentries) ha

end SyntaxTree

/-- **Where the nodes of a text stand.** Both ends of every node lie between two characters of the
text, or at its ends. The end lies before the start just for an initializer without a name whose
value is missing behind a blank, at a closing parenthesis, an opening brace or a comma. -/
theorem parse_stands (text : String) {r : NodeRef} {n : Node}
    (h : (parse text).arena.get? r = some n) :
    IsBoundary text.toList n.span.start ∧ IsBoundary text.toList n.span.stop ∧
      n.span.start ≤ byteLength text.toList ∧ n.span.stop ≤ byteLength text.toList ∧
      (n.span.start ≤ n.span.stop ↔ ¬ (parse text).arena.LeftOut text.toList n) := by
  have hall : (parse text).arena.All ((parse text).arena.NodeStands text.toList) :=
    (stands_parse text).all_layOut (le_refl _) Arena.all_empty
  have hn := hall r n h
  exact ⟨hn.start, hn.stop, hn.start.le, hn.stop.le, hn.le_iff⟩

/-- The initializer in `x with { , }` is such a node, and the other nodes are not. -/
theorem parse_stands_of_comma :
    (parse "x with { , }").arena.get? (some 2) =
      some ⟨.initializer none (some 1), ⟨9, 8⟩, false⟩ ∧
    IsBoundary "x with { , }".toList 9 ∧ IsBoundary "x with { , }".toList 8 ∧
      (parse "x with { , }").arena.LeftOut "x with { , }".toList
        ⟨.initializer none (some 1), ⟨9, 8⟩, false⟩ := by
  have hn : (parse "x with { , }").arena.get? (some 2) =
      some ⟨.initializer none (some 1), ⟨9, 8⟩, false⟩ := by
    decide +kernel
  obtain ⟨hstart, hstop, -, -, hiff⟩ := parse_stands "x with { , }" hn
  exact ⟨hn, hstart, hstop, not_not.1 (mt hiff.2 (by decide))⟩

/-- The initializer in `x with { , }` ends at 8, before it starts at 9. -/
theorem start_not_le_stop_of_comma :
    ¬ ∀ (text : String) (r : NodeRef) (n : Node), (parse text).arena.get? r = some n →
      n.span.start ≤ n.span.stop ∧ n.span.stop ≤ byteLength text.toList := by
  intro h
  have hn : (parse "x with { , }").arena.get? (some 2) =
      some ⟨.initializer none (some 1), ⟨9, 8⟩, false⟩ := by
    decide +kernel
  have hle := (h _ _ _ hn).1
  exact absurd hle (by decide)

end UpdateExpr
