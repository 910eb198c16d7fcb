import UpdateExpr.Proofs.Number.Integer
import UpdateExpr.Proofs.Token.Escape
import UpdateExpr.Proofs.Token.Scanning

/-!
# Strings from their contents to their constant

Any contents can be written as a string: quotes, backslashes and newlines behind a backslash,
everything else as it is. At the front of a text the string is one token that stands for its
contents, whatever follows; it is the first node that is read of the text, and it is bound to its
contents.

## Main definitions

* `Quotes`: how contents may be written between quotes
* `ReadsString`: a string at the front of a text is scanned, read and bound
* `SyntaxTree.front`: the part of an expression that is read first

## Main results

* `SyntaxTree.holds_front`: the part that is read first is the first node
* `front_parseExpression`: an expression starts with its primary
* `reads_quoted`: contents are written, scanned, read and bound, and where a string is not closed
-/

namespace UpdateExpr

/-- The characters that may be written behind a backslash, and how. -/
def escapes : List (Char × Char) :=
  [('"', '"'), ('\\', '\\'), ('\n', 'n'), ('\t', 't')]

/-- How contents may be written between quotes. A tab may be written as it is. -/
inductive Quotes : List Char → List Char → Prop
  | nil : Quotes [] []
  | plain {c : Char} {value written : List Char} (hc : c ∉ ['"', '\\', '\n'])
    (h : Quotes value written) : Quotes (c :: value) (c :: written)
  | escaped {c d : Char} {value written : List Char} (hc : (c, d) ∈ escapes)
    (h : Quotes value written) : Quotes (c :: value) ('\\' :: d :: written)

/-- Something written as a string. -/
def quoted (written : List Char) : List Char :=
  '"' :: (written ++ ['"'])

/-- **A string at the front of a text is scanned, read and bound.** It is the first token, without a
flag or a problem. It is the first node that is read, and any binder that binds the node at all, by
itself or as a part, gives the contents as a constant, without a report or any other change. Where
only blanks follow, it is all that is read. -/
structure ReadsString (text : List Char) (value : String) (following : List Char) : Prop where
  scans : (Scanner.ofText (text ++ following)).scan.current =
    ⟨.string, ⟨0, byteLength text⟩, value, {}, .ofList text⟩
  unproblematic : (Scanner.ofText (text ++ following)).scan.problems = []
  node : (parse (.ofList (text ++ following))).arena.get? (some 0) =
    some ⟨.literal (.text value) (.ofList text) {}, ⟨0, byteLength text⟩, false⟩
  bound : ∀ (b : Binder) (s : BindState) (depth : Nat),
    b.arena = (parse (.ofList (text ++ following))).arena → 0 < depth →
      b.expr depth (some 0) s = (.literal ⟨some 0, some .string, false⟩ (.text value), s)
  whole : (∀ c ∈ following, isBlank c = true) →
    (parse (.ofList (text ++ following))).tree =
        .literal (.text value) (.ofList text) {} ⟨0, byteLength text⟩ ∧
      (parse (.ofList (text ++ following))).root = 0 ∧
      (parse (.ofList (text ++ following))).problems = []

/-! ## Writing -/

section Writing

variable {value written following : List Char}

/-- Any contents can be written. -/
theorem exists_quotes (value : List Char) : ∃ written, Quotes value written := by
  induction value with
  | nil => exact ⟨[], .nil⟩
  | cons c value ih =>
    obtain ⟨written, h⟩ := ih
    by_cases hc : c ∈ ['"', '\\', '\n']
    · have hescape : ∃ d, (c, d) ∈ escapes := by
        simp only [List.mem_cons, List.not_mem_nil, or_false] at hc
        rcases hc with rfl | rfl | rfl <;> simp [escapes]
      obtain ⟨d, hd⟩ := hescape
      exact ⟨_, .escaped hd h⟩
    · exact ⟨_, .plain hc h⟩

theorem unescape_of_mem {c d : Char} (h : (c, d) ∈ escapes) : Lexeme.unescape d = c := by
  simp only [escapes, List.mem_cons, Prod.mk.injEq, List.not_mem_nil, or_false] at h
  rcases h with ⟨rfl, rfl⟩ | ⟨rfl, rfl⟩ | ⟨rfl, rfl⟩ | ⟨rfl, rfl⟩ <;> rfl

/-- **What is written goes on up to the closing quote and stands for the contents.** -/
theorem Quotes.decoded (h : Quotes value written) :
    GoesOn written ∧ Unescaped written ∧ decoded written = value := by
  induction h with
  | nil => exact ⟨goesOn_nil, unescaped_nil, rfl⟩
  | plain hc h ih =>
    obtain ⟨hgoes, hunescaped, rfl⟩ := ih
    simp only [List.mem_cons, List.not_mem_nil, or_false, not_or] at hc
    obtain ⟨hquote, hback, hline⟩ := hc
    exact ⟨(goesOn_cons hback).2 ⟨⟨hquote, hline⟩, hgoes⟩, (unescaped_cons hback).2 hunescaped,
      decoded_plain hback⟩
  | escaped hc h ih =>
    obtain ⟨hgoes, hunescaped, rfl⟩ := ih
    refine ⟨goesOn_escape.2 hgoes, unescaped_escape.2 hunescaped, ?_⟩
    rw [UpdateExpr.decoded, unescape_of_mem hc]

theorem Quotes.first (h : Quotes value written) (following : List Char) :
    Lexeme.first '"' (written ++ '"' :: following) =
      ⟨.string, quoted written, value, {}, following⟩ := by
  obtain ⟨hgoes, hunescaped, hvalue⟩ := h.decoded
  rw [Lexeme.first, Lexeme.ofString, Lexeme.stringTail_append hgoes hunescaped, hvalue,
    Lexeme.stringTail, List.append_nil]
  rfl

/-- **A string at the front of a text is its first token**, whatever follows. -/
theorem Quotes.next (h : Quotes value written) (following : List Char) :
    Token.next (.start (quoted written ++ following)) =
      (⟨.string, ⟨0, byteLength (quoted written)⟩, .ofList value, {}, .ofList (quoted written)⟩,
        ⟨byteLength (quoted written), following⟩) := by
  have htext : quoted written ++ following = '"' :: (written ++ '"' :: following) := by
    simp [quoted]
  have hblank : (Position.start (quoted written ++ following)).skipBlanks =
      .start (quoted written ++ following) := by
    have hquote : isBlank '"' = false := by decide
    simp [htext, Position.start, Position.skipBlanks, hquote]
  rw [Token.next, hblank, Token.atPosition, Position.start, htext]
  simp only [h.first, Nat.zero_add]

end Writing

/-! ## What is read first -/

namespace SyntaxTree

/-- The part of an expression that is read first. -/
def front : SyntaxTree → SyntaxTree
  | access target _ _ | call target _ | paren target _ | update target _ _ _ => target.front
  | t => t

/-- **The part that is read first is the first node.** -/
theorem holds_front (t : SyntaxTree) (a : Arena) :
    (t.layOut a).2.Holds t.front (some a.size) := by
  fun_induction front t generalizing a with
  | case1 target _ _ ih => exact ((ih a).mono (Arena.le_push _ _)).mono (Arena.le_push _ _)
  | case2 target _ ih | case3 target _ ih => exact (ih a).mono (Arena.le_push _ _)
  | case4 receiver entries _ _ ih =>
    exact ((ih a).mono (le_layOutEntries entries _)).mono (Arena.le_push _ _)
  | case5 t haccess hcall hparen hupdate =>
    cases t with
    | identifier | literal | keyword => exact Arena.get?_push_size a _
    | access => exact (haccess _ _ _ rfl).elim
    | call => exact (hcall _ _ rfl).elim
    | paren => exact (hparen _ _ rfl).elim
    | update => exact (hupdate _ _ _ _ rfl).elim

end SyntaxTree

/-- A literal that is read first is the first node. -/
theorem Parsed.get?_front {p : Parsed} {value : LiteralValue} {text : String} {flags : TokenFlags}
    {span : Span} (h : p.tree.front = .literal value text flags span) :
    p.arena.get? (some 0) = some ⟨.literal value text flags, span, false⟩ := by
  have hholds := p.tree.holds_front {}
  rw [h] at hholds
  exact hholds

section Front

variable {start bound depth : Nat} {tree : SyntaxTree} {nested : ParseM SyntaxTree}

theorem front_parseCall (s : ParseState) : (parseCall start tree s).1.front = tree.front := by
  show ((if s.current.kind = .openParen then _ else pure tree : ParseM SyntaxTree) s).1.front = _
  split <;> rfl

theorem front_parseMembers (n : Nat) (s : ParseState) :
    (parseMembers start n tree s).1.front = tree.front := by
  induction n generalizing tree s with
  | zero => rfl
  | succ n ih =>
    show ((if s.current.kind = .dot then _ else pure tree : ParseM SyntaxTree) s).1.front = _
    split
    · exact (ih _).trans (front_parseCall _)
    · rfl

theorem front_parseUpdate (n : Nat) (s : ParseState) :
    (parseUpdate nested n tree s).1.front = tree.front := by
  show ((if (expect .openBrace s.advance).1 = true then _ else _ : ParseM SyntaxTree)
    (expect .openBrace s.advance).2).1.front = _
  split <;> rfl

theorem front_parseUpdates (n : Nat) (s : ParseState) :
    (parseUpdates nested bound n tree s).1.front = tree.front := by
  induction n generalizing tree s with
  | zero => rfl
  | succ n ih =>
    show ((if s.current.kind = .withKeyword then _ else pure tree : ParseM SyntaxTree) s).1.front =
      _
    split
    · exact (ih _).trans (front_parseUpdate _ _)
    · rfl

/-- **An expression starts with its primary.** -/
theorem front_parseExpression (s : ParseState) :
    (parseExpression bound (depth + 1) s).1.front =
      (parsePrimary (parseExpression bound depth) s).1.front :=
  (front_parseUpdates _ _).trans (front_parseMembers _ _)

end Front

/-! ## Reading and binding -/

section Reading

variable {value written following : List Char} {t : Token} {ts : List Token}

/-- Reading a string takes its token. -/
theorem parsePrimary_string {s : ParseState} (h : s.current.kind = .string)
    (nested : ParseM SyntaxTree) : parsePrimary nested s =
      (.literal (.text s.current.value) s.current.lexeme s.current.flags s.current.span,
        s.advance) := by
  rw [parsePrimary, currentToken_bind, h]
  rfl

/-- What is read of some tokens starts with the first one, if that is a string. -/
theorem front_parseTokens (h : t.kind = .string) : (parseTokens (t :: ts)).tree.front =
    .literal (.text t.value) t.lexeme t.flags t.span := by
  rw [parseTokens_eq (parseRoot_apply _ _)]
  simp only
  rw [maxParseDepth, front_parseExpression, parsePrimary_string h]
  rfl

/-- **A string by itself as an expression.** -/
theorem parseTokens_string (stop : Nat) (hk : t.kind = .string)
    (hu : t.flags.unterminated = false) :
    (parseTokens [t, .endAt stop]).tree = .literal (.text t.value) t.lexeme t.flags t.span ∧
      (parseTokens [t, .endAt stop]).problems = [] := by
  have hp : t.problem? = none := by simp [Token.problem?, Token.issue?, hk, hu]
  have hprimary : ∀ nested, parsePrimary nested (.ofTokens [t, .endAt stop]) =
      (.literal (.text t.value) t.lexeme t.flags t.span,
        { current := .endAt stop, later := [], lastEnd := t.span.stop, problems := [] }) :=
    fun nested => parsePrimary_string hk nested
  obtain ⟨htree, hproblems⟩ := parseTokens_of_primary hp hprimary
  exact ⟨htree, hproblems.trans List.mergeSort_nil⟩

/-- The token of a string at the front of a text. -/
def quotedToken (value written : List Char) : Token :=
  ⟨.string, ⟨0, byteLength (quoted written)⟩, .ofList value, {}, .ofList (quoted written)⟩

theorem Quotes.ofText (h : Quotes value written) (following : List Char) :
    Token.ofText (quoted written ++ following) = quotedToken value written ::
      Position.tokens ⟨byteLength (quoted written), following⟩ := by
  have hstart : Token.ofText (quoted written ++ following) =
      (Position.start (quoted written ++ following)).tokens := rfl
  rw [hstart, Position.tokens_eq, Position.token, Position.after, h.next]
  rfl

/-- Behind the last token, if only blanks are left, there is the end of the text. -/
theorem tokens_of_blanks {p : Position} (h : ∀ c ∈ p.rest, isBlank c = true) :
    ∃ stop, p.tokens = [.endAt stop] := by
  have hrest : p.skipBlanks.rest = [] := List.dropWhile_eq_nil_iff.2 h
  have htoken : p.token = .endAt p.skipBlanks.offset := by
    rw [Position.token, Token.next, Token.atPosition, hrest]
  refine ⟨p.skipBlanks.offset, ?_⟩
  rw [Position.tokens_eq, htoken]
  rfl

/-- **Contents that are written as a string are scanned, read and bound.** -/
theorem Quotes.reads (h : Quotes value written) (following : List Char) :
    ReadsString (quoted written) (.ofList value) following := by
  have hnext := h.next following
  have hparse : parse (.ofList (quoted written ++ following)) =
      parseTokens (quotedToken value written ::
        Position.tokens ⟨byteLength (quoted written), following⟩) := by
    rw [parse, String.toList_ofList, h.ofText]
  have hnode : (parse (.ofList (quoted written ++ following))).arena.get? (some 0) =
      some ⟨.literal (.text (.ofList value)) (.ofList (quoted written)) {},
        ⟨0, byteLength (quoted written)⟩, false⟩ := by
    have hfront := @front_parseTokens (quotedToken value written)
      (Position.tokens ⟨byteLength (quoted written), following⟩) rfl
    rw [← hparse] at hfront
    exact Parsed.get?_front hfront
  refine ⟨?_, ?_, hnode, fun b s depth hb hdepth => ?_, fun hblank => ?_⟩
  · show (Token.next (.start (quoted written ++ following))).1 = _
    rw [hnext]
  · show [] ++ (Token.next (.start (quoted written ++ following))).1.problem?.toList = []
    rw [hnext]
    rfl
  · rw [← hb] at hnode
    exact Binder.expr_literal hnode hdepth s
  · obtain ⟨stop, hstop⟩ := tokens_of_blanks (p := ⟨byteLength (quoted written), following⟩) hblank
    obtain ⟨htree, hproblems⟩ :=
      parseTokens_string (t := quotedToken value written) stop rfl rfl
    rw [hparse, hstop]
    refine ⟨htree, ?_, hproblems⟩
    rw [Parsed.root, htree]
    rfl

end Reading

/-! ## Closing -/

/-- **A string is closed by the first quote that is not escaped, unless a newline that is not
escaped comes before it.** -/
theorem Lexeme.unterminated_stringTail_iff (cs : List Char) :
    (stringTail cs).flags.unterminated = true ↔ ∀ front back, cs = front ++ '"' :: back →
      Unescaped front → ∃ line more, front = line ++ '\n' :: more ∧ Unescaped line := by
  rcases goesOn_or_exists_end cs with hgoes | ⟨body, c, rest, rfl, hgoes, hunescaped, hc⟩
  · rw [stringTail_of_goesOn hgoes]
    refine iff_of_true rfl fun front back hcs hu => ?_
    exact absurd rfl (hgoes front '"' back hcs hu).1
  · rw [stringTail_append hgoes hunescaped]
    rcases hc with rfl | rfl
    · rw [stringTail]
      refine iff_of_false Bool.false_ne_true fun h => ?_
      obtain ⟨line, more, hbody, hline⟩ := h body rest rfl hunescaped
      exact (hgoes line '\n' more hbody hline).2 rfl
    · rw [stringTail]
      refine iff_of_true rfl fun front back hcs hu => ?_
      rcases List.append_eq_append_iff.1 hcs with ⟨more, rfl, hmore⟩ | ⟨more, rfl, hmore⟩
      · cases more with
        | nil => cases hmore
        | cons d more =>
          cases hmore
          exact ⟨body, more, rfl, hunescaped⟩
      · cases more with
        | nil => cases hmore
        | cons d more =>
          cases hmore
          exact absurd rfl (hgoes front '"' more rfl hu).1

/-- **Strings from their contents to their constant.** Any contents can be written as a string, and
however they are written, at the front of a text they are scanned as one token, read as the first
node and bound as a constant. Of a text that starts with a quote the first token is a string, which
lacks its closing quote just where each quote that is not escaped comes behind a newline that is not
escaped. -/
theorem reads_quoted :
    (∀ value : String, (∃ written, Quotes value.toList written) ∧
      ∀ written following : List Char, Quotes value.toList written →
        ReadsString (quoted written) value following) ∧
    ∀ cs : List Char, (Scanner.ofText ('"' :: cs)).scan.current.kind = .string ∧
      ((Scanner.ofText ('"' :: cs)).scan.current.flags.unterminated = true ↔
        ∀ front back, cs = front ++ '"' :: back → Unescaped front →
          ∃ line more, front = line ++ '\n' :: more ∧ Unescaped line) := by
  refine ⟨fun value => ⟨exists_quotes _, fun written following h => ?_⟩, fun cs => ?_⟩
  · have hreads := h.reads following
    rwa [String.ofList_toList] at hreads
  · have htoken : (Scanner.ofText ('"' :: cs)).scan.current =
        (Token.atPosition (.start ('"' :: cs))).1 := rfl
    rw [htoken]
    exact ⟨Lexeme.kind_stringTail cs, Lexeme.unterminated_stringTail_iff cs⟩

/-- A quote, a backslash, a newline and both ways of writing a tab, with a member behind the
string. -/
theorem reads_quoted_of_escapes :
    Quotes ['a', '"', '\\', '\n', '\t', '\t', 'é']
        ['a', '\\', '"', '\\', '\\', '\\', 'n', '\t', '\\', 't', 'é'] ∧
      ReadsString (quoted ['a', '\\', '"', '\\', '\\', '\\', 'n', '\t', '\\', 't', 'é'])
        "a\"\\\n\t\té" ['.', 'x'] := by
  have h : Quotes ['a', '"', '\\', '\n', '\t', '\t', 'é']
      ['a', '\\', '"', '\\', '\\', '\\', 'n', '\t', '\\', 't', 'é'] :=
    .plain (by decide) <| .escaped (by decide) <| .escaped (by decide) <| .escaped (by decide) <|
      .plain (by decide) <| .escaped (by decide) <| .plain (by decide) .nil
  exact ⟨h, (reads_quoted.1 "a\"\\\n\t\té").2 _ ['.', 'x'] h⟩

end UpdateExpr
