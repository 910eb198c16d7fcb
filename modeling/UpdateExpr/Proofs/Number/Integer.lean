import Mathlib.Data.Nat.Digits.Defs
import UpdateExpr.Bound.Binding
import UpdateExpr.Proofs.Syntax.Extent
import UpdateExpr.Proofs.Syntax.Holds
import UpdateExpr.Proofs.Syntax.Spaced

/-!
# Integers from their digits to their type

A text of digits, with or without the suffix of long integers, is one number. The scanner takes it
whole, however long it is; the parser gives it a value by the widths that it fits, and reports a
number that fits none; the binder types it by its value and does not report it again.

## Main definitions

* `integerText`: digits as an expression, maybe with a suffix
* `integerOutcome`: what an integer comes to, by the number that its digits write

## Main results

* `digitsValue_eq_ofDigits`: the number that digits write, in the sense of positional notation
* `parseTokens_number`: a number by itself as an expression
* `reads_integer`: the value, the problem and the type of an integer
-/

namespace UpdateExpr

/-- An integer as an expression: its digits, and maybe the suffix of long integers. -/
def integerText (digits : List Char) (suffix : Option Char) : String :=
  .ofList (digits ++ suffix.toList)

/-- What an integer comes to: its value, what is reported of it, and its type. -/
structure IntegerOutcome where
  value : LiteralValue
  issue? : Option Issue
  ty : TypeId

/-- What an integer comes to by the number that its digits write. A suffix rules 32 bits out. -/
def integerOutcome (suffix : Option Char) (n : Nat) : IntegerOutcome :=
  if suffix = none ∧ n < 2 ^ 31 then ⟨.int n, none, Intrinsic.int.id⟩
  else if n < 2 ^ 63 then ⟨.long n, none, Intrinsic.long.id⟩
  else ⟨.invalid, some .numberOutOfRange, .error⟩

/-- **A text is read and typed as an integer.** It is one literal with the value that the integer
comes to; what is reported of it, if anything, covers the whole token, and there is nothing else;
and any binder that binds something at all gives it its type without a report or any other
change. -/
structure ReadsInteger (text : String) (digits : List Char) (long : Bool)
    (outcome : IntegerOutcome) : Prop where
  tree : (parse text).tree =
    .literal outcome.value (.ofList digits) { long } ⟨0, byteLength text.toList⟩
  problems : (parse text).problems =
    outcome.issue?.toList.map fun issue => ⟨issue, ⟨0, byteLength text.toList⟩, [text]⟩
  bound : ∀ (b : Binder) (s : BindState), b.arena = (parse text).arena → 0 < b.options.maxDepth →
    (b.bind (some (parse text).root) s).1.ty? = some outcome.ty ∧
      (b.bind (some (parse text).root) s).2 = s

/-! ## Digits -/

/-- One more digit moves the others up by one place. -/
theorem digitsValue_append_singleton (digits : List Char) (c : Char) :
    digitsValue (digits ++ [c]) = 10 * digitsValue digits + digitValue c := by
  simp [digitsValue, List.foldl_append]

/-- **The number that digits write**, the last of them being the lowest. -/
theorem digitsValue_eq_ofDigits (digits : List Char) :
    digitsValue digits = Nat.ofDigits 10 (digits.reverse.map digitValue) := by
  induction digits using List.reverseRecOn with
  | nil => rfl
  | append_singleton digits c ih =>
    rw [digitsValue_append_singleton, ih, List.reverse_append, List.reverse_singleton,
      List.singleton_append, List.map_cons, Nat.ofDigits_cons, Nat.add_comm]

/-- The value of an integer is what its number comes to. -/
theorem value_integerOutcome (suffix : Option Char) (n : Nat) :
    (integerOutcome suffix n).value = .ofInteger suffix.isSome n := by
  have hint : LiteralValue.intLimit = 2 ^ 31 := rfl
  have hlong : LiteralValue.longLimit = 2 ^ 63 := rfl
  simp only [integerOutcome, apply_ite IntegerOutcome.value, LiteralValue.ofInteger, hint, hlong]
  cases suffix <;> simp

/-- What is reported of an integer is that it has no value. -/
theorem issue?_integerOutcome (suffix : Option Char) (n : Nat) :
    (integerOutcome suffix n).issue? =
      if (integerOutcome suffix n).value = .invalid then some .numberOutOfRange else none := by
  unfold integerOutcome
  split
  · rfl
  · split <;> rfl

/-! ## One number as a text -/

section Number

variable {digits : List Char} {suffix : Option Char}

/-- **Digits are one token**, however many there are, and a suffix belongs to it. -/
theorem scans_integer (hne : digits ≠ []) (hd : ∀ c ∈ digits, c.isDigit = true)
    (hs : ∀ c ∈ suffix, c = 'L' ∨ c = 'l') :
    Scans (digits ++ suffix.toList) .number digits { long := suffix.isSome } := by
  obtain ⟨c, cs, rfl⟩ := List.exists_cons_of_ne_nil hne
  rw [List.forall_mem_cons] at hd
  cases suffix with
  | none =>
    rw [Option.toList_none, List.append_nil]
    exact scans_digits hd.1 hd.2
  | some suffix => exact scans_long hd.1 hd.2 (hs suffix rfl)

/-- The tokens of a text that is one token: that token and the end. -/
theorem Token.ofText_of_scans {text : String} {kind : TokenKind} {value : List Char}
    {flags : TokenFlags} (h : Scans text.toList kind value flags) :
    ofText text.toList =
      [⟨kind, ⟨0, byteLength text.toList⟩, .ofList value, flags, text⟩,
        .endAt (byteLength text.toList)] := by
  have hnext : next ⟨0, text.toList⟩ =
      (⟨kind, ⟨0, byteLength text.toList⟩, .ofList value, flags, text⟩,
        ⟨byteLength text.toList, []⟩) := by
    have hword : Scans (Word.name text).text.toList kind value flags := h
    simpa [Word.text] using @next_of_scans [] [] _ _ _ _ hword nofun nofun 0
  obtain ⟨n, hn⟩ := Nat.exists_eq_add_one.2 h.length_pos
  have hend : next ⟨byteLength text.toList, []⟩ =
      (.endAt (byteLength text.toList), ⟨byteLength text.toList, []⟩) := by
    simp [next, Position.skipBlanks, atPosition]
  rw [ofText, hn, listFrom, Position.start, hnext]
  simp [h.kind_ne_endOfFile, listFrom, hend, endAt]

end Number

/-! ## One primary as an expression -/

section Primary

variable {bound depth : Nat} {s s' : ParseState} {tree : SyntaxTree}

theorem parseMembers_of_endOfFile (h : s.current.kind = .endOfFile) (start n : Nat) :
    parseMembers start n tree s = (tree, s) := by
  cases n with
  | zero => rfl
  | succ n =>
    show (if s.current.kind = .dot then _ else pure tree : ParseM SyntaxTree) s = _
    rw [if_neg (by simp [h])]
    rfl

theorem parseUpdates_of_endOfFile (h : s.current.kind = .endOfFile) (nested : ParseM SyntaxTree)
    (n : Nat) : parseUpdates nested bound n tree s = (tree, s) := by
  cases n with
  | zero => rfl
  | succ n =>
    show (if s.current.kind = .withKeyword then _ else pure tree : ParseM SyntaxTree) s = _
    rw [if_neg (by simp [h])]
    rfl

/-- Where a primary is all that the text has left, it is the expression. -/
theorem parseExpression_of_primary
    (h : parsePrimary (parseExpression bound depth) s = (tree, s'))
    (hk : s'.current.kind = .endOfFile) : parseExpression bound (depth + 1) s = (tree, s') := by
  show parseUpdates (parseExpression bound depth) bound bound
      (parseMembers s.current.span.start bound (parsePrimary (parseExpression bound depth) s).1
        (parsePrimary (parseExpression bound depth) s).2).1
      (parseMembers s.current.span.start bound (parsePrimary (parseExpression bound depth) s).1
        (parsePrimary (parseExpression bound depth) s).2).2 = _
  rw [h, parseMembers_of_endOfFile hk]
  exact parseUpdates_of_endOfFile hk _ _

/-- **A primary by itself as an expression**: what the rule for primaries makes of it, if the token
has no fault of its own. -/
theorem parseTokens_of_primary {t : Token} {stop : Nat} {problems : List Problem}
    (hp : t.problem? = none)
    (h : ∀ nested, parsePrimary nested (.ofTokens [t, .endAt stop]) =
      (tree, { current := .endAt stop, later := [], lastEnd := t.span.stop, problems })) :
    (parseTokens [t, .endAt stop]).tree = tree ∧
      (parseTokens [t, .endAt stop]).problems = problems.mergeSort Problem.startsBefore := by
  have hclose : ∀ s : ParseState, s.current.kind = .endOfFile → s.close = s := fun s h => if_pos h
  have hroot := parseRoot_apply 2 (.ofTokens [t, .endAt stop])
  rw [maxParseDepth, parseExpression_of_primary (h _) rfl, hclose _ rfl] at hroot
  have hfaults : ∀ n, ([t, .endAt stop].take n).filterMap Token.problem? = [] := by
    intro n
    rw [List.filterMap_eq_nil_iff]
    intro u hu
    have hmem := List.mem_of_mem_take hu
    rw [List.mem_pair] at hmem
    rcases hmem with rfl | rfl
    · exact hp
    · exact Token.problem?_endAt stop
  have htokens : parseTokens [t, .endAt stop] = _ := parseTokens_eq hroot
  rw [hfaults, List.append_nil] at htokens
  rw [htokens]
  exact ⟨rfl, rfl⟩

end Primary

/-- Reading a number, with a report if it has no value. -/
theorem parseNumber_apply (t : Token) (s : ParseState) :
    parseNumber t s =
      (.literal (.ofNumber t.value.toList t.flags) t.value t.flags t.span,
        ParseState.advance <|
          if LiteralValue.ofNumber t.value.toList t.flags = .invalid then
            s.report .numberOutOfRange t.span [t.lexeme]
          else s) := by
  by_cases h : LiteralValue.ofNumber t.value.toList t.flags = .invalid
  · simp only [parseNumber, h, if_true]
    rfl
  · simp only [parseNumber, h, if_false]
    rfl

theorem currentToken_bind {α : Type} (f : Token → ParseM α) (s : ParseState) :
    (currentToken >>= f) s = f s.current s := rfl

theorem parsePrimary_number {s : ParseState} (h : s.current.kind = .number)
    (nested : ParseM SyntaxTree) : parsePrimary nested s = parseNumber s.current s := by
  rw [parsePrimary, currentToken_bind, h]

/-- **A number by itself as an expression.** Its value is that of its characters; if it has none,
this is reported at the number, and nothing else is. -/
theorem parseTokens_number {t : Token} (stop : Nat) (hk : t.kind = .number)
    (hu : t.flags.unterminated = false) :
    (parseTokens [t, .endAt stop]).tree =
        .literal (.ofNumber t.value.toList t.flags) t.value t.flags t.span ∧
      (parseTokens [t, .endAt stop]).problems =
        if LiteralValue.ofNumber t.value.toList t.flags = .invalid then
          [⟨.numberOutOfRange, t.span, [t.lexeme]⟩]
        else [] := by
  set read := LiteralValue.ofNumber t.value.toList t.flags
  have hp : t.problem? = none := by simp [Token.problem?, Token.issue?, hk, hu]
  have hprimary : ∀ nested, parsePrimary nested (.ofTokens [t, .endAt stop]) =
      (.literal read t.value t.flags t.span,
        { current := .endAt stop, later := [], lastEnd := t.span.stop
          problems := if read = .invalid then [⟨.numberOutOfRange, t.span, [t.lexeme]⟩]
            else [] }) := by
    intro nested
    rw [parsePrimary_number hk, parseNumber_apply]
    show (_, ParseState.advance (if read = .invalid then _ else _)) = _
    by_cases hv : read = .invalid
    · rw [if_pos hv, if_pos hv]
      rfl
    · rw [if_neg hv, if_neg hv]
      rfl
  obtain ⟨htree, hproblems⟩ := parseTokens_of_primary hp hprimary
  refine ⟨htree, hproblems.trans ?_⟩
  split <;> simp

/-! ## Integers -/

section Integer

variable {digits : List Char} {suffix : Option Char}

/-- What is read of an integer is what its number comes to. -/
theorem parse_integer (hne : digits ≠ []) (hd : ∀ c ∈ digits, c.isDigit = true)
    (hs : ∀ c ∈ suffix, c = 'L' ∨ c = 'l') :
    (parse (integerText digits suffix)).tree =
        .literal (integerOutcome suffix (digitsValue digits)).value (.ofList digits)
          { long := suffix.isSome } ⟨0, byteLength (integerText digits suffix).toList⟩ ∧
      (parse (integerText digits suffix)).problems =
        (integerOutcome suffix (digitsValue digits)).issue?.toList.map fun issue =>
          ⟨issue, ⟨0, byteLength (integerText digits suffix).toList⟩,
            [integerText digits suffix]⟩ := by
  have hscans : Scans (integerText digits suffix).toList .number digits
      { long := suffix.isSome } := by
    rw [integerText, String.toList_ofList]
    exact scans_integer hne hd hs
  have hvalue : LiteralValue.ofNumber (String.ofList digits).toList { long := suffix.isSome } =
      (integerOutcome suffix (digitsValue digits)).value := by
    rw [value_integerOutcome, String.toList_ofList]
    rfl
  rw [parse, Token.ofText_of_scans hscans, issue?_integerOutcome]
  obtain ⟨htree, hproblems⟩ := parseTokens_number
    (t := ⟨.number, ⟨0, byteLength (integerText digits suffix).toList⟩, .ofList digits,
      { long := suffix.isSome }, integerText digits suffix⟩)
    (byteLength (integerText digits suffix).toList) rfl rfl
  rw [hvalue] at htree hproblems
  refine ⟨htree, hproblems.trans ?_⟩
  split <;> rfl

/-- The node of a literal is bound to that literal at any depth, and nothing is reported of it. -/
theorem Binder.expr_literal {b : Binder} {r : NodeRef} {value : LiteralValue} {text : String}
    {flags : TokenFlags} {span : Span}
    (hget : b.arena.get? r = some ⟨.literal value text flags, span, false⟩) {depth : Nat}
    (hdepth : 0 < depth) (s : BindState) : b.expr depth r s = (literal r value, s) := by
  obtain ⟨depth, rfl⟩ := Nat.exists_eq_add_one.2 hdepth
  rw [expr, node, hget]
  rfl

/-- A text that is one literal is bound to that literal, and nothing is reported of it. -/
theorem Binder.bind_literal {b : Binder} {parsed : Parsed} {value : LiteralValue} {text : String}
    {flags : TokenFlags} {span : Span} (htree : parsed.tree = .literal value text flags span)
    (hb : b.arena = parsed.arena) (hdepth : 0 < b.options.maxDepth) (s : BindState) :
    b.bind (some parsed.root) s = (literal (some parsed.root) value, s) := by
  have hnode := parsed.holds_root
  rw [htree, ← hb] at hnode
  exact expr_literal hnode hdepth s

theorem ty?_literal_integerOutcome (r : NodeRef) (suffix : Option Char) (n : Nat) :
    (Binder.literal r (integerOutcome suffix n).value).ty? = some (integerOutcome suffix n).ty := by
  unfold integerOutcome
  split
  · rfl
  · split <;> rfl

/-- **An integer carries its value or is rejected**, and its type goes by its value, however many
digits it has and however many of them are leading zeros. -/
theorem reads_integer (hne : digits ≠ []) (hd : ∀ c ∈ digits, c.isDigit = true)
    (hs : ∀ c ∈ suffix, c = 'L' ∨ c = 'l') :
    ReadsInteger (integerText digits suffix) digits suffix.isSome
      (integerOutcome suffix (Nat.ofDigits 10 (digits.reverse.map digitValue))) := by
  rw [← digitsValue_eq_ofDigits]
  obtain ⟨htree, hproblems⟩ := parse_integer hne hd hs
  refine ⟨htree, hproblems, ?_⟩
  intro b s hb hdepth
  rw [Binder.bind_literal htree hb hdepth s]
  exact ⟨ty?_literal_integerOutcome _ _ _, rfl⟩

/-- A number with a leading zero, one past the largest of 32 bits; and the first one that no width
holds, with a suffix and in a binder. -/
theorem reads_integer_at_limits :
    ReadsInteger "02147483648" ['0', '2', '1', '4', '7', '4', '8', '3', '6', '4', '8'] false
        ⟨.long 2147483648, none, Intrinsic.long.id⟩ ∧
      (Binder.bind ⟨(parse "9223372036854775808l").arena, {}, {}, {}⟩
          (some (parse "9223372036854775808l").root) ⟨{}, { file := "w.wex" }⟩).1.ty? =
        some .error := by
  constructor
  · exact @reads_integer ['0', '2', '1', '4', '7', '4', '8', '3', '6', '4', '8'] none (by decide)
      (List.all_eq_true.1 rfl) nofun
  · have hreads := @reads_integer ['9', '2', '2', '3', '3', '7', '2', '0', '3', '6', '8',
      '5', '4', '7', '7', '5', '8', '0', '8'] (some 'l') (by decide) (List.all_eq_true.1 rfl)
      (by simp)
    exact (hreads.bound _ _ rfl (by decide)).1

end Integer

end UpdateExpr
