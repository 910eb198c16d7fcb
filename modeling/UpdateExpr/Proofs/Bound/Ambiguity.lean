import UpdateExpr.Proofs.Bound.Assembly
import UpdateExpr.Proofs.Bound.LockstepNode
import UpdateExpr.Proofs.Symbol.Nullary

/-!
# Ambiguous clone methods

The method that copies a receiver is the first one without parameters that lookup finds usable. For
a class these are declared on one level, so a method that overrides that of a base is never in doubt
with it. An update is ambiguous where one level declares two usable ones.

Whether an ambiguity is reported is an option. It adds diagnostics and marks, and changes nothing
else: no check that comes later depends on it, though some look at marks.

## Main definitions

* `Binder.reporting`: a binder with the option, and without it
* `BindState.AddsAmbiguities`: a run differs from another in ambiguities only

## Main results

* `Binder.CopyRun.reported_iff`: when the number of the methods that could copy a receiver is
  reported
* `Binder.ambiguous_iff_two_on_level`: an ambiguity is one of methods of a single level
* `Binder.ambiguities_added`: the option adds what it names
-/

namespace UpdateExpr

namespace BindState

variable (s : BindState) (reason : Bool) (code : Nat) (span : Span) (args : List String)

/-- What a report adds that has a reason. -/
theorem entries_tellIf : (s.tellIf reason code span args).bag.entries =
    s.bag.entries ++ if reason then [.ofCode s.bag.file span code args] else [] := by
  cases reason
  · exact (List.append_nil _).symm
  · rfl

end BindState

/-- The diagnostics that are no ambiguities. -/
def withoutAmbiguities (ds : List Diagnostic) : List Diagnostic :=
  ds.filter (·.code ≠ Issue.ambiguousClone.code)

/-- From a state on, the first of two runs differs from the second in ambiguities only: the
expressions are equal but for marks, the second has no mark that the first lacks, both leave the
same types, and without the ambiguities the first has reported what the second has. -/
structure AddsAmbiguities (s : BindState) (on off : BoundExpr × BindState) : Prop where
  tree : on.1.unmarked = off.1.unmarked
  marks : List.Forall₂ (fun mark mark' => mark' = true → mark = true) on.1.marks off.1.marks
  types : on.2.types = off.2.types
  entries : ∃ more, on.2.bag.entries = s.bag.entries ++ more ∧
    off.2.bag.entries = s.bag.entries ++ withoutAmbiguities more

namespace Binder

open BindState Declaration

variable {b : Binder} {node : NodeRef} {receiver : TypeId} {copies : List Candidate} {fits : Bool}
  {s s' : BindState}

/-! ## Which methods are ambiguous -/

/-- That there are several is reported exactly if there are, and it counts. -/
theorem CopyRun.reported_iff (h : b.CopyRun node receiver s copies fits s') :
    ∃ more, s'.bag.entries = s.bag.entries ++ more ∧
      ((∃ d ∈ more, d.code = Issue.ambiguousClone.code) ↔ b.isAmbiguous copies = true) := by
  cases h with
  | faulty _ => exact ⟨[], (List.append_nil _).symm, by simp [isAmbiguous]⟩
  | absent args _ _ _ =>
    refine ⟨[_], rfl, ?_⟩
    simp [isAmbiguous, Diagnostic.ofCode, Issue.code]
  | @present _ _ m others _ q' args args' _ _ _ _ _ =>
    have hcodes : Issue.cloneReturnType.code ≠ Issue.ambiguousClone.code := by decide
    generalize b.isAmbiguous (m :: others) = reason
    refine ⟨_, by rw [entries_tellIf, bag_withTypes, entries_tellIf, bag_withTypes,
      List.append_assoc], ?_⟩
    cases reason <;> cases fits <;> simp [Diagnostic.ofCode, hcodes]

/-- **An ambiguity is one of methods on a single level.** In the world of a class, whatever is
looked for: the methods without parameters and type parameters that lookup finds are those of one
level of the chain of bases, with the verdict of the outcome. This is the first level that declares
such a method; where no level does, or a field or property above hides it, none is found. So if
ambiguities are reported, one is reported for a receiver of the class exactly if that level declares
two such methods under the name of the clone that are usable. -/
theorem ambiguous_iff_two_on_level (b : Binder) (node : NodeRef) (ty : TypeId) (s : BindState)
    (hclass : b.symbols.isInterface s.types ty = false) :
    (∀ query : LookupQuery, ∃ t' ds, b.symbols.ClassCensus ty query { types := s.types } t' ds ∧
      (∀ n, FirstNullary ds n →
        (b.symbols.lookup ty query { types := s.types }).1.candidates.filter b.symbols.isNullary =
          (nullariesOn ds n (b.symbols.lookup ty query { types := s.types }).1.verdict).map
            (·.candidate)) ∧
      ((∀ n, ¬ FirstNullary ds n) →
        (b.symbols.lookup ty query { types := s.types }).1.candidates.filter b.symbols.isNullary =
          [])) ∧
    (b.options.reportAmbiguousClone = true → ty ≠ .error →
      ∃ t' ds more,
        b.symbols.ClassCensus ty (b.query cloneName 0 true) { types := s.types } t' ds ∧
        (b.chooseClone node ty s).2.bag.entries = s.bag.entries ++ more ∧
        ((∃ d ∈ more, d.code = Issue.ambiguousClone.code) ↔
          ∃ n, FirstNullary ds n ∧ 2 ≤ (nullariesOn ds n .viable).length)) := by
  constructor
  · intro query
    obtain ⟨t', ds, hc, hbest⟩ := exists_classCensus (q := { types := s.types }) hclass query
    exact ⟨t', ds, hc, hbest.filter_isNullary hc.given⟩
  · intro hreport he
    obtain ⟨t', ds, hc, hbest⟩ := exists_classCensus (q := { types := s.types }) hclass
      (b.query cloneName 0 true)
    rcases hl : b.symbols.lookup ty (b.query cloneName 0 true) { types := s.types } with ⟨l, q⟩
    rw [hl] at hbest
    rcases hchoice : b.chooseClone node ty s with ⟨choice, s'⟩
    obtain ⟨copies, fits, hrun, -, -⟩ := copy_run hchoice
    obtain ⟨more, hmore, hreported⟩ := hrun.reported_iff
    refine ⟨t', ds, more, hc, hmore, hreported.trans ?_⟩
    rw [hrun.copies_eq he hl, isAmbiguous, hreport, Bool.true_and, decide_eq_true_iff]
    obtain ⟨hone, hnone⟩ := hbest.usable_eq hc.given rfl rfl
    constructor
    · intro htwo
      by_cases hlevel : ∃ n, FirstNullary ds n
      · obtain ⟨n, hn⟩ := hlevel
        rw [hone n hn, List.length_map] at htwo
        exact ⟨n, hn, htwo⟩
      · rw [hnone (not_exists.1 hlevel)] at htwo
        exact absurd htwo (by decide)
    · rintro ⟨n, hn, htwo⟩
      rw [hone n hn, List.length_map]
      exact htwo

/-- A class that declares two clone methods, both of which override the one of its base. -/
def twiceTable : SymbolTable where
  definitions := #[
    { name := "B", members := [⟨0⟩] },
    { name := "D", base? := some ⟨8⟩, members := [⟨1⟩, ⟨2⟩] }]
  members := #[
    { owner := ⟨0⟩, name := cloneName, shape := .method [] ⟨8⟩ 0 },
    { owner := ⟨1⟩, name := cloneName, shape := .method [] ⟨9⟩ 0 },
    { owner := ⟨1⟩, name := cloneName, shape := .method [] ⟨9⟩ 0 }]

/-- The types with these two classes. -/
def twiceState : BindState :=
  ⟨(TypeTable.plain ⟨1⟩ (TypeTable.plain ⟨0⟩ {}).2).2, { file := "w.wex" }⟩

/-- A text about a variable of the derived class, and a binder that reports ambiguities. -/
def twiceBinder (text : String) : Binder where
  arena := (parse text).arena
  symbols := twiceTable
  scope := { locals := [("d", ⟨⟨0⟩, ⟨9⟩⟩)], declared := 1 }
  options := { reportAmbiguousClone := true }

/-- The two methods of the class are ambiguous, and that of the base has no part in it. -/
theorem ambiguous_iff_two_on_level_of_twice :
    twiceTable.isInterface twiceState.types ⟨9⟩ = false ∧
    (twiceTable.lookup ⟨9⟩ ((twiceBinder "").query cloneName 0 true)
      { types := twiceState.types }).1.candidates = [⟨⟨1⟩, ⟨9⟩, []⟩, ⟨⟨2⟩, ⟨9⟩, []⟩] ∧
    ∃ t' ds, twiceTable.ClassCensus ⟨9⟩ ((twiceBinder "").query cloneName 0 true)
        { types := twiceState.types } t' ds ∧
      ∃ n, FirstNullary ds n ∧ 2 ≤ (nullariesOn ds n .viable).length := by
  have hclass : twiceTable.isInterface twiceState.types ⟨9⟩ = false := by decide +kernel
  obtain ⟨-, h⟩ := ambiguous_iff_two_on_level (twiceBinder "") none ⟨9⟩ twiceState hclass
  obtain ⟨t', ds, more, hc, hmore, hreported⟩ := h rfl (by decide)
  have hcodes : ((twiceBinder "").chooseClone none ⟨9⟩ twiceState).2.bag.entries.map (·.code) =
      [Issue.ambiguousClone.code] := by
    decide +kernel
  rw [hmore] at hcodes
  obtain ⟨d, hd, hcode⟩ := List.mem_map.1 (hcodes ▸ List.mem_singleton_self _)
  exact ⟨hclass, by decide +kernel, t', ds, hc, hreported.1 ⟨d, hd, hcode⟩⟩

/-! ## The option -/

/-- The binder that reports ambiguities, or does not. -/
def reporting (b : Binder) (report : Bool) : Binder :=
  { b with options := { b.options with reportAmbiguousClone := report } }

/-- Two bags of one file hold the same from some diagnostics on, but for ambiguities in the first
one. -/
structure Apart (base : List Diagnostic) (bag bag' : Bag) : Prop where
  file : bag.file = bag'.file
  entries : ∃ more, bag.entries = base ++ more ∧ bag'.entries = base ++ withoutAmbiguities more

theorem withoutAmbiguities_append (ds ds' : List Diagnostic) :
    withoutAmbiguities (ds ++ ds') = withoutAmbiguities ds ++ withoutAmbiguities ds' :=
  List.filter_append ..

theorem Apart.refl (bag : Bag) : Apart bag.entries bag bag :=
  ⟨rfl, [], (List.append_nil _).symm, (List.append_nil _).symm⟩

theorem Apart.add {base : List Diagnostic} {bag bag' : Bag} (h : Apart base bag bag') {code : Nat}
    (hc : code ≠ Issue.ambiguousClone.code) (span : Span) (args : List String) :
    Apart base (bag.add code span args) (bag'.add code span args) := by
  obtain ⟨hfile, more, hon, hoff⟩ := h
  refine ⟨hfile, more ++ [.ofCode bag.file span code args], ?_, ?_⟩
  · exact (congrArg (· ++ _) hon).trans (List.append_assoc _ _ _)
  · have hkept : withoutAmbiguities [.ofCode bag.file span code args] =
        [.ofCode bag'.file span code args] := by
      rw [hfile]
      exact List.filter_eq_self.2 (by simpa using hc)
    rw [withoutAmbiguities_append, hkept]
    exact (congrArg (· ++ _) hoff).trans (List.append_assoc _ _ _)

theorem Apart.addAmbiguity {base : List Diagnostic} {bag bag' : Bag} (h : Apart base bag bag')
    (span : Span) (args : List String) :
    Apart base (bag.add Issue.ambiguousClone.code span args) bag' := by
  obtain ⟨hfile, more, hon, hoff⟩ := h
  refine ⟨hfile, more ++ [.ofCode bag.file span Issue.ambiguousClone.code args], ?_, ?_⟩
  · exact (congrArg (· ++ _) hon).trans (List.append_assoc _ _ _)
  · have hdropped :
        withoutAmbiguities [.ofCode bag.file span Issue.ambiguousClone.code args] = [] :=
      List.filter_eq_nil_iff.2 (by simp)
    rw [withoutAmbiguities_append, hdropped, List.append_nil, hoff]

/-- The option has two binders of the same source, which read one arena. -/
theorem twins_reporting (b : Binder) (base : List Diagnostic) :
    (b.reporting true).Twins (b.reporting false) Eq (Apart base) where
  arena := b.arena.matches_self
  symbols := rfl
  scope := rfl
  quiet := rfl
  both := by
    rintro bag bag' code node _ args h rfl hc
    exact h.add hc _ args
  alone span args h := h.addAmbiguity span args

theorem addsAmbiguities_of_echo {s : BindState} {on off : BoundExpr × BindState}
    (h : Echo Eq on.1 off.1 ∧ on.2.InStep (Apart s.bag.entries) off.2) : AddsAmbiguities s on off :=
  ⟨h.1.unmarked_eq, h.1.marks_le, h.2.types, h.2.bag.entries⟩

/-- **The option to report ambiguities adds what it names.** On any arena, from any node and state,
down to any depth: with the option an expression is bound to the same tree as without it, to which
only marks are added; and what is reported is the same, to which only ambiguities are added. So it
is for an expression that is read and for an update at the top. An expression at the top that is
assigned to is only checked for that where it has no mark; if the option leaves its mark as it is,
this adds nothing else either. -/
theorem ambiguities_added (b : Binder) (node : NodeRef) (s : BindState) :
    (∀ depth, AddsAmbiguities s ((b.reporting true).expr depth node s)
      ((b.reporting false).expr depth node s)) ∧
    AddsAmbiguities s ((b.reporting true).bind node s) ((b.reporting false).bind node s) ∧
    AddsAmbiguities s ((b.reporting true).value .read node s)
      ((b.reporting false).value .read node s) ∧
    AddsAmbiguities s ((b.reporting true).bindUpdate node s)
      ((b.reporting false).bindUpdate node s) ∧
    (((b.reporting true).bind node s).1.hasErrors = ((b.reporting false).bind node s).1.hasErrors →
      AddsAmbiguities s ((b.reporting true).value .target node s)
        ((b.reporting false).value .target node s)) := by
  have t := b.twins_reporting s.bag.entries
  have hs : s.InStep (Apart s.bag.entries) s := ⟨rfl, .refl s.bag⟩
  have hbind := t.expr b.options.maxDepth
  refine ⟨fun depth => ?_, ?_, ?_, ?_, fun hmark => ?_⟩
  · exact addsAmbiguities_of_echo (t.expr depth node node rfl s s hs)
  · exact addsAmbiguities_of_echo (hbind node node rfl s s hs)
  · exact addsAmbiguities_of_echo (t.operand hbind rfl s s hs)
  · exact addsAmbiguities_of_echo (t.update hbind rfl s s hs)
  · obtain ⟨he, hs₁⟩ := hbind node node rfl s s hs
    obtain ⟨ht, hs₂⟩ := t.assignable ⟨he, hmark⟩ false _ _ hs₁
    exact addsAmbiguities_of_echo ⟨ht.echo, hs₂⟩

/-- A copy of a copy is ambiguous twice, if that is reported, and has all of its marks from that. -/
theorem ambiguities_added_of_twice :
    AddsAmbiguities twiceState
      (((twiceBinder "d with { } with { }").reporting true).expr 3 (some 2) twiceState)
      (((twiceBinder "d with { } with { }").reporting false).expr 3 (some 2) twiceState) ∧
    (((twiceBinder "d with { } with { }").reporting true).expr 3 (some 2)
      twiceState).2.bag.entries.map (·.code) =
        [Issue.ambiguousClone.code, Issue.ambiguousClone.code] ∧
    (((twiceBinder "d with { } with { }").reporting true).expr 3 (some 2) twiceState).1.marks =
      [true, true, true, true, false] ∧
    (((twiceBinder "d with { } with { }").reporting false).expr 3 (some 2) twiceState).1.marks =
      [false, false, false, false, false] := by
  obtain ⟨h, -⟩ := ambiguities_added (twiceBinder "d with { } with { }") (some 2) twiceState
  exact ⟨h 3, by decide +kernel, by decide +kernel, by decide +kernel⟩

end Binder

end UpdateExpr
