/-!
# Message templates

The places of a template are written `{0}`, `{1}`, and so on. Arguments are inserted one after
the other, each into the text that the ones before it left, so a place that stands in the text of
an argument is filled by a later argument.

## Main definitions

* `replaceAll pattern new text`: every occurrence of the pattern replaced, left to right
* `place i`: the place of argument `i`
* `fillTemplate template args`: the message with all arguments inserted

## Main results

* `replaceAll_of_forall_not_isPrefixOf`: a text without the pattern stays as it is
-/

namespace UpdateExpr

/-- The occurrences of a nonempty pattern replaced by a new text. After an occurrence the search
goes on behind it; `skip` counts the characters of an occurrence that are still to be left out. -/
def replaceFrom (pattern new : List Char) : Nat → List Char → List Char
  | _, [] => []
  | skip + 1, _ :: cs => replaceFrom pattern new skip cs
  | 0, c :: cs =>
    if pattern.isPrefixOf (c :: cs) then
      new ++ replaceFrom pattern new (pattern.length - 1) cs
    else c :: replaceFrom pattern new 0 cs

/-- Every occurrence of a nonempty pattern replaced by a new text, left to right. -/
def replaceAll (pattern new text : List Char) : List Char :=
  replaceFrom pattern new 0 text

/-- The place of argument `i` in a template: its number in braces. -/
def place (i : Nat) : List Char :=
  '\x7b' :: (toString i).toList ++ ['\x7d']

/-- The arguments from number `i` on inserted into a text, in order. -/
def fillFrom : Nat → List Char → List String → List Char
  | _, text, [] => text
  | i, text, arg :: args => fillFrom (i + 1) (replaceAll (place i) arg.toList text) args

/-- A template with its arguments inserted. -/
def fillTemplate (template : String) (args : List String) : String :=
  String.ofList (fillFrom 0 template.toList args)

@[simp] theorem replaceAll_nil (pattern new : List Char) : replaceAll pattern new [] = [] := rfl

theorem replaceAll_cons_of_not_isPrefixOf {pattern new : List Char} {c : Char} {cs : List Char}
    (h : pattern.isPrefixOf (c :: cs) = false) :
    replaceAll pattern new (c :: cs) = c :: replaceAll pattern new cs := by
  simp [replaceAll, replaceFrom, h]

/-- A text in which the pattern starts nowhere stays as it is. -/
theorem replaceAll_of_forall_not_isPrefixOf {pattern new : List Char} :
    ∀ {text : List Char}, (∀ s, s <:+ text → pattern.isPrefixOf s = false) →
      replaceAll pattern new text = text
  | [], _ => rfl
  | c :: cs, h => by
    rw [replaceAll_cons_of_not_isPrefixOf (h _ (List.suffix_refl _)),
      replaceAll_of_forall_not_isPrefixOf fun s hs => h s (hs.trans (List.suffix_cons c cs))]

@[simp] theorem fillFrom_nil (i : Nat) (text : List Char) : fillFrom i text [] = text := rfl

end UpdateExpr
