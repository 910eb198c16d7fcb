/-!
# Numbered names

A table of names numbers texts in the order in which they are first met. Number `0` is the empty
text, which stands for a name that is not there.

## Main definitions

* `NameTable.intern t text`: the number of a text, which enters the table if it is new
* `NameTable.find? t text`: the number of a text that is in the table
* `NameTable.resolve t n`: the text with number `n`

## Main results

* `NameTable.resolve_intern`: a number handed out leads back to its text
-/

namespace UpdateExpr

/-- Distinct texts, each at its number. -/
structure NameTable where
  texts : Array String := #[""]
  deriving DecidableEq, Repr, Inhabited

namespace NameTable

/-- The table that holds the empty text only. -/
def empty : NameTable :=
  ⟨#[""]⟩

/-- The number of texts, the empty one included. -/
def size (t : NameTable) : Nat :=
  t.texts.size

/-- Whether the table holds the empty text only. -/
def isEmpty (t : NameTable) : Bool :=
  t.size ≤ 1

/-- The number of a text that was met before. -/
def find? (t : NameTable) (text : String) : Option Nat :=
  t.texts.findIdx? (· == text)

/-- The number of a text; a new text gets the next number. -/
def intern (t : NameTable) (text : String) : Nat × NameTable :=
  match t.find? text with
  | some n => (n, t)
  | none => (t.size, ⟨t.texts.push text⟩)

/-- The table after meeting a text. -/
def insert (t : NameTable) (text : String) : NameTable :=
  (t.intern text).2

/-- The text with a number; a number that was never handed out stands for the empty text. -/
def resolve (t : NameTable) (n : Nat) : String :=
  t.texts[n]?.getD ""

/-- The names in order, without the empty text. -/
def names (t : NameTable) : List String :=
  t.texts.toList.filter (· ≠ "")

theorem resolve_of_find? {t : NameTable} {text : String} {n : Nat} (h : t.find? text = some n) :
    t.resolve n = text := by
  obtain ⟨hn, hp, -⟩ := Array.findIdx?_eq_some_iff_getElem.1 h
  simpa [resolve, Array.getElem?_eq_getElem hn] using hp

/-- **A number leads back to its text.** -/
theorem resolve_intern (t : NameTable) (text : String) :
    (t.intern text).2.resolve (t.intern text).1 = text := by
  unfold intern
  split
  · next h => exact resolve_of_find? h
  · simp [resolve, size]

end NameTable

end UpdateExpr
