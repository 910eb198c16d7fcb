import UpdateExpr.Text.Bytes

/-!
# Spans

A span is a half-open range of byte positions in one text. Nothing forces its end to lie after
its start, nor either of them to lie in the text: such spans are empty, or cover no text.

## Main definitions

* `Span.length`, `Span.cover`: the length of a span, and the least span over two
* `Span.slice`: the text that a span covers

## Main results

* `Span.slice_append`: the span of the middle part of a text covers it
-/

namespace UpdateExpr

/-- The byte positions from `start` up to, and without, `stop`. -/
structure Span where
  start : Nat := 0
  stop : Nat := 0
  deriving DecidableEq, Repr, Inhabited

namespace Span

/-- The empty span at a position. -/
def point (position : Nat) : Span :=
  ⟨position, position⟩

/-- The bytes between the ends; none when they are reversed. -/
def length (s : Span) : Nat :=
  s.stop - s.start

/-- A span that holds no byte. -/
def isEmpty (s : Span) : Bool :=
  s.length == 0

/-- The least span that holds both. -/
def cover (s t : Span) : Span :=
  ⟨min s.start t.start, max s.stop t.stop⟩

/-- The text that a span covers. A span that is reversed, leaves the text, or cuts a character
covers none. -/
def slice (s : Span) (text : List Char) : List Char :=
  if s.start ≤ s.stop then
    ((dropBytes? s.start text).bind (takeBytes? s.length)).getD []
  else []

@[simp] theorem length_point (position : Nat) : (point position).length = 0 := by
  simp [point, length]

/-- **The span of a part covers it.** -/
theorem slice_append (as bs cs : List Char) :
    slice ⟨byteLength as, byteLength as + byteLength bs⟩ (as ++ bs ++ cs) = bs := by
  rw [slice, if_pos (by simp), List.append_assoc, dropBytes?_append, Option.bind_some, length,
    Nat.add_sub_cancel_left, takeBytes?_append, Option.getD_some]

end Span

end UpdateExpr
