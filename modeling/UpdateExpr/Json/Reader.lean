import UpdateExpr.Json.Token

/-!
# Reading JSON

Tokens are read one by one. The arrays and objects that are not closed yet wait, the innermost
first, for the value under way, so that values may be nested to any depth.

## Main definitions

* `JsonFrame`: an array or object that is not closed yet
* `JsonReading`: what reading has come to, and what may come next
* `JsonReading.step`: one more token
* `JsonValue.ofText?`: the value that a text writes
-/

namespace UpdateExpr

/-- An array or object that is not closed yet. -/
inductive JsonFrame where
  /-- The items before the next one. -/
  | items (done : List JsonValue)
  /-- The fields before the next one, and its key. -/
  | fields (done : List (Option String × JsonValue)) (key : Option String)
  deriving Repr, Inhabited

/-- What reading has come to. -/
inductive JsonReading where
  /-- A value comes next; right after a bracket the array may be closed instead. -/
  | value (waiting : List JsonFrame) (mayClose : Bool)
  /-- A key comes next; right after a brace the object may be closed instead. -/
  | key (done : List (Option String × JsonValue)) (waiting : List JsonFrame) (mayClose : Bool)
  /-- A colon comes next. -/
  | colon (done : List (Option String × JsonValue)) (key : Option String)
    (waiting : List JsonFrame)
  /-- A value is complete. -/
  | complete (value : JsonValue) (waiting : List JsonFrame)
  deriving Repr, Inhabited

namespace JsonReading

/-- Reading after one more token, if it may stand there. -/
def step : JsonReading → JsonToken → Option JsonReading
  | value waiting _, .scalar v => some (complete v waiting)
  | value waiting _, .openBracket => some (value (.items [] :: waiting) true)
  | value waiting _, .openBrace => some (key [] waiting true)
  | value (.items [] :: waiting) true, .closeBracket => some (complete (.array []) waiting)
  | key done waiting _, .scalar (.text k) => some (colon done k waiting)
  | key [] waiting true, .closeBrace => some (complete (.object []) waiting)
  | colon done k waiting, .colon => some (value (.fields done k :: waiting) false)
  | complete v (.items done :: waiting), .comma =>
    some (value (.items (done ++ [v]) :: waiting) false)
  | complete v (.items done :: waiting), .closeBracket =>
    some (complete (.array (done ++ [v])) waiting)
  | complete v (.fields done k :: waiting), .comma => some (key (done ++ [(k, v)]) waiting false)
  | complete v (.fields done k :: waiting), .closeBrace =>
    some (complete (.object (done ++ [(k, v)])) waiting)
  | _, _ => none

/-- The value that was read, if it is complete. -/
def result? : JsonReading → Option JsonValue
  | complete v [] => some v
  | _ => none

end JsonReading

/-- The value that a text writes. -/
def JsonValue.ofText? (text : List Char) : Option JsonValue := do
  let tokens ← JsonToken.listOf? text
  let reading ← tokens.foldlM JsonReading.step (.value [] false)
  reading.result?

end UpdateExpr
