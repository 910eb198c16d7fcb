import UpdateExpr.Bound.Binder
import UpdateExpr.Json.Reader

/-!
# Options in JSON

Options are written as an object with the field `binder`, which holds the fields
`reportAmbiguousClone` and `maxExpressionDepth`. Every field may be left out, other fields are
passed over, and no field may be repeated. Instead of an object, the values may stand in an array,
in that order.

## Main definitions

* `OptionsFault`: why options are refused
* `BindOptions.ofJson`: the options that a text writes
* `BindOptions.ofFile`: the options that the bytes of a file write

## Main results

* `BindOptions.maxDepth_pos_of_ofJson`: options that are read let something be bound
-/

namespace UpdateExpr

/-- Why options are refused. -/
inductive OptionsFault where
  /-- The text is not JSON, or does not write options. -/
  | malformed
  /-- Nothing could be bound down to depth zero. -/
  | zeroDepth
  /-- The file is not there, or is not UTF-8. -/
  | unreadable (file : String)
  /-- The text of the file is refused. -/
  | invalidFile (file : String) (cause : OptionsFault)
  deriving DecidableEq, Repr, Inhabited

/-- The message of a fault, the cause behind. -/
def OptionsFault.message : OptionsFault → String
  | malformed => "failed to parse compilation options JSON"
  | zeroDepth => "binder.maxExpressionDepth must be at least 1"
  | unreadable file => "failed to read compilation options: " ++ file
  | invalidFile file cause => "invalid compilation options: " ++ file ++ ": " ++ cause.message

namespace JsonValue

/-- The values of the fields of a record, each of which may be left out: those of an object by name,
or those of an array in order. -/
def record? (names : List String) : JsonValue → Option (List (Option JsonValue))
  | .array items =>
    if items.length ≤ names.length then
      some (items.map some ++ List.replicate (names.length - items.length) none)
    else none
  | .object fields =>
    if fields.all (·.1.isSome) then
      names.mapM fun name =>
        match fields.filter (·.1 == some name) with
        | [] => some none
        | [field] => some (some field.2)
        | _ => none
    else none
  | _ => none

/-- What a value stands for, or what stands for it where the value is left out. -/
def readOr {α : Type} (fallback : α) (read : JsonValue → Option α) : Option JsonValue → Option α
  | none => some fallback
  | some v => read v

/-- A truth value. -/
def bool? : JsonValue → Option Bool
  | .bool b => some b
  | _ => none

/-- A natural number of at most 32 bits. -/
def word? : JsonValue → Option Nat
  | .natural n => if n < Nat.pow 2 32 then some n else none
  | _ => none

end JsonValue

namespace BindOptions

/-- The settings of a binder that a value writes. -/
def ofBinder? (v : JsonValue) : Option BindOptions :=
  match v.record? ["reportAmbiguousClone", "maxExpressionDepth"] with
  | some [ambiguous, depth] => do
    let reportAmbiguousClone ← JsonValue.readOr false JsonValue.bool? ambiguous
    let maxDepth ← JsonValue.readOr maxBindDepth JsonValue.word? depth
    return { reportAmbiguousClone, maxDepth }
  | _ => none

/-- The options that a value writes. -/
def ofValue? (v : JsonValue) : Option BindOptions :=
  match v.record? ["binder"] with
  | some [binder] => JsonValue.readOr {} ofBinder? binder
  | _ => none

/-- The options that a text writes. -/
def ofJson (text : String) : Except OptionsFault BindOptions :=
  match (JsonValue.ofText? text.toList).bind ofValue? with
  | none => .error .malformed
  | some options => if options.maxDepth = 0 then .error .zeroDepth else .ok options

/-- The options that the bytes of a file write, if the file is there. -/
def ofFile (file : String) (bytes? : Option ByteArray) : Except OptionsFault BindOptions :=
  match bytes?.bind String.fromUTF8? with
  | none => .error (.unreadable file)
  | some text => (ofJson text).mapError (.invalidFile file)

/-- **Options that are read let something be bound.** -/
theorem maxDepth_pos_of_ofJson {text : String} {options : BindOptions}
    (h : ofJson text = .ok options) : 0 < options.maxDepth := by
  unfold ofJson at h
  split at h
  · simp at h
  · split at h
    · simp at h
    · next hd =>
      cases h
      exact Nat.pos_of_ne_zero hd

end BindOptions

end UpdateExpr
