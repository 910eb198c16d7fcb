/-!
# Log settings

Whether anything is logged, and in which format, is set from outside.

## Main definitions

* `LogFormat.ofSetting`: the format that a setting asks for
* `LogSettings.install`: whether a log is installed, and stays
-/

namespace UpdateExpr

/-- How log entries are written. -/
inductive LogFormat where
  | text
  | tree
  | json
  deriving DecidableEq, Repr, Inhabited

/-- The format that a setting asks for, in capital or small letters. Anything else means plain
text. No letter outside of ASCII is a capital of a letter in `tree` or `json`. -/
def LogFormat.ofSetting (setting? : Option String) : LogFormat :=
  match setting?.map fun s => s.map Char.toLower with
  | some "tree" => tree
  | some "json" => json
  | _ => text

/-- The filters for log entries: one of its own, and a general one. -/
structure LogSettings where
  own? : Option String := none
  general? : Option String := none
  deriving DecidableEq, Repr, Inhabited

namespace LogSettings

/-- Whether a log is asked for. -/
def isRequested (s : LogSettings) : Bool :=
  s.own?.isSome || s.general?.isSome

/-- Whether a log is installed now, and whether there is one then. A log that was installed
stays. -/
def install (s : LogSettings) (installed : Bool) : Bool × Bool :=
  (s.isRequested && !installed, s.isRequested || installed)

end LogSettings

end UpdateExpr
