/-!
# Issues

An issue is one cause of a complaint about an expression. Each has a number of its own, by which
it is known outside, and a message with numbered places for arguments.

## Main definitions

* `Issue`: the causes, from malformed text to a type that could not be loaded
* `Issue.code`, `Issue.ofCode?`: the number of an issue, and back
* `Issue.template`: its message, with places for arguments
* `Severity`: how much a complaint matters

## Main results

* `Issue.ofCode?_code`: the number tells the issue
-/

namespace UpdateExpr

/-- How much a diagnostic matters. -/
inductive Severity where
  | warning
  | error
  | suggestion
  | message
  deriving DecidableEq, Repr, Inhabited

/-- The causes of complaints. -/
inductive Issue where
  /-- An expression should start here. -/
  | expressionExpected
  /-- A fixed token should stand here. -/
  | tokenExpected
  /-- A name should stand here. -/
  | identifierExpected
  /-- A string literal runs into the end of its line or of the text. -/
  | unterminatedString
  /-- A character starts no token. -/
  | invalidCharacter
  /-- An integer literal is larger than every integer type. -/
  | numberOutOfRange
  /-- Tokens follow a complete expression. -/
  | trailingToken
  /-- No local variable has this name. -/
  | unknownName
  /-- The type has no such member. -/
  | memberNotFound
  /-- The member may not be used from here. -/
  | memberInaccessible
  /-- A static member is reached through a value. -/
  | staticMember
  /-- A field or property is called. -/
  | memberNotInvocable
  /-- Every method of the group wants arguments. -/
  | noParameterlessOverload
  /-- A method group is used as a value. -/
  | methodGroupAsValue
  /-- No conversion leads from the type of the value to that of the target. -/
  | noConversion
  /-- Only a cast leads from the type of the value to that of the target. -/
  | explicitConversionOnly
  /-- The property has no setter. -/
  | propertyReadOnly
  /-- The field is readonly. -/
  | fieldReadOnly
  /-- A method group is assigned to. -/
  | methodGroupAssigned
  /-- The property may be set in initializers only. -/
  | initOnlyProperty
  /-- The expression is nested beyond the limit. -/
  | nestedTooDeeply
  /-- The receiver of an update has no type, or is void. -/
  | invalidUpdateReceiver
  /-- The receiver type cannot be cloned. -/
  | noCloneMethod
  /-- The clone is not of a type that the receiver derives from. -/
  | cloneReturnType
  /-- More than one clone method is left. -/
  | ambiguousClone
  /-- The base of a definition could not be loaded. -/
  | baseTypeUnresolved
  deriving DecidableEq, Repr, Inhabited

namespace Issue

/-- Every issue, in the order of the numbers. -/
def all : List Issue :=
  [expressionExpected, tokenExpected, identifierExpected, unterminatedString, invalidCharacter,
    numberOutOfRange, trailingToken, unknownName, memberNotFound, memberInaccessible, staticMember,
    memberNotInvocable, noParameterlessOverload, methodGroupAsValue, noConversion,
    explicitConversionOnly, propertyReadOnly, fieldReadOnly, methodGroupAssigned, initOnlyProperty,
    nestedTooDeeply, invalidUpdateReceiver, noCloneMethod, cloneReturnType, ambiguousClone,
    baseTypeUnresolved]

/-- The number of an issue: `1000` and up for the text, `2000` and up for names, members and
conversions, `2100` and up for updates, `2900` and up for definitions. -/
def code : Issue → Nat
  | expressionExpected => 1000
  | tokenExpected => 1001
  | identifierExpected => 1002
  | unterminatedString => 1003
  | invalidCharacter => 1004
  | numberOutOfRange => 1005
  | trailingToken => 1006
  | unknownName => 2000
  | memberNotFound => 2001
  | memberInaccessible => 2002
  | staticMember => 2003
  | memberNotInvocable => 2004
  | noParameterlessOverload => 2005
  | methodGroupAsValue => 2006
  | noConversion => 2007
  | explicitConversionOnly => 2008
  | propertyReadOnly => 2009
  | fieldReadOnly => 2010
  | methodGroupAssigned => 2011
  | initOnlyProperty => 2012
  | nestedTooDeeply => 2013
  | invalidUpdateReceiver => 2100
  | noCloneMethod => 2101
  | cloneReturnType => 2102
  | ambiguousClone => 2103
  | baseTypeUnresolved => 2900

/-- The issue with a number. -/
def ofCode? (n : Nat) : Option Issue :=
  all.find? (·.code == n)

/-- The message of an issue; the text of argument `i` belongs in the place `{i}`. -/
def template : Issue → String
  | expressionExpected => "Expression expected."
  | tokenExpected => "'{0}' expected."
  | identifierExpected => "Identifier expected."
  | unterminatedString => "Unterminated string literal."
  | invalidCharacter => "Invalid character."
  | numberOutOfRange => "Numeric literal '{0}' is out of range."
  | trailingToken => "Unexpected token '{0}' after expression."
  | unknownName => "The name '{0}' does not exist in the current context."
  | memberNotFound => "'{0}' does not contain a definition for '{1}'."
  | memberInaccessible => "'{0}' is inaccessible due to its protection level."
  | staticMember => "Member '{0}' cannot be accessed with an instance reference."
  | memberNotInvocable => "Non-invocable member '{0}' cannot be used like a method."
  | noParameterlessOverload => "No overload for method '{0}' takes 0 arguments."
  | methodGroupAsValue => "Method '{0}' cannot be used as a value; did you intend to invoke it?"
  | noConversion => "Cannot implicitly convert type '{0}' to '{1}'."
  | explicitConversionOnly =>
    "Cannot implicitly convert type '{0}' to '{1}'. An explicit conversion exists (are you missing a cast?)"
  | propertyReadOnly => "Property '{0}' cannot be assigned to -- it is read only."
  | fieldReadOnly =>
    "A readonly field '{0}' cannot be assigned to (except in a constructor or a variable initializer)."
  | methodGroupAssigned => "Cannot assign to '{0}' because it is a 'method group'."
  | initOnlyProperty =>
    "Init-only property '{0}' can only be assigned in an object initializer or a 'with' expression."
  | nestedTooDeeply => "Expression is too deeply nested to bind."
  | invalidUpdateReceiver => "The receiver of a 'with' expression must have a non-void type."
  | noCloneMethod =>
    "The receiver type '{0}' does not have an accessible parameterless instance method named 'Clone'."
  | cloneReturnType =>
    "The receiver type '{0}' must be the same as or derive from the 'Clone' return type '{1}'."
  | ambiguousClone => "The 'Clone' method of '{0}' is ambiguous between '{1}' and '{2}'."
  | baseTypeUnresolved => "The base type '{0}' of '{1}' could not be resolved."

/-- Every issue makes the expression unusable. -/
def severity : Issue → Severity :=
  fun _ => .error

/-- **The number tells the issue.** -/
@[simp] theorem ofCode?_code (i : Issue) : ofCode? i.code = some i := by
  cases i <;> rfl

theorem code_eq_iff {i j : Issue} : i.code = j.code ↔ i = j := by
  refine ⟨fun h => Option.some.inj ?_, congrArg code⟩
  rw [← ofCode?_code i, h, ofCode?_code]

end Issue

end UpdateExpr
