/-
QueryGrammar/ReadError.lean

Why a JSON text or value could not be read as the thing that was wanted.

The first group of causes belongs to the data format (wrong text, wrong kind of value, wrong
count, wrong fields); the second to the layout of decomposed queries.  A source in a FROM clause
is read in two steps, so its errors carry the cause of the inner step.
-/

namespace QueryGrammar

/-- The cause of a failed reading. -/
inductive ReadError where
  /-- The text is not JSON, or stops being JSON where the value was looked for. -/
  | malformed
  /-- The value is of another kind. -/
  | wrongKind
  /-- The integer lies outside the wanted range. -/
  | outOfRange
  /-- The array has too few or too many elements. -/
  | wrongLength
  | missingField (name : String)
  | duplicateField (name : String)
  /-- No alternative of the named choice fits. -/
  | noAlternative (choice : String)
  /-- The name is none of the two that may stand here. -/
  | unknownName (name first second : String)
  | unknownAggregate (code : Nat)
  | unknownOperator (code : Nat)
  | expectedConnective (position : Nat)
  | expectedCondition (position : Nat)
  | unpairedConnectives (conditions connectives : Nat)
  | connectiveWithoutConditions
  | malformedSortOrder
  | unknownSource (kind : String)
  | invalidTable (cause : ReadError)
  | invalidSubquery (cause : ReadError)
  deriving DecidableEq

/-- The message of a cause. -/
def ReadError.message : ReadError → String
  | .malformed => "syntax"
  | .wrongKind => "invalid type"
  | .outOfRange => "invalid value"
  | .wrongLength => "invalid length"
  | .missingField name => "missing field `" ++ name ++ "`"
  | .duplicateField name => "duplicate field `" ++ name ++ "`"
  | .noAlternative choice => "data did not match any variant of untagged enum " ++ choice
  | .unknownName name first second =>
    "unknown variant `" ++ name ++ "`, expected `" ++ first ++ "` or `" ++ second ++ "`"
  | .unknownAggregate code => "unknown aggregator code " ++ toString code
  | .unknownOperator code => "unknown operator code " ++ toString code
  | .expectedConnective i => "expected 'and'/'or' at position " ++ toString i
  | .expectedCondition i => "expected a condition at position " ++ toString i
  | .unpairedConnectives k m =>
    toString k ++ " conditions need " ++ toString (k - 1) ++ " connectives, found " ++ toString m
  | .connectiveWithoutConditions => "connective without conditions"
  | .malformedSortOrder => "malformed orderBy clause"
  | .unknownSource kind => "unknown table unit kind '" ++ kind ++ "'"
  | .invalidTable cause => "invalid table unit: " ++ cause.message
  | .invalidSubquery cause => "invalid sub-query table unit: " ++ cause.message

end QueryGrammar
