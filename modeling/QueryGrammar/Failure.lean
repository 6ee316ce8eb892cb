/-
QueryGrammar/Failure.lean

Why something could not be done: every failure of the library by its cause.

Three groups matter to callers.  *Unsupported* failures say that a well-formed query lies outside
the grammar.  Look-up and structure failures say that the query does not fit its schema or is not
a sensible query at all.  The rest comes from the surroundings: settings, files and texts.

`Failure.message` is the text shown for a failure.  A failure that wraps a cause from outside of
the library (`source?`) is shown with that cause once more when it is reported on its own.
-/
import QueryGrammar.FileTree
import QueryGrammar.Query.Basic
import QueryGrammar.ReadError
import QueryGrammar.Symbol

namespace QueryGrammar

/-- What is wrong with a query that makes no sense. -/
inductive Malformation where
  | emptySelectList
  | limitWithoutSortOrder
  | sortOrderWithoutKey
  | conditionCount (conditions connectives : Nat)
  | missingValue (operator : Operator)
  | nestedLiteral
  | noTable
  | recordNotObject
  deriving DecidableEq

/-- The text of a malformation. -/
def Malformation.message : Malformation → String
  | .emptySelectList => "empty select list"
  | .limitWithoutSortOrder => "LIMIT without ORDER BY"
  | .sortOrderWithoutKey => "ORDER BY without a sort key"
  | .conditionCount k m => toString k ++ " WHERE conditions with " ++ toString m ++ " connectives"
  | .missingValue operator => "'" ++ operator.name ++ "' condition without a value"
  | .nestedLiteral => "a nested query is not a literal value"
  | .noTable => "FROM clause without a table"
  | .recordNotObject => "dataset record is not an object"

/-- What is wrong with the settings. -/
inductive SettingsError where
  | selectColumns (limit found : Nat)
  | whereConditions (limit found : Nat)
  | unreadable (path : String) (cause : FileError)
  deriving DecidableEq

/-- The text of an error in the settings. -/
def SettingsError.message : SettingsError → String
  | .selectColumns limit found =>
    "max_select_columns must be between 1 and " ++ toString limit ++ ", got " ++ toString found
  | .whereConditions limit found =>
    "max_where_conditions must be between 1 and " ++ toString limit ++ ", got " ++ toString found
  | .unreadable path cause => "Failed to read " ++ path ++ ": " ++ cause.message

/-- The cause of a failure. -/
inductive Failure where
  | unsupportedOperator (operator : Operator)
  | unsupportedNegation (operator : Operator)
  | unsupportedNesting (operator : Operator)
  | tooManyConditions (count max : Nat)
  | conflictingSetOperations (operations : List SetOperation)
  | choiceOutOfRange (symbol : Symbol) (choice limit : Nat)
  | unknownColumn (id : Nat)
  | unknownTable (id : Nat)
  | unownedColumn (id : Nat)
  | unknownDatabase (name : String)
  | malformed (cause : Malformation)
  | settings (cause : SettingsError)
  | file (cause : FileError)
  | json (cause : ReadError)
  /-- The text of the settings is not a settings file. -/
  | toml
  deriving DecidableEq

namespace Failure

/-- The text of a failure. -/
def message : Failure → String
  | .unsupportedOperator operator => "Unsupported operator: '" ++ operator.name ++ "'"
  | .unsupportedNegation operator => "Unsupported negated operator: 'not " ++ operator.name ++ "'"
  | .unsupportedNesting operator =>
    "Operator '" ++ operator.name ++ "' cannot compare against a nested query"
  | .tooManyConditions count max =>
    "Too many WHERE conditions: " ++ toString count ++ " (at most " ++ toString max ++ " supported)"
  | .conflictingSetOperations operations =>
    "Conflicting set operations: " ++ ", ".intercalate (operations.map SetOperation.name)
  | .choiceOutOfRange symbol choice limit =>
    "Choice " ++ toString choice ++ " out of range for " ++ symbol.label ++ " (expected < " ++
      toString limit ++ ")"
  | .unknownColumn id => "Unknown column id " ++ toString id
  | .unknownTable id => "Unknown table id " ++ toString id
  | .unownedColumn id => "Column id " ++ toString id ++ " has no owning table"
  | .unknownDatabase name => "Unknown database: '" ++ name ++ "'"
  | .malformed cause => "Malformed query: " ++ cause.message
  | .settings cause => "Configuration error: " ++ cause.message
  | .file cause => "IO error: " ++ cause.message
  | .json cause => "JSON error: " ++ cause.message
  | .toml => "TOML error: not a settings file"

/-- Whether the failure says that a query lies outside the grammar. -/
def isUnsupported : Failure → Bool
  | .unsupportedOperator _ | .unsupportedNegation _ | .unsupportedNesting _
  | .tooManyConditions _ _ | .conflictingSetOperations _ | .choiceOutOfRange _ _ _ => true
  | _ => false

/-- The text of the outside cause that a failure wraps. -/
def source? : Failure → Option String
  | .file cause => some cause.message
  | .json cause => some cause.message
  | .toml => some "not a settings file"
  | _ => none

end Failure

end QueryGrammar
