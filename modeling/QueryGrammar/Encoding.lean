/-
QueryGrammar/Encoding.lean

Encoding a query: from the query to its derivation, and from there to tokens and literals.

The derivation of a query is built clause by clause in the order of its tokens, and the first
failure on that way is the failure of the encoding.  Literals stand at the leaves of the
derivation; giving them places in a pool is a second pass that cannot fail.

Conditions are derived one by one, each to a `Logged` filter, before any of them is joined with
others: `joinConditions` then says in which order they take effect.  A mixed chain of three
groups its pair joined by `and`, which binds tighter, and writes that pair first.

What the encoding leaves out: sort keys and HAVING conditions after the first, the value of a
limit, the arithmetic of terms, and set operations of inner queries.
-/
import QueryGrammar.Derivation
import QueryGrammar.Wildcard

namespace QueryGrammar

namespace Context

/-! ### Columns -/

/-- The leaf of a column under an aggregate; `wildcard` is the table of the wildcard column. -/
def deriveColumn (context : Context) (wildcard : Logged Nat) (aggregate : Aggregate)
    (use : ColumnUse) : Logged Column := do
  let identity ← context.schema.columnIdentity use.column
  let table ← if use.isWildcard then wildcard else context.schema.owningTable use.column
  pure { aggregate, identity, table }

/-- The select list; a mark on one of its columns makes the whole list distinct. -/
def deriveSelect (context : Context) (wildcard : Logged Nat) (list : SelectList) :
    Logged SelectNode := do
  if list.items.isEmpty then Logged.fail (.malformed .emptySelectList)
  let _ ← (Token.mk .n (list.items.length - 1)).checked
  let columns ← list.items.mapM fun item =>
    context.deriveColumn wildcard item.aggregate item.term.left
  pure { distinct := list.distinct || list.items.any (·.term.left.distinct), columns }

/-- The first sort key with its direction. -/
def deriveSort (context : Context) (wildcard : Logged Nat) (order : Option SortOrder) :
    Logged SortNode :=
  match order with
  | none => Logged.fail (.malformed .limitWithoutSortOrder)
  | some { keys := [], .. } => Logged.fail (.malformed .sortOrderWithoutKey)
  | some { direction, keys := key :: _ } => do
    pure { direction, column := ← context.deriveColumn wildcard key.left.aggregate key.left }

/-! ### Conditions -/

/-- The literal of an operand that an operator needs. -/
def deriveLiteral (operator : Operator) (operand : Option Operand) : Except Failure Literal :=
  match operand with
  | some operand => Literal.ofOperand operand
  | none => .error (.malformed (.missingValue operator))

/-- A condition whose right-hand side is no query. -/
def deriveDirect (context : Context) (wildcard : Logged Nat) (condition : Condition) :
    Logged (Filter Literal) := do
  let test ← DirectTest.ofOperator condition.negated condition.operator
  let left := condition.left.left
  let column ← context.deriveColumn wildcard left.aggregate left
  match test with
  | .value test => pure (.value test column (← deriveLiteral condition.operator condition.value))
  | .between =>
    let low ← deriveLiteral condition.operator condition.value
    let high ← deriveLiteral condition.operator condition.upper
    pure (.between column low high)
  | .member negated => pure (.member negated column)

/-- A condition whose right-hand side is a query with the given derivation. -/
def deriveNested (context : Context) (wildcard : Logged Nat) (condition : Condition)
    (root : Logged (Root Literal)) : Logged (Filter Literal) := do
  let test ← NestedTest.ofOperator condition.negated condition.operator
  let left := condition.left.left
  let column ← context.deriveColumn wildcard left.aggregate left
  match test with
  | .query test => return .query test column (← root)
  | .member negated => return .memberOf negated column (← root)
  | .pattern _ => Logged.fail (.unsupportedNesting condition.operator)

/-- Join the conditions of a chain of at most three. -/
def joinConditions : Chain (Logged (Filter Literal)) → Logged (Filter Literal)
  | .last p => p
  | .link p .and (.last q) => return .both (← p) (← q)
  | .link p .or (.last q) => return .either (← p) (← q)
  | .link p .and (.link q .and (.last r)) => return .both (← p) (.both (← q) (← r))
  | .link p .and (.link q .or (.last r)) => return .either (.both (← p) (← q)) (← r)
  | .link p .or (.link q .and (.last r)) => return .either (.both (← q) (← r)) (← p)
  | .link p .or (.link q .or (.last r)) => return .either (.either (← p) (← q)) (← r)
  | chain => Logged.fail (.malformed (.conditionCount chain.length chain.connectives.length))

/-- The WHERE conditions, within the accepted number. -/
def deriveRestriction (context : Context) (chain : Chain (Logged (Filter Literal))) :
    Logged (Filter Literal) := do
  if context.maxConditions < chain.length then
    Logged.fail (.tooManyConditions chain.length context.maxConditions)
  joinConditions chain

/-- The first HAVING condition; a notice tells of others. -/
def deriveHaving (context : Context) (chain : Chain (Logged (Filter Literal))) :
    Logged (Filter Literal) := do
  if 1 < chain.length then Logged.notice (.extraHaving chain.length context.question)
  chain.head

/-- The WHERE and HAVING conditions, of which there is at least one. -/
def deriveFilter (context : Context)
    (restriction having : Option (Chain (Logged (Filter Literal)))) : Logged (Filter Literal) :=
  match restriction, having with
  | some chain, none => context.deriveRestriction chain
  | none, some chain => context.deriveHaving chain
  | some first, some second =>
    return .both (← context.deriveRestriction first) (← context.deriveHaving second)
  | none, none => Logged.fail (.malformed (.conditionCount 0 0))

end Context

/-! ### Queries -/

/-- The clauses of a query, its conditions being derived already. -/
def Query.deriveClauses (context : Context) (q : Query)
    (restriction having : Option (Chain (Logged (Filter Literal)))) : Logged (Root Literal) := do
  let wildcard := context.wildcardTable q
  let select ← context.deriveSelect wildcard q.selectList
  let sort := context.deriveSort wildcard q.sortOrder
  let filter := context.deriveFilter restriction having
  match q.shape with
  | .superlativeFilter => return .superlativeFilter select (← sort) (← filter)
  | .filterOrder => return .filterOrder select (← filter) (← sort)
  | .superlative => return .superlative select (← sort)
  | .filter => return .filter select (← filter)
  | .order => return .order select (← sort)
  | .plain => return .plain select

mutual

/-- The derivation of a query without its set operations. -/
def Query.derive (context : Context) (q : Query) : Logged (Root Literal) :=
  match q with
  | { restriction, having, .. } =>
    let wildcard := context.wildcardTable q
    q.deriveClauses context (deriveConditions context wildcard restriction)
      (deriveConditions context wildcard having)

/-- The derivations of the conditions of a body. -/
def deriveConditions (context : Context) (wildcard : Logged Nat) :
    Option (Chain Condition) → Option (Chain (Logged (Filter Literal)))
  | none => none
  | some chain => some (deriveChain context wildcard chain)

/-- The derivations of the conditions of a chain. -/
def deriveChain (context : Context) (wildcard : Logged Nat) :
    Chain Condition → Chain (Logged (Filter Literal))
  | .last condition => .last (Condition.derive context wildcard condition)
  | .link condition connective rest =>
    .link (Condition.derive context wildcard condition) connective
      (deriveChain context wildcard rest)

/-- The derivation of a condition; `wildcard` is the table of the wildcard column in the query
that the condition belongs to. -/
def Condition.derive (context : Context) (wildcard : Logged Nat) (condition : Condition) :
    Logged (Filter Literal) :=
  match condition with
  | { value := some (.query q), .. } =>
    context.deriveNested wildcard condition (Query.derive context q)
  | _ => context.deriveDirect wildcard condition

end

/-- The derivation of a query with at most one set operation. -/
def Query.derivation (context : Context) (q : Query) : Logged (Derivation Literal) :=
  match q.setOperations with
  | [] => return .single (← q.derive context)
  | [(operation, branch)] =>
    return .combined operation (← q.derive context) (← branch.derive context)
  | many => Logged.fail (.conflictingSetOperations (many.map Prod.fst))

/-! ### Encodings -/

/-- The encoding of a query: the tokens of its derivation and the literals they refer to. -/
structure Encoding where
  tokens : List Token
  values : List Literal
  deriving DecidableEq

namespace Encoding

/-- The encoding of a derivation. -/
def ofDerivation (derivation : Derivation Literal) : Encoding :=
  let (numbered, pool) := derivation.number {}
  { tokens := numbered.tokens, values := pool.toList }

/-- The text of the tokens. -/
def label (encoding : Encoding) : String := Token.render encoding.tokens

/-- The JSON value of the literals. -/
def valuesToJson (encoding : Encoding) : Json := .array (encoding.values.map Literal.toJson)

end Encoding

/-- Encode a query. -/
def Query.encode (context : Context) (q : Query) : Logged Encoding :=
  return .ofDerivation (← q.derivation context)

end QueryGrammar
