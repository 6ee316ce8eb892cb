/-
QueryGrammar/Derivation.lean

Derivations of the grammar.

    Derivation → Root1(3) Root | Root1(operation) Root Root
    Root       → Root(shape) Select …               the clauses of the shape
    Select     → Sel(distinct) N(columns - 1) Column …
    Column     → A(aggregate) C(identity) T(table)
    Sort       → Sup(direction) Column | Order(direction) Column
    Filter     → Filter(0) Filter Filter | Filter(1) Filter Filter       and, or
               | Filter(test) Column V(value)
               | Filter(8) Column V(low) V(high)
               | Filter(test) Column Root
               | Filter(18 or 19) Column | Filter(18 or 19) Column Root   in, not in

The type `α` is that of the values at the leaves: literals when a query is derived, their places
in a pool once they are numbered.  `tokens` writes a numbered derivation down in preorder.
-/
import QueryGrammar.Literal
import QueryGrammar.Token

namespace QueryGrammar

/-! ### Shapes -/

/-- A clause of a query. -/
inductive Clause where
  | select
  | superlative
  | filter
  | order
  deriving DecidableEq

/-- Which clauses follow the select list. -/
inductive Shape where
  | superlativeFilter
  | filterOrder
  | superlative
  | filter
  | order
  | plain
  deriving DecidableEq

namespace Shape

/-- The shape of a query with or without a limit, an order and conditions; a limit outweighs an
order. -/
def ofFlags (superlative order filter : Bool) : Shape :=
  match superlative, order, filter with
  | true, _, true => .superlativeFilter
  | true, _, false => .superlative
  | false, true, true => .filterOrder
  | false, true, false => .order
  | false, false, true => .filter
  | false, false, false => .plain

/-- The production of a shape. -/
def choice : Shape → Nat
  | .superlativeFilter => 0
  | .filterOrder => 1
  | .superlative => 2
  | .filter => 3
  | .order => 4
  | .plain => 5

/-- The clauses of a shape in the order of their tokens. -/
def clauses : Shape → List Clause
  | .superlativeFilter => [.select, .superlative, .filter]
  | .filterOrder => [.select, .filter, .order]
  | .superlative => [.select, .superlative]
  | .filter => [.select, .filter]
  | .order => [.select, .order]
  | .plain => [.select]

end Shape

/-- The shape of a query. -/
def Query.shape (q : Query) : Shape :=
  let superlative := q.limit.isSome
  Shape.ofFlags superlative (q.sortOrder.isSome && !superlative)
    (q.restriction.isSome || q.having.isSome)

/-! ### Tests -/

/-- A comparison with one value. -/
inductive ValueTest where
  | equal
  | unequal
  | less
  | greater
  | lessEqual
  | greaterEqual
  | like
  | unlike
  deriving DecidableEq

/-- The production of a comparison with a value. -/
def ValueTest.choice : ValueTest → Nat
  | .equal => 2
  | .unequal => 3
  | .less => 4
  | .greater => 5
  | .lessEqual => 6
  | .greaterEqual => 7
  | .like => 9
  | .unlike => 10

/-- A comparison with the result of a query. -/
inductive QueryTest where
  | equal
  | less
  | greater
  | unequal
  | between
  | greaterEqual
  | lessEqual
  deriving DecidableEq

/-- The production of a comparison with a query. -/
def QueryTest.choice : QueryTest → Nat
  | .equal => 11
  | .less => 12
  | .greater => 13
  | .unequal => 14
  | .between => 15
  | .greaterEqual => 16
  | .lessEqual => 17

/-- The production of a membership test. -/
def memberChoice (negated : Bool) : Nat := if negated then 19 else 18

/-- The production of a test for a range of values. -/
def betweenChoice : Nat := 8

/-- A condition whose right-hand side is no query. -/
inductive DirectTest where
  | value (test : ValueTest)
  | between
  | member (negated : Bool)
  deriving DecidableEq

/-- A condition whose right-hand side is a query; a pattern cannot be one. -/
inductive NestedTest where
  | query (test : QueryTest)
  | member (negated : Bool)
  | pattern (negated : Bool)
  deriving DecidableEq

namespace DirectTest

/-- The test of an operator, negated or not. -/
def ofOperator (negated : Bool) (operator : Operator) : Except Failure DirectTest :=
  match negated, operator with
  | true, .like => .ok (.value .unlike)
  | true, .member => .ok (.member true)
  | true, _ => .error (.unsupportedNegation operator)
  | false, .equal => .ok (.value .equal)
  | false, .unequal => .ok (.value .unequal)
  | false, .less => .ok (.value .less)
  | false, .greater => .ok (.value .greater)
  | false, .lessEqual => .ok (.value .lessEqual)
  | false, .greaterEqual => .ok (.value .greaterEqual)
  | false, .between => .ok .between
  | false, .like => .ok (.value .like)
  | false, .member => .ok (.member false)
  | false, .not | false, .is | false, .existence => .error (.unsupportedOperator operator)

/-- The production of a test. -/
def choice : DirectTest → Nat
  | .value test => test.choice
  | .between => betweenChoice
  | .member negated => memberChoice negated

end DirectTest

namespace NestedTest

/-- The test of an operator, negated or not. -/
def ofOperator (negated : Bool) (operator : Operator) : Except Failure NestedTest :=
  match negated, operator with
  | true, .like => .ok (.pattern true)
  | true, .member => .ok (.member true)
  | true, _ => .error (.unsupportedNegation operator)
  | false, .equal => .ok (.query .equal)
  | false, .unequal => .ok (.query .unequal)
  | false, .less => .ok (.query .less)
  | false, .greater => .ok (.query .greater)
  | false, .lessEqual => .ok (.query .lessEqual)
  | false, .greaterEqual => .ok (.query .greaterEqual)
  | false, .between => .ok (.query .between)
  | false, .like => .ok (.pattern false)
  | false, .member => .ok (.member false)
  | false, .not | false, .is | false, .existence => .error (.unsupportedOperator operator)

/-- The production of a test. -/
def choice : NestedTest → Nat
  | .query test => test.choice
  | .member negated => memberChoice negated
  | .pattern negated => (if negated then ValueTest.unlike else .like).choice

end NestedTest

/-- The production for an operator, negated or not, over a value or over a query. -/
def filterChoice (negated : Bool) (operator : Operator) (nested : Bool) : Except Failure Nat :=
  if nested then (NestedTest.ofOperator negated operator).map NestedTest.choice
  else (DirectTest.ofOperator negated operator).map DirectTest.choice

/-! ### Trees -/

/-- A column at a leaf: its aggregate, its identity and its table. -/
structure Column where
  aggregate : Aggregate
  identity : Nat
  table : Nat
  deriving DecidableEq

/-- The select list of a derivation. -/
structure SelectNode where
  distinct : Bool
  columns : List Column
  deriving DecidableEq

/-- A direction and the column to sort by. -/
structure SortNode where
  direction : Direction
  column : Column
  deriving DecidableEq

mutual

/-- The derivation of one query, by its shape. -/
inductive Root (α : Type) where
  | superlativeFilter (select : SelectNode) (sort : SortNode) (filter : Filter α)
  | filterOrder (select : SelectNode) (filter : Filter α) (sort : SortNode)
  | superlative (select : SelectNode) (sort : SortNode)
  | filter (select : SelectNode) (filter : Filter α)
  | order (select : SelectNode) (sort : SortNode)
  | plain (select : SelectNode)

/-- The derivation of conditions. -/
inductive Filter (α : Type) where
  | both (left right : Filter α)
  | either (left right : Filter α)
  | value (test : ValueTest) (column : Column) (value : α)
  | between (column : Column) (low high : α)
  | query (test : QueryTest) (column : Column) (query : Root α)
  | member (negated : Bool) (column : Column)
  | memberOf (negated : Bool) (column : Column) (query : Root α)

end

/-- The derivation of a query with at most one set operation. -/
inductive Derivation (α : Type) where
  | single (root : Root α)
  | combined (operation : SetOperation) (left right : Root α)

/-! ### Numbering the literals -/

mutual

/-- Give every literal its place in a pool, in the order of the tokens. -/
def Root.number : Root Literal → StateM LiteralPool (Root Nat)
  | .superlativeFilter select sort filter =>
    return .superlativeFilter select sort (← Filter.number filter)
  | .filterOrder select filter sort => return .filterOrder select (← Filter.number filter) sort
  | .superlative select sort => return .superlative select sort
  | .filter select filter => return .filter select (← Filter.number filter)
  | .order select sort => return .order select sort
  | .plain select => return .plain select

/-- Give every literal its place in a pool, in the order of the tokens. -/
def Filter.number : Filter Literal → StateM LiteralPool (Filter Nat)
  | .both left right => return .both (← Filter.number left) (← Filter.number right)
  | .either left right => return .either (← Filter.number left) (← Filter.number right)
  | .value test column literal => return .value test column (← fun pool => pool.insert literal)
  | .between column low high =>
    return .between column (← fun pool => pool.insert low) (← fun pool => pool.insert high)
  | .query test column root => return .query test column (← Root.number root)
  | .member negated column => return .member negated column
  | .memberOf negated column root => return .memberOf negated column (← Root.number root)

end

/-- Give every literal its place in a pool, in the order of the tokens. -/
def Derivation.number : Derivation Literal → StateM LiteralPool (Derivation Nat)
  | .single root => return .single (← root.number)
  | .combined operation left right => return .combined operation (← left.number) (← right.number)

/-! ### Tokens -/

/-- The production of a direction. -/
def Direction.choice : Direction → Nat
  | .descending => 0
  | .ascending => 1

/-- The production of a set operation. -/
def SetOperation.choice : SetOperation → Nat
  | .intersect => 0
  | .union => 1
  | .except => 2

/-- The production for the absence of a set operation. -/
def noSetOperationChoice : Nat := 3

/-- The tokens of a column. -/
def Column.tokens (column : Column) : List Token :=
  [⟨.a, column.aggregate.code⟩, ⟨.c, column.identity⟩, ⟨.t, column.table⟩]

/-- The tokens of a select list. -/
def SelectNode.tokens (select : SelectNode) : List Token :=
  ⟨.sel, if select.distinct then 1 else 0⟩ :: ⟨.n, select.columns.length - 1⟩ ::
    select.columns.flatMap Column.tokens

/-- The tokens of a superlative or of an order. -/
def SortNode.tokens (symbol : Symbol) (sort : SortNode) : List Token :=
  ⟨symbol, sort.direction.choice⟩ :: sort.column.tokens

mutual

/-- The tokens of a query, in preorder. -/
def Root.tokens : Root Nat → List Token
  | .superlativeFilter select sort filter =>
    ⟨.root, Shape.superlativeFilter.choice⟩ ::
      (select.tokens ++ sort.tokens .sup ++ Filter.tokens filter)
  | .filterOrder select filter sort =>
    ⟨.root, Shape.filterOrder.choice⟩ ::
      (select.tokens ++ Filter.tokens filter ++ sort.tokens .order)
  | .superlative select sort =>
    ⟨.root, Shape.superlative.choice⟩ :: (select.tokens ++ sort.tokens .sup)
  | .filter select filter => ⟨.root, Shape.filter.choice⟩ :: (select.tokens ++ Filter.tokens filter)
  | .order select sort => ⟨.root, Shape.order.choice⟩ :: (select.tokens ++ sort.tokens .order)
  | .plain select => ⟨.root, Shape.plain.choice⟩ :: select.tokens

/-- The tokens of conditions, in preorder. -/
def Filter.tokens : Filter Nat → List Token
  | .both left right => ⟨.filter, 0⟩ :: (Filter.tokens left ++ Filter.tokens right)
  | .either left right => ⟨.filter, 1⟩ :: (Filter.tokens left ++ Filter.tokens right)
  | .value test column place => ⟨.filter, test.choice⟩ :: (column.tokens ++ [⟨.v, place⟩])
  | .between column low high =>
    ⟨.filter, betweenChoice⟩ :: (column.tokens ++ [⟨.v, low⟩, ⟨.v, high⟩])
  | .query test column root => ⟨.filter, test.choice⟩ :: (column.tokens ++ Root.tokens root)
  | .member negated column => ⟨.filter, memberChoice negated⟩ :: column.tokens
  | .memberOf negated column root =>
    ⟨.filter, memberChoice negated⟩ :: (column.tokens ++ Root.tokens root)

end

/-- The tokens of a derivation, in preorder. -/
def Derivation.tokens : Derivation Nat → List Token
  | .single root => ⟨.root1, noSetOperationChoice⟩ :: root.tokens
  | .combined operation left right => ⟨.root1, operation.choice⟩ :: (left.tokens ++ right.tokens)

end QueryGrammar
