/-
QueryGrammar/Query/Basic.lean

Decomposed queries.

A query names columns and tables by number; the numbers mean something over a schema only.
Queries occur inside queries in three places: as a source in FROM, as the right-hand side of a
condition, and as a branch of a set operation.
-/
import QueryGrammar.Chain
import QueryGrammar.Number.Binary64

namespace QueryGrammar

/-! ### Columns and terms -/

/-- An aggregate function applied to a column. -/
inductive Aggregate where
  | none
  | max
  | min
  | count
  | sum
  | avg
  deriving DecidableEq

namespace Aggregate

/-- The aggregates in the order of their codes. -/
def all : List Aggregate := [.none, .max, .min, .count, .sum, .avg]

/-- The code of an aggregate. -/
def code : Aggregate → Nat
  | .none => 0
  | .max => 1
  | .min => 2
  | .count => 3
  | .sum => 4
  | .avg => 5

/-- The aggregate with a code. -/
def ofCode (code : Nat) : Except ReadError Aggregate :=
  match all[code]? with
  | some aggregate => .ok aggregate
  | Option.none => .error (.unknownAggregate code)

end Aggregate

/-- The comparison of a condition. -/
inductive Operator where
  | not
  | between
  | equal
  | greater
  | less
  | greaterEqual
  | lessEqual
  | unequal
  | member
  | like
  | is
  | existence
  deriving DecidableEq

namespace Operator

/-- The operators in the order of their codes. -/
def all : List Operator :=
  [.not, .between, .equal, .greater, .less, .greaterEqual, .lessEqual, .unequal, .member, .like,
    .is, .existence]

/-- The operator with a code. -/
def ofCode (code : Nat) : Except ReadError Operator :=
  match all[code]? with
  | some operator => .ok operator
  | none => .error (.unknownOperator code)

/-- The spelling of an operator in a query. -/
def name : Operator → String
  | .not => "not"
  | .between => "between"
  | .equal => "="
  | .greater => ">"
  | .less => "<"
  | .greaterEqual => ">="
  | .lessEqual => "<="
  | .unequal => "!="
  | .member => "in"
  | .like => "like"
  | .is => "is"
  | .existence => "exists"

end Operator

/-- A column, the aggregate applied to it, and whether it is marked as distinct. -/
structure ColumnUse where
  aggregate : Aggregate
  column : Nat
  distinct : Bool
  deriving DecidableEq

/-- The number of the column that stands for all columns. -/
def wildcardColumn : Nat := 0

/-- Whether the column stands for all columns. -/
def ColumnUse.isWildcard (use : ColumnUse) : Bool := use.column == wildcardColumn

/-- A column, or two columns joined by an arithmetic operator. -/
structure Term where
  operator : Nat
  left : ColumnUse
  right : Option ColumnUse
  deriving DecidableEq

/-! ### Clauses -/

/-- An entry of the select list. -/
structure SelectItem where
  aggregate : Aggregate
  term : Term
  deriving DecidableEq

/-- The select list. -/
structure SelectList where
  distinct : Bool
  items : List SelectItem
  deriving DecidableEq

/-- A direction of sorting. -/
inductive Direction where
  | ascending
  | descending
  deriving DecidableEq

/-- The ORDER BY clause. -/
structure SortOrder where
  direction : Direction
  keys : List Term
  deriving DecidableEq

/-- A set operation between two queries. -/
inductive SetOperation where
  | intersect
  | union
  | except
  deriving DecidableEq

/-- The spelling of a set operation in a query. -/
def SetOperation.name : SetOperation → String
  | .intersect => "intersect"
  | .union => "union"
  | .except => "except"

/-! ### Queries -/

mutual

/-- A query; an absent clause is empty. -/
structure Query where
  selectList : SelectList
  sources : List Source
  restriction : Option (Chain Condition) := none
  having : Option (Chain Condition) := none
  groupBy : List ColumnUse := []
  sortOrder : Option SortOrder := none
  limit : Option Binary64 := none
  intersect : Option Query := none
  union : Option Query := none
  except : Option Query := none

/-- An entry of the FROM clause. -/
inductive Source where
  | table (id : Nat)
  | query (query : Query)

/-- A condition; the upper operand is that of `between`. -/
structure Condition where
  negated : Bool
  operator : Operator
  left : Term
  value : Option Operand
  upper : Option Operand

/-- The right-hand side of a condition. -/
inductive Operand where
  | query (query : Query)
  | number (value : Binary64)
  | text (value : String)
  | column (use : ColumnUse)

end

/-- The body of a WHERE or HAVING clause. -/
abbrev Conditions := Option (Chain Condition)

/-- The conditions of a body, in order. -/
def Conditions.items (conditions : Conditions) : List Condition :=
  match conditions with
  | none => []
  | some chain => chain.items

/-- The connectives of a body, in order. -/
def Conditions.connectives (conditions : Conditions) : List Connective :=
  match conditions with
  | none => []
  | some chain => chain.connectives

/-- The query on the right-hand side of a condition, if there is one. -/
def Condition.nested? (condition : Condition) : Option Query :=
  match condition.value with
  | some (.query q) => some q
  | _ => none

namespace Query

/-- The set operations of a query with their branches, in a fixed order. -/
def setOperations (q : Query) : List (SetOperation × Query) :=
  [(SetOperation.intersect, q.intersect), (.union, q.union), (.except, q.except)].filterMap
    fun (operation, branch) => branch.map fun b => (operation, b)

/-- The tables that FROM lists itself, not through a query. -/
def tables (q : Query) : List Nat :=
  q.sources.filterMap fun
    | .table id => some id
    | .query _ => none

/-- The table that the first source is, or begins with. -/
def firstTable? : Query → Option Nat
  | { sources := [], .. } => none
  | { sources := .table id :: _, .. } => some id
  | { sources := .query q :: _, .. } => q.firstTable?

end Query

end QueryGrammar
