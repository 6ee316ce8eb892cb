/-
QueryGrammar/Wildcard.lean

The table that the wildcard column stands for.

The wildcard column belongs to no table, but the grammar wants one.  It is picked by these rules,
the first that applies:

1. A single source is the table, or begins with it.
2. Of the tables in FROM, leave out those that own a selected column other than the wildcard, or
   the left column of a WHERE condition.  If one table is left, it is the one.
3. If no table is left and the query groups, it is the owner of the first grouping column, if that
   has one.
4. Otherwise it is the first table in FROM, and a notice tells that this is a guess.

Whichever rule applied, the schema has to have the table.
-/
import QueryGrammar.Logged
import QueryGrammar.Schema

namespace QueryGrammar

/-- What a query is encoded against: its schema, the texts that notices repeat, and the number of
WHERE conditions that are accepted. -/
structure Context where
  schema : Schema
  question : String := ""
  query : String := ""
  maxConditions : Nat := 3

namespace Query

/-- The columns that tell their tables: the selected ones but the wildcard, then the left columns
of the WHERE conditions. -/
def telltaleColumns (q : Query) : List Nat :=
  let selected := (q.selectList.items.map (·.term.left)).filter fun use => !use.isWildcard
  (selected ++ (Conditions.items q.restriction).map (·.left.left)).map (·.column)

/-- The first table in FROM. -/
def firstTable (q : Query) : Except Failure Nat :=
  match q.firstTable? with
  | some table => .ok table
  | none => .error (.malformed .noTable)

/-- The tables in FROM, each once, but those that own a telltale column. -/
def remainingTables (schema : Schema) (q : Query) : Except Failure (List Nat) := do
  let owners ← q.telltaleColumns.mapM schema.tableOf
  pure (q.tables.filter fun table => !owners.contains (some table)).eraseDups

/-- The owner of the first grouping column, if there is one. -/
def groupingTable? (schema : Schema) (q : Query) : Except Failure (Option Nat) :=
  match q.groupBy with
  | [] => .ok none
  | use :: _ => schema.tableOf use.column

end Query

namespace Context

/-- The first table in FROM as a guess. -/
def guessTable (context : Context) (q : Query) : Logged Nat := do
  Logged.notice (.ambiguousWildcard context.question context.query)
  q.firstTable

/-- The table that the rules pick, whether or not the schema has it. -/
def candidateTable (context : Context) (q : Query) : Logged Nat :=
  match q.sources with
  | [_] => q.firstTable
  | _ => do
    match ← q.remainingTables context.schema with
    | [table] => pure table
    | [] =>
      match ← q.groupingTable? context.schema with
      | some table => pure table
      | none => context.guessTable q
    | _ => context.guessTable q

/-- The table that the wildcard column stands for in a query. -/
def wildcardTable (context : Context) (q : Query) : Logged Nat := do
  let table ← context.candidateTable q
  context.schema.checkTable table

end Context

end QueryGrammar
