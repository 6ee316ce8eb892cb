/-
QueryGrammar/Symbol.lean

The symbols of the grammar.

Most symbols have a fixed number of productions.  A column, a table and a value are chosen by an
index into the schema or into the list of literals, so their symbols have no bound of their own.
-/

namespace QueryGrammar

/-- A symbol of the grammar. -/
inductive Symbol where
  | root1
  | root
  | sel
  | n
  | a
  | c
  | t
  | sup
  | filter
  | order
  | v
  deriving DecidableEq

namespace Symbol

/-- The symbols in the order of the grammar. -/
def all : List Symbol := [.root1, .root, .sel, .n, .a, .c, .t, .sup, .filter, .order, .v]

/-- The written name of a symbol. -/
def label : Symbol → String
  | .root1 => "Root1"
  | .root => "Root"
  | .sel => "Sel"
  | .n => "N"
  | .a => "A"
  | .c => "C"
  | .t => "T"
  | .sup => "Sup"
  | .filter => "Filter"
  | .order => "Order"
  | .v => "V"

/-- The number of productions of a symbol, if it is fixed. -/
def productions? : Symbol → Option Nat
  | .root1 => some 4
  | .root => some 6
  | .sel => some 2
  | .n => some 5
  | .a => some 6
  | .sup => some 2
  | .filter => some 20
  | .order => some 2
  | .c | .t | .v => none

/-- What the choice of a symbol says. -/
def description : Symbol → String
  | .root1 => "set operation: intersect | union | except | none"
  | .root => "clause shape of one query"
  | .sel => "select list: plain | distinct"
  | .n => "number of selected columns minus one"
  | .a => "aggregator: none | max | min | count | sum | avg"
  | .c => "column-identity index"
  | .t => "table index"
  | .sup => "superlative: most | least"
  | .filter => "filter combinator or comparison"
  | .order => "order: desc | asc"
  | .v => "value-store index"

end Symbol

end QueryGrammar
