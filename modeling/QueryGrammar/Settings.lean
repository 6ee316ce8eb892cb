/-
QueryGrammar/Settings.lean

The settings of an encoding: how wide a select list and how long a WHERE clause may be, and
whether the first record that fails ends a batch.

The grammar itself has no productions beyond five columns and three conditions, so settings are
accepted within these bounds only.
-/
import QueryGrammar.Failure

namespace QueryGrammar

/-- The settings of an encoding. -/
structure Settings where
  maxSelectColumns : Nat := 5
  maxWhereConditions : Nat := 3
  strict : Bool := false
  deriving DecidableEq

namespace Settings

/-- The most columns that the grammar can select. -/
def columnBound : Nat := 5

/-- The most WHERE conditions that the grammar can join. -/
def conditionBound : Nat := 3

/-- The settings themselves if they are within the bounds of the grammar. -/
def checked (settings : Settings) : Except Failure Settings :=
  if ¬(1 ≤ settings.maxSelectColumns ∧ settings.maxSelectColumns ≤ columnBound) then
    .error (.settings (.selectColumns columnBound settings.maxSelectColumns))
  else if ¬(1 ≤ settings.maxWhereConditions ∧ settings.maxWhereConditions ≤ conditionBound) then
    .error (.settings (.whereConditions conditionBound settings.maxWhereConditions))
  else .ok settings

end Settings

end QueryGrammar
