/-
QueryGrammar/Chain.lean

Items joined by connectives.

The body of a WHERE or HAVING clause is a sequence of conditions with `and` or `or` between each
two of them.  A `Chain` holds such a sequence with at least one item, so that the alternation is
part of the type; an empty body is the absence of a chain.

`Chain.ofParts` builds a chain from the items and the connectives apart, `Chain.ofMixed` from one
list in which they alternate.  Both say what is wrong with lists that do not alternate.
-/
import QueryGrammar.ReadError

namespace QueryGrammar

/-- A logical connective between two conditions. -/
inductive Connective where
  | and
  | or
  deriving DecidableEq

/-- A non-empty sequence of items with a connective between each two. -/
inductive Chain (α : Type) where
  | last (item : α)
  | link (item : α) (connective : Connective) (rest : Chain α)

namespace Chain

variable {α β : Type}

/-! ### Parts -/

/-- The first item. -/
def head : Chain α → α
  | .last x => x
  | .link x _ _ => x

/-- The items, in order. -/
def items : Chain α → List α
  | .last x => [x]
  | .link x _ rest => x :: rest.items

/-- The connectives, in order. -/
def connectives : Chain α → List Connective
  | .last _ => []
  | .link _ c rest => c :: rest.connectives

/-- The number of items. -/
def length (chain : Chain α) : Nat := chain.items.length

/-- A chain has one connective less than it has items. -/
theorem length_connectives (chain : Chain α) : chain.connectives.length + 1 = chain.length := by
  induction chain with
  | last x => rfl
  | link x c rest ih => simpa [length, connectives, items] using ih

/-! ### Building -/

/-- Join items by connectives, if their numbers fit. -/
def join? : List α → List Connective → Option (Chain α)
  | [x], [] => some (.last x)
  | x :: xs, c :: cs => (join? xs cs).map (.link x c)
  | _, _ => none

/-- The body with the given conditions and connectives. -/
def ofParts (items : List α) (connectives : List Connective) :
    Except ReadError (Option (Chain α)) :=
  match items, connectives with
  | [], [] => .ok none
  | [], _ :: _ => .error .connectiveWithoutConditions
  | x :: xs, cs =>
    match join? (x :: xs) cs with
    | some chain => .ok (some chain)
    | none => .error (.unpairedConnectives (xs.length + 1) cs.length)

/-- Tell conditions and connectives of an alternating list apart, from the given position on. -/
def separate (position : Nat) :
    List (Connective ⊕ α) → Except ReadError (List α × List Connective)
  | [] => .ok ([], [])
  | .inr item :: rest =>
    if position % 2 = 0 then do
      let (items, connectives) ← separate (position + 1) rest
      pure (item :: items, connectives)
    else .error (.expectedConnective position)
  | .inl connective :: rest =>
    if position % 2 = 1 then do
      let (items, connectives) ← separate (position + 1) rest
      pure (items, connective :: connectives)
    else .error (.expectedCondition position)

/-- The body that an alternating list of conditions and connectives writes down. -/
def ofMixed (mixed : List (Connective ⊕ α)) : Except ReadError (Option (Chain α)) := do
  let (items, connectives) ← separate 0 mixed
  ofParts items connectives

end Chain

end QueryGrammar
