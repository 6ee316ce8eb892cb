/-
QueryGrammar/Proofs/Parts.lean

The parts of a derivation.

The derivation of a query is its shape, its select list and, as the shape has them, a sort key and
a filter; these four determine it (`Root.ext_parts`).  A filter joins leaves, one for each
condition (`Filter.leaves`); whatever is collected along a filter is collected from its leaves.
The derivations of queries within a derivation stand in the order of their tokens (`Root.roots`),
as do its columns and values (`Root.deepColumns`, `Root.values`).

Changing the values alone (`Root.map`) changes none of the other parts.
-/
import QueryGrammar.Derivation

namespace QueryGrammar

variable {α β : Type}

/-! ### The clauses of a query -/

namespace Root

/-- The shape of a derivation. -/
def shape : Root α → Shape
  | .superlativeFilter _ _ _ => .superlativeFilter
  | .filterOrder _ _ _ => .filterOrder
  | .superlative _ _ => .superlative
  | .filter _ _ => .filter
  | .order _ _ => .order
  | .plain _ => .plain

/-- The select list of a derivation. -/
def select : Root α → SelectNode
  | .superlativeFilter s _ _ | .filterOrder s _ _ | .superlative s _ | .filter s _ | .order s _
  | .plain s => s

/-- The sort key of a derivation, if its shape has one. -/
def sort? : Root α → Option SortNode
  | .superlativeFilter _ k _ | .filterOrder _ _ k | .superlative _ k | .order _ k => some k
  | .filter _ _ | .plain _ => none

/-- The filter of a derivation, if its shape has one. -/
def filter? : Root α → Option (Filter α)
  | .superlativeFilter _ _ f | .filterOrder _ f _ | .filter _ f => some f
  | .superlative _ _ | .order _ _ | .plain _ => none

end Root

/-! ### The leaves of a filter -/

namespace Filter

/-- The filters of single conditions that a filter joins, in the order of their tokens. -/
def leaves : Filter α → List (Filter α)
  | .both f g | .either f g => f.leaves ++ g.leaves
  | leaf => [leaf]

/-- The production of a filter. -/
def choice : Filter α → Nat
  | .both _ _ => 0
  | .either _ _ => 1
  | .value test _ _ => test.choice
  | .between _ _ _ => betweenChoice
  | .query test _ _ => test.choice
  | .member negated _ | .memberOf negated _ _ => memberChoice negated

/-- The columns of the conditions of a filter, without those of nested queries. -/
def columns : Filter α → List Column
  | .both f g | .either f g => f.columns ++ g.columns
  | .value _ c _ | .between c _ _ | .query _ c _ | .member _ c | .memberOf _ c _ => [c]

/-- The derivation of the query that a condition nests. -/
def nested? : Filter α → Option (Root α)
  | .query _ _ r | .memberOf _ _ r => some r
  | _ => none

/-- Whether a filter holds, by which of its leaves do. -/
def eval (v : Filter α → Bool) : Filter α → Bool
  | .both f g => f.eval v && g.eval v
  | .either f g => f.eval v || g.eval v
  | leaf => v leaf

end Filter

/-- The leaves of the filter of a derivation. -/
def Root.leaves (r : Root α) : List (Filter α) := (r.filter?.map Filter.leaves).getD []

/-- Whether the filter of a derivation holds, by which of its leaves do. -/
def Root.eval (v : Filter α → Bool) (r : Root α) : Bool := (r.filter?.map (Filter.eval v)).getD true

/-- The columns of a derivation, without those of nested queries. -/
def Root.columns (r : Root α) : List Column :=
  r.select.columns ++ (r.sort?.map SortNode.column).toList ++ r.leaves.flatMap Filter.columns

/-! ### Nested derivations and values -/

mutual

/-- The derivations of queries within a derivation, in the order of their tokens. -/
def Root.roots : Root α → List (Root α)
  | .superlativeFilter s k f => .superlativeFilter s k f :: Filter.roots f
  | .filterOrder s f k => .filterOrder s f k :: Filter.roots f
  | .superlative s k => [.superlative s k]
  | .filter s f => .filter s f :: Filter.roots f
  | .order s k => [.order s k]
  | .plain s => [.plain s]

/-- The derivations of queries within a filter, in the order of their tokens. -/
def Filter.roots : Filter α → List (Root α)
  | .both f g | .either f g => Filter.roots f ++ Filter.roots g
  | .query _ _ r | .memberOf _ _ r => Root.roots r
  | .value _ _ _ | .between _ _ _ | .member _ _ => []

end

mutual

/-- The values of a derivation, in the order of their tokens. -/
def Root.values : Root α → List α
  | .superlativeFilter _ _ f | .filterOrder _ f _ | .filter _ f => Filter.values f
  | .superlative _ _ | .order _ _ | .plain _ => []

/-- The values of a filter, in the order of their tokens. -/
def Filter.values : Filter α → List α
  | .both f g | .either f g => Filter.values f ++ Filter.values g
  | .value _ _ value => [value]
  | .between _ low high => [low, high]
  | .query _ _ r | .memberOf _ _ r => Root.values r
  | .member _ _ => []

end

mutual

/-- Apply a function to every value. -/
def Root.map (g : α → β) : Root α → Root β
  | .superlativeFilter s k f => .superlativeFilter s k (Filter.map g f)
  | .filterOrder s f k => .filterOrder s (Filter.map g f) k
  | .superlative s k => .superlative s k
  | .filter s f => .filter s (Filter.map g f)
  | .order s k => .order s k
  | .plain s => .plain s

/-- Apply a function to every value. -/
def Filter.map (g : α → β) : Filter α → Filter β
  | .both f f' => .both (Filter.map g f) (Filter.map g f')
  | .either f f' => .either (Filter.map g f) (Filter.map g f')
  | .value test column value => .value test column (g value)
  | .between column low high => .between column (g low) (g high)
  | .query test column r => .query test column (Root.map g r)
  | .member negated column => .member negated column
  | .memberOf negated column r => .memberOf negated column (Root.map g r)

end

mutual

/-- The columns of a derivation and of those nested in it, in the order of their tokens. -/
def Root.deepColumns : Root α → List Column
  | .superlativeFilter s k f => s.columns ++ k.column :: Filter.deepColumns f
  | .filterOrder s f k => s.columns ++ Filter.deepColumns f ++ [k.column]
  | .superlative s k | .order s k => s.columns ++ [k.column]
  | .filter s f => s.columns ++ Filter.deepColumns f
  | .plain s => s.columns

/-- The columns of a filter and of the derivations in it, in the order of their tokens. -/
def Filter.deepColumns : Filter α → List Column
  | .both f g | .either f g => Filter.deepColumns f ++ Filter.deepColumns g
  | .value _ column _ | .between column _ _ | .member _ column => [column]
  | .query _ column r | .memberOf _ column r => column :: Root.deepColumns r

end

namespace Derivation

/-- The set operation of a derivation, if it has one. -/
def operation? : Derivation α → Option SetOperation
  | .single _ => none
  | .combined operation _ _ => some operation

/-- The derivations of queries within a derivation, in the order of their tokens. -/
def roots : Derivation α → List (Root α)
  | .single r => r.roots
  | .combined _ l r => l.roots ++ r.roots

/-- The values of a derivation, in the order of their tokens. -/
def values : Derivation α → List α
  | .single r => r.values
  | .combined _ l r => l.values ++ r.values

/-- The columns of a derivation, in the order of their tokens. -/
def deepColumns : Derivation α → List Column
  | .single r => r.deepColumns
  | .combined _ l r => l.deepColumns ++ r.deepColumns

/-- Apply a function to every value. -/
def map (g : α → β) : Derivation α → Derivation β
  | .single r => .single (r.map g)
  | .combined operation l r => .combined operation (l.map g) (r.map g)

end Derivation

/-! ### A filter is its leaves -/

namespace Filter

/-- What is appended along a filter is collected from its leaves. -/
theorem eq_flatMap_leaves {γ : Type} (collect : Filter α → List γ)
    (both : ∀ f g, collect (.both f g) = collect f ++ collect g)
    (either : ∀ f g, collect (.either f g) = collect f ++ collect g) :
    (f : Filter α) → collect f = f.leaves.flatMap collect
  | .both f g => by
    rw [both, leaves, List.flatMap_append, ← eq_flatMap_leaves collect both either f,
      ← eq_flatMap_leaves collect both either g]
  | .either f g => by
    rw [either, leaves, List.flatMap_append, ← eq_flatMap_leaves collect both either f,
      ← eq_flatMap_leaves collect both either g]
  | .value .. | .between .. | .query .. | .member .. | .memberOf .. => by
    simp [leaves]

theorem roots_eq_flatMap (f : Filter α) : f.roots = f.leaves.flatMap roots :=
  eq_flatMap_leaves roots (fun _ _ => by rw [roots]) (fun _ _ => by rw [roots]) f

theorem values_eq_flatMap (f : Filter α) : f.values = f.leaves.flatMap values :=
  eq_flatMap_leaves values (fun _ _ => by rw [values]) (fun _ _ => by rw [values]) f

end Filter

namespace Root

theorem roots_eq (r : Root α) : r.roots = r :: r.leaves.flatMap Filter.roots := by
  cases r <;> simp [roots, leaves, filter?, ← Filter.roots_eq_flatMap]

theorem values_eq (r : Root α) : r.values = r.leaves.flatMap Filter.values := by
  cases r <;> simp [values, leaves, filter?, ← Filter.values_eq_flatMap]

end Root

/-! ### Columns of nested derivations -/

namespace Filter

theorem columns_eq_flatMap (f : Filter α) : f.columns = f.leaves.flatMap columns :=
  eq_flatMap_leaves columns (fun _ _ => by rw [columns]) (fun _ _ => by rw [columns]) f

end Filter

theorem Root.mem_columns {r : Root α} {column : Column} :
    column ∈ r.columns ↔ column ∈ r.select.columns ∨ (∃ k, r.sort? = some k ∧ k.column = column) ∨
      ∃ f, r.filter? = some f ∧ column ∈ f.columns := by
  rw [columns, List.mem_append, List.mem_append, or_assoc]
  refine or_congr_right (or_congr ?_ ?_)
  · simp
  · rcases h : r.filter? with _ | f
    · simp [leaves, h]
    · simp [leaves, h, ← Filter.columns_eq_flatMap]

theorem Root.mem_deepColumns_iff {r : Root α} {column : Column} :
    column ∈ r.deepColumns ↔ column ∈ r.select.columns ∨
      (∃ k, r.sort? = some k ∧ k.column = column) ∨
      ∃ f, r.filter? = some f ∧ column ∈ f.deepColumns := by
  cases r with
  | filterOrder s f k =>
    simp only [deepColumns, select, sort?, filter?, List.mem_append, List.mem_singleton, or_assoc,
      Option.some.injEq, exists_eq_left', eq_comm (a := column)]
    exact or_congr_right or_comm
  | _ => simp [deepColumns, select, sort?, filter?, eq_comm]

theorem Root.exists_mem_roots_iff {r : Root α} {P : Root α → Prop} :
    (∃ r' ∈ r.roots, P r') ↔ P r ∨ ∃ f, r.filter? = some f ∧ ∃ r' ∈ f.roots, P r' := by
  cases r <;> simp [roots, filter?]

mutual

/-- The columns of a derivation are those of the derivations of queries within it. -/
theorem Root.mem_deepColumns {column : Column} :
    (r : Root α) → (column ∈ r.deepColumns ↔ ∃ r' ∈ r.roots, column ∈ r'.columns)
  | .superlativeFilter _ _ f | .filterOrder _ f _ | .filter _ f => by
    rw [Root.mem_deepColumns_iff, Root.exists_mem_roots_iff, Root.mem_columns]
    simp only [Root.filter?, Option.some.injEq, exists_eq_left', Filter.mem_deepColumns f]
    rw [or_assoc, or_assoc]
  | .superlative .. | .order .. | .plain .. => by
    rw [Root.mem_deepColumns_iff, Root.exists_mem_roots_iff, Root.mem_columns]
    simp only [Root.filter?, reduceCtorEq, false_and, exists_false, or_false]

/-- The columns of a filter are its own and those of the derivations of queries within it. -/
theorem Filter.mem_deepColumns {column : Column} :
    (f : Filter α) → (column ∈ f.deepColumns ↔
      column ∈ f.columns ∨ ∃ r ∈ f.roots, column ∈ r.columns)
  | .both f g | .either f g => by
    simp only [Filter.deepColumns, Filter.columns, Filter.roots, List.mem_append,
      Filter.mem_deepColumns f, Filter.mem_deepColumns g, or_and_right, exists_or]
    grind
  | .query _ _ r | .memberOf _ _ r => by
    simp [Filter.deepColumns, Filter.columns, Filter.roots, Root.mem_deepColumns r]
  | .value .. | .between .. | .member .. => by
    simp [Filter.deepColumns, Filter.columns, Filter.roots]

end

/-- The columns of a derivation are those of the derivations of queries within it. -/
theorem Derivation.mem_deepColumns {d : Derivation α} {column : Column} :
    column ∈ d.deepColumns ↔ ∃ r ∈ d.roots, column ∈ r.columns := by
  cases d <;> simp [deepColumns, roots, Root.mem_deepColumns, or_and_right, exists_or]

/-! ### Changing the values -/

namespace Root

variable (g : α → β) (r : Root α)

@[simp] theorem shape_map : (r.map g).shape = r.shape := by
  cases r <;> simp [map, shape]

@[simp] theorem select_map : (r.map g).select = r.select := by
  cases r <;> simp [map, select]

@[simp] theorem sort?_map : (r.map g).sort? = r.sort? := by
  cases r <;> simp [map, sort?]

@[simp] theorem filter?_map : (r.map g).filter? = r.filter?.map (Filter.map g) := by
  cases r <;> simp [map, filter?]

end Root

namespace Filter

@[simp] theorem leaves_map (g : α → β) : (f : Filter α) → (f.map g).leaves = f.leaves.map (map g)
  | .both f f' | .either f f' => by simp [map, leaves, leaves_map g f, leaves_map g f']
  | .value .. | .between .. | .query .. | .member .. | .memberOf .. => by simp [map, leaves]

@[simp] theorem choice_map (g : α → β) (f : Filter α) : (f.map g).choice = f.choice := by
  cases f <;> simp [map, choice]

@[simp] theorem columns_map (g : α → β) : (f : Filter α) → (f.map g).columns = f.columns
  | .both f f' | .either f f' => by simp [map, columns, columns_map g f, columns_map g f']
  | .value .. | .between .. | .query .. | .member .. | .memberOf .. => by simp [map, columns]

@[simp] theorem eval_map (g : α → β) (v : Filter β → Bool) :
    (f : Filter α) → (f.map g).eval v = f.eval fun leaf => v (leaf.map g)
  | .both f f' | .either f f' => by simp [map, eval, eval_map g v f, eval_map g v f']
  | .value .. | .between .. | .query .. | .member .. | .memberOf .. => by simp [map, eval]

@[simp] theorem nested?_map (g : α → β) (f : Filter α) :
    (f.map g).nested? = f.nested?.map (Root.map g) := by
  cases f <;> simp [map, nested?]

end Filter

@[simp] theorem Root.leaves_map (g : α → β) (r : Root α) :
    (r.map g).leaves = r.leaves.map (Filter.map g) := by
  rcases h : r.filter? with _ | f <;> simp [leaves, h]

@[simp] theorem Root.eval_map (g : α → β) (v : Filter β → Bool) (r : Root α) :
    (r.map g).eval v = r.eval fun leaf => v (leaf.map g) := by
  rcases h : r.filter? with _ | f <;> simp [eval, h]

@[simp] theorem Root.columns_map (g : α → β) (r : Root α) : (r.map g).columns = r.columns := by
  simp [columns, List.flatMap_map]

mutual

@[simp] theorem Root.roots_map (g : α → β) :
    (r : Root α) → (r.map g).roots = r.roots.map (Root.map g)
  | .superlativeFilter s k f | .filterOrder s f k | .filter s f => by
    simp [Root.map, Root.roots, Filter.roots_map g f]
  | .superlative .. | .order .. | .plain .. => by simp [Root.map, Root.roots]

@[simp] theorem Filter.roots_map (g : α → β) :
    (f : Filter α) → (f.map g).roots = f.roots.map (Root.map g)
  | .both f f' | .either f f' => by
    simp [Filter.map, Filter.roots, Filter.roots_map g f, Filter.roots_map g f']
  | .query _ _ r | .memberOf _ _ r => by simp [Filter.map, Filter.roots, Root.roots_map g r]
  | .value .. | .between .. | .member .. => by simp [Filter.map, Filter.roots]

end

mutual

@[simp] theorem Root.values_map (g : α → β) : (r : Root α) → (r.map g).values = r.values.map g
  | .superlativeFilter s k f | .filterOrder s f k | .filter s f => by
    simp [Root.map, Root.values, Filter.values_map g f]
  | .superlative .. | .order .. | .plain .. => by simp [Root.map, Root.values]

@[simp] theorem Filter.values_map (g : α → β) :
    (f : Filter α) → (f.map g).values = f.values.map g
  | .both f f' | .either f f' => by
    simp [Filter.map, Filter.values, Filter.values_map g f, Filter.values_map g f']
  | .query _ _ r | .memberOf _ _ r => by simp [Filter.map, Filter.values, Root.values_map g r]
  | .value .. | .between .. | .member .. => by simp [Filter.map, Filter.values]

end

mutual

@[simp] theorem Root.deepColumns_map (g : α → β) :
    (r : Root α) → (r.map g).deepColumns = r.deepColumns
  | .superlativeFilter _ _ f | .filterOrder _ f _ | .filter _ f => by
    simp [Root.map, Root.deepColumns, Filter.deepColumns_map g f]
  | .superlative .. | .order .. | .plain .. => by simp [Root.map, Root.deepColumns]

@[simp] theorem Filter.deepColumns_map (g : α → β) :
    (f : Filter α) → (f.map g).deepColumns = f.deepColumns
  | .both f f' | .either f f' => by
    simp [Filter.map, Filter.deepColumns, Filter.deepColumns_map g f, Filter.deepColumns_map g f']
  | .query _ _ r | .memberOf _ _ r => by
    simp [Filter.map, Filter.deepColumns, Root.deepColumns_map g r]
  | .value .. | .between .. | .member .. => by simp [Filter.map, Filter.deepColumns]

end

mutual

/-- Changing the values twice is changing them once. -/
theorem Root.map_map {γ : Type} (g : α → β) (h : β → γ) :
    (r : Root α) → (r.map g).map h = r.map (h ∘ g)
  | .superlativeFilter _ _ f | .filterOrder _ f _ | .filter _ f => by
    simp [Root.map, Filter.map_map g h f]
  | .superlative .. | .order .. | .plain .. => by simp [Root.map]

/-- Changing the values twice is changing them once. -/
theorem Filter.map_map {γ : Type} (g : α → β) (h : β → γ) :
    (f : Filter α) → (f.map g).map h = f.map (h ∘ g)
  | .both f f' | .either f f' => by simp [Filter.map, Filter.map_map g h f, Filter.map_map g h f']
  | .query _ _ r | .memberOf _ _ r => by simp [Filter.map, Root.map_map g h r]
  | .value .. | .between .. | .member .. => by simp [Filter.map]

end

mutual

/-- Functions that agree on the values of a derivation change it alike. -/
theorem Root.map_congr {g h : α → β} :
    (r : Root α) → (∀ v ∈ r.values, g v = h v) → r.map g = r.map h
  | .superlativeFilter _ _ f, hgh | .filterOrder _ f _, hgh | .filter _ f, hgh => by
    rw [Root.values] at hgh
    rw [Root.map, Root.map, Filter.map_congr f hgh]
  | .superlative .., _ | .order .., _ | .plain .., _ => by rw [Root.map, Root.map]

/-- Functions that agree on the values of a filter change it alike. -/
theorem Filter.map_congr {g h : α → β} :
    (f : Filter α) → (∀ v ∈ f.values, g v = h v) → f.map g = f.map h
  | .both f f', hgh | .either f f', hgh => by
    rw [Filter.values, List.forall_mem_append] at hgh
    rw [Filter.map, Filter.map, Filter.map_congr f hgh.1, Filter.map_congr f' hgh.2]
  | .query _ _ r, hgh | .memberOf _ _ r, hgh => by
    rw [Filter.values] at hgh
    rw [Filter.map, Filter.map, Root.map_congr r hgh]
  | .value _ _ v, hgh => by
    rw [Filter.values, List.forall_mem_singleton] at hgh
    rw [Filter.map, Filter.map, hgh]
  | .between _ low high, hgh => by
    rw [Filter.values, List.forall_mem_cons, List.forall_mem_singleton] at hgh
    rw [Filter.map, Filter.map, hgh.1, hgh.2]
  | .member .., _ => by rw [Filter.map, Filter.map]

end

namespace Derivation

@[simp] theorem deepColumns_map (g : α → β) (d : Derivation α) :
    (d.map g).deepColumns = d.deepColumns := by
  cases d <;> simp [map, deepColumns]

@[simp] theorem operation?_map (g : α → β) (d : Derivation α) :
    (d.map g).operation? = d.operation? := by
  cases d <;> rfl

@[simp] theorem roots_map (g : α → β) (d : Derivation α) :
    (d.map g).roots = d.roots.map (Root.map g) := by
  cases d <;> simp [map, roots]

@[simp] theorem values_map (g : α → β) (d : Derivation α) :
    (d.map g).values = d.values.map g := by
  cases d <;> simp [map, values]

end Derivation

end QueryGrammar
