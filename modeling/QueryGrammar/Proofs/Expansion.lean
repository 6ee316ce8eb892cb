/-
QueryGrammar/Proofs/Expansion.lean

Which conditions and which queries an encoding goes through, and in which order.

Of a query, the WHERE conditions and the first HAVING condition are written (`Query.conditions`);
of a chain `p or q and r` the pair that `and` joins is written first.  Whether they hold is read off
a chain in the usual manner (`Chain.holds`, `Query.holds`).  The columns on the left of
these conditions are encoded, as are those of the select list and of the first sort key
(`Query.encodedColumns`).

A condition over a query is followed by the conditions of that query (`Query.deepConditions`).
The queries that have a derivation of their own are, in the order of their derivations, the query
itself and the nested queries of these conditions (`Query.expansion`), then those of the branch of
a set operation (`Query.branch?`, `Query.expanded`).

Nested queries are smaller, so what passes from the nested queries of a query to the query itself
holds of every query (`Query.nestedInduction`).
-/
import QueryGrammar.Query.Basic

namespace QueryGrammar

/-! ### Chains in the order of their tokens -/

namespace Chain

variable {α β : Type}

/-- Apply a function to every item. -/
def map (f : α → β) : Chain α → Chain β
  | .last x => .last (f x)
  | .link x c rest => .link (f x) c (rest.map f)

/-- The items in the order of their tokens. -/
def written : Chain α → List α
  | .link p .or (.link q .and (.last r)) => [q, r, p]
  | chain => chain.items

@[simp] theorem items_map (f : α → β) (chain : Chain α) :
    (chain.map f).items = chain.items.map f := by
  induction chain with
  | last x => rfl
  | link x c rest ih => simp [map, items, ih]

@[simp] theorem head_map (f : α → β) (chain : Chain α) : (chain.map f).head = f chain.head := by
  cases chain <;> rfl

@[simp] theorem length_map (f : α → β) (chain : Chain α) :
    (chain.map f).length = chain.length := by
  simp [length]

@[simp] theorem connectives_map (f : α → β) (chain : Chain α) :
    (chain.map f).connectives = chain.connectives := by
  induction chain with
  | last x => rfl
  | link x c rest ih => rw [map, connectives, connectives, ih]

theorem map_map {γ : Type} (f : α → β) (g : β → γ) (chain : Chain α) :
    (chain.map f).map g = chain.map fun x => g (f x) := by
  induction chain with
  | last x => rfl
  | link x c rest ih => rw [map, map, map, ih]

@[simp] theorem map_id (chain : Chain α) : (chain.map fun x => x) = chain := by
  induction chain with
  | last x => rfl
  | link x c rest ih => rw [map, ih]

theorem written_map (f : α → β) (chain : Chain α) :
    (chain.map f).written = chain.written.map f := by
  rcases chain with x | ⟨p, _ | _, q | ⟨q, _ | _, r | ⟨r, c, rest⟩⟩⟩ <;> simp [map, written, items]

/-- Writing a chain only permutes its items. -/
theorem written_perm (chain : Chain α) : chain.written.Perm chain.items := by
  rcases chain with x | ⟨p, _ | _, q | ⟨q, _ | _, r | ⟨r, c, rest⟩⟩⟩ <;>
    simp only [written, items, List.Perm.refl]
  exact (List.perm_append_singleton p [q, r])

theorem mem_written {chain : Chain α} {x : α} : x ∈ chain.written ↔ x ∈ chain.items :=
  chain.written_perm.mem_iff

/-- Whether a chain holds, given whether the group holds that its first item continues. -/
def holdsAfter (w : α → Bool) (group : Bool) : Chain α → Bool
  | .last x => group && w x
  | .link x .and rest => rest.holdsAfter w (group && w x)
  | .link x .or rest => (group && w x) || rest.holdsAfter w true

/-- Whether a chain holds, by which of its items do; `and` binds tighter than `or`. -/
def holds (w : α → Bool) (chain : Chain α) : Bool := chain.holdsAfter w true

end Chain

/-! ### Nested queries are smaller -/

theorem Chain.sizeOf_lt_of_mem_items {α : Type} [SizeOf α] {chain : Chain α} {x : α}
    (h : x ∈ chain.items) : sizeOf x < sizeOf chain := by
  induction chain with
  | last y =>
    simp only [items, List.mem_singleton] at h
    subst h
    simp
  | link y c rest ih =>
    simp only [items, List.mem_cons] at h
    rcases h with rfl | h
    · simp
      omega
    · have := ih h
      simp
      omega

theorem Chain.head_mem_items {α : Type} (chain : Chain α) : chain.head ∈ chain.items := by
  cases chain <;> simp [head, items]

theorem Condition.sizeOf_nested_lt {condition : Condition} {n : Query}
    (h : condition.nested? = some n) : sizeOf n < sizeOf condition := by
  rcases condition with ⟨negated, operator, left, _ | (q | x | s | use), upper⟩ <;>
    simp only [nested?, Option.some.injEq, reduceCtorEq] at h
  subst h
  simp
  omega

namespace Query

/-! ### The conditions that are written -/

/-- The conditions of a query in the order of their tokens: those of WHERE, and the first one of
HAVING. -/
def conditions (q : Query) : List Condition :=
  (q.restriction.map Chain.written).getD [] ++ (q.having.map Chain.head).toList

/-- A condition is written if it is one of WHERE or the first one of HAVING. -/
theorem mem_conditions {q : Query} {c : Condition} :
    c ∈ q.conditions ↔ c ∈ Conditions.items q.restriction ∨
      ∃ chain, q.having = some chain ∧ c = chain.head := by
  simp only [conditions, List.mem_append]
  refine or_congr ?_ ?_
  · rcases q.restriction with _ | chain
    · simp [Conditions.items]
    · simpa [Conditions.items] using Chain.mem_written
  · rcases q.having with _ | chain <;> simp

theorem sizeOf_lt_of_mem_conditions {q : Query} {c : Condition} (h : c ∈ q.conditions) :
    sizeOf c < sizeOf q := by
  rcases q with ⟨selectList, sources, restriction, having, groupBy, sortOrder, limit, i, u, e⟩
  rcases mem_conditions.mp h with h | ⟨chain, rfl, rfl⟩
  · rcases restriction with _ | chain
    · simp [Conditions.items] at h
    · have hlt : sizeOf c < sizeOf chain := Chain.sizeOf_lt_of_mem_items h
      simp
      omega
  · have hlt := Chain.sizeOf_lt_of_mem_items chain.head_mem_items
    simp
    omega

theorem sizeOf_nested_lt {q n : Query} {c : Condition} (hc : c ∈ q.conditions)
    (hn : c.nested? = some n) : sizeOf n < sizeOf q :=
  Nat.lt_trans (Condition.sizeOf_nested_lt hn) (sizeOf_lt_of_mem_conditions hc)

/-- Induction over the queries nested in the conditions of a query. -/
theorem nestedInduction {P : Query → Prop}
    (step : ∀ q, (∀ c ∈ q.conditions, ∀ n, c.nested? = some n → P n) → P q) (q : Query) : P q :=
  step q fun _ _ n _ => nestedInduction step n
termination_by sizeOf q
decreasing_by exact sizeOf_nested_lt ‹_› ‹_›

/-- Whether the conditions that are written hold, by which of them do. -/
def holds (w : Condition → Bool) (q : Query) : Bool :=
  (q.restriction.map (Chain.holds w)).getD true &&
    (q.having.map fun chain => w chain.head).getD true

/-- The columns of a query that are encoded: those of the select list, of the first sort key and
of the written conditions. -/
def encodedColumns (q : Query) : List ColumnUse :=
  q.selectList.items.map (·.term.left) ++
    (q.sortOrder.bind fun order => order.keys.head?.map Term.left).toList ++
    q.conditions.map (·.left.left)

/-- The conditions of a query, each followed by those of the query it nests. -/
def deepConditions (q : Query) : List Condition :=
  q.conditions.attach.flatMap fun ⟨c, _⟩ =>
    c :: (c.nested?.attach.map fun ⟨n, _⟩ => n.deepConditions).getD []
termination_by sizeOf q
decreasing_by exact sizeOf_nested_lt ‹_› ‹_›

theorem deepConditions_eq (q : Query) : q.deepConditions =
    q.conditions.flatMap fun c => c :: (c.nested?.map deepConditions).getD [] := by
  rw [deepConditions]
  simp

/-! ### Set operations -/

/-- The branch of a set operation. -/
def branch? (q : Query) (operation : SetOperation) : Option Query :=
  match operation with
  | .intersect => q.intersect
  | .union => q.union
  | .except => q.except

theorem setOperations_eq (q : Query) : q.setOperations =
    [SetOperation.intersect, .union, .except].filterMap fun operation =>
      (q.branch? operation).map fun b => (operation, b) := rfl

/-! ### The queries that are derived -/

/-- A query and the queries nested in its conditions, in the order of their derivations. -/
def expansion (q : Query) : List Query := q :: q.deepConditions.filterMap Condition.nested?

theorem expansion_eq (q : Query) : q.expansion =
    q :: q.conditions.flatMap fun c => (c.nested?.map expansion).getD [] := by
  rw [expansion, deepConditions_eq, List.filterMap_flatMap]
  congr 2
  funext c
  rcases h : c.nested? with _ | n <;> simp [h, expansion]

theorem mem_expansion {q n : Query} : n ∈ q.expansion ↔
    n = q ∨ ∃ c ∈ q.conditions, ∃ m, c.nested? = some m ∧ n ∈ m.expansion := by
  rw [expansion_eq, List.mem_cons, List.mem_flatMap]
  refine or_congr_right (exists_congr fun c => and_congr_right fun _ => ?_)
  rcases c.nested? with _ | m <;> simp

theorem mem_expansion_self (q : Query) : q ∈ q.expansion := List.mem_cons_self

/-- The queries that have a derivation in that of a query with its set operation. -/
def expanded (q : Query) : List Query :=
  q.expansion ++ q.setOperations.flatMap fun branch => branch.2.expansion

end Query

end QueryGrammar
