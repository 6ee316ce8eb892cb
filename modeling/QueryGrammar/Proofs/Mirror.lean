/-
QueryGrammar/Proofs/Mirror.lean

An encoding mirrors its query.

`Root.Represents` says which query the derivation of a single query stands for: its shape, its
select list, its sort key, and one leaf for each written condition, joined so that the filter holds
exactly if the conditions do.  The derivations within a
derivation stand, in the order of their tokens, for the queries of `Query.expanded`
(`Derivation.Mirrors`), and its tokens are a tree of the grammar (`Query.encode_mirrors`).  Values
play no part in this, so the relations carry over to numbered derivations.

`Sample` holds a small schema and a query over it that has a nested query and a set operation.
-/
import QueryGrammar.Proofs.Derive
import QueryGrammar.Proofs.Grammar
import QueryGrammar.Proofs.Numbering

namespace QueryGrammar

variable {α β : Type} {context : Context} {schema : Schema} {q : Query}

/-! ### What derivations stand for -/

/-- The filter of a single condition stands for a condition of the query. -/
structure Filter.Represents (schema : Schema) (q : Query) (c : Condition) (f : Filter α) :
    Prop where
  choice : filterChoice c.negated c.operator c.nested?.isSome = .ok f.choice
  column : ∃ leaf, f.columns = [leaf] ∧ leaf.Represents schema q c.left.left.aggregate c.left.left
  nested : f.nested?.isSome = c.nested?.isSome

/-- The derivation of a single query stands for a query. -/
structure Root.Represents (schema : Schema) (q : Query) (r : Root α) : Prop where
  shape : r.shape = q.shape
  select : r.select.Represents schema q
  sort : ∀ k, r.sort? = some k → k.Represents schema q
  leaves : List.Forall₂ (fun c f => f.Represents schema q c) q.conditions r.leaves
  eval : ∀ (w : Condition → Bool) (v : Filter α → Bool),
    List.Forall₂ (fun c f => v f = w c) q.conditions r.leaves → r.eval v = q.holds w

/-- The derivation stands for a query with its set operation: the derivations of queries within it
stand for the expanded queries, in order. -/
structure Derivation.Mirrors (schema : Schema) (q : Query) (d : Derivation α) : Prop where
  operation : q.setOperations.map Prod.fst = d.operation?.toList
  roots : List.Forall₂ (fun n r => r.Represents schema n) q.expanded d.roots

/-! ### Values play no part -/

theorem Filter.Represents.map {c : Condition} {f : Filter α} (h : f.Represents schema q c)
    (g : α → β) : (f.map g).Represents schema q c where
  choice := by rw [choice_map, h.choice]
  column := by simpa only [columns_map] using h.column
  nested := by rw [nested?_map, Option.isSome_map, h.nested]

theorem Root.Represents.map {r : Root α} (h : r.Represents schema q) (g : α → β) :
    (r.map g).Represents schema q where
  shape := by rw [shape_map, h.shape]
  select := by rw [select_map]; exact h.select
  sort := by rw [sort?_map]; exact h.sort
  leaves := by
    rw [leaves_map, List.forall₂_map_right_iff]
    exact h.leaves.imp fun _ _ hf => hf.map g
  eval w v hv := by
    rw [leaves_map, List.forall₂_map_right_iff] at hv
    rw [eval_map]
    exact h.eval w _ hv

theorem Derivation.Mirrors.map {d : Derivation α} (h : d.Mirrors schema q) (g : α → β) :
    (d.map g).Mirrors schema q where
  operation := by rw [operation?_map, h.operation]
  roots := by
    rw [roots_map, List.forall₂_map_right_iff]
    exact h.roots.imp fun _ _ hr => hr.map g

/-! ### Deriving a query mirrors it -/

theorem Condition.DerivesTo.represents {c : Condition} {f : Filter Literal}
    (h : c.DerivesTo context q f) : f.Represents context.schema q c where
  choice := by
    cases h with
    | value direct operator | between direct operator | member direct operator =>
      simp [filterChoice, direct, operator, DirectTest.choice, Filter.choice, Except.map]
    | query nested operator | memberOf nested operator =>
      simp [filterChoice, nested, operator, NestedTest.choice, Filter.choice, Except.map]
  column := h.exists_column
  nested := by
    cases h with
    | value direct | between direct | member direct => rw [direct]; rfl
    | query nested | memberOf nested => rw [nested]; rfl

theorem Query.DerivesTo.represents {r : Root Literal} (h : q.DerivesTo context r) :
    r.Represents context.schema q where
  shape := h.shape
  select := h.select
  sort := h.sort
  leaves := h.leaves.imp fun _ _ hf => hf.represents
  eval := h.eval

theorem Query.DerivedAs.mirrors {d : Derivation Literal} (h : q.DerivedAs context d) :
    d.Mirrors context.schema q where
  operation := by
    cases h with
    | single operations | combined operations =>
      rw [operations]
      rfl
  roots := h.derivesTo_expanded.imp fun _ _ hn => hn.represents

/-! ### The tokens of an encoding -/

theorem SelectNode.Represents.fits {select : SelectNode} (h : select.Represents schema q) :
    select.Fits where
  one_le := h.columns.length_eq ▸ h.one_le_width
  le_five := h.columns.length_eq ▸ h.width_le

theorem Derivation.Mirrors.fits {d : Derivation α} (h : d.Mirrors schema q) :
    ∀ r ∈ d.roots, r.select.Fits := by
  intro r hr
  obtain ⟨n, -, hn⟩ := exists_left_of_forall₂ h.roots hr
  exact hn.select.fits

/-- **An encoding mirrors its query.**  Its tokens are a tree of the grammar in preorder, and the
nodes of that tree which derive a query stand, in order, for the expanded queries. -/
theorem Query.encode_mirrors {e : Encoding} (h : (q.encode context).outcome = .ok e) :
    ∃ d : Derivation Nat, d.tree.Derives .root1 ∧ d.tree.preorder = e.tokens ∧
      d.tree.rootNodes = d.roots.map Root.tree ∧ d.Mirrors context.schema q := by
  obtain ⟨d, hd, rfl⟩ := encode_eq_ok_iff.mp h
  rw [Encoding.ofDerivation_eq]
  -- numbering the literals changes no other part of the derivation
  have hmirrors := hd.mirrors.map (Literal.place (Literal.stored d.values))
  exact ⟨_, Derivation.derives_tree _ hmirrors.fits, Derivation.preorder_tree _,
    Derivation.rootNodes_tree _, hmirrors⟩

/-! ### A query with its encoding -/

/-- A column as it is, without an aggregate. -/
def ColumnUse.plain (column : Nat) : ColumnUse := { aggregate := .none, column, distinct := false }

/-- A term of one column. -/
def Term.plain (column : Nat) : Term := { operator := 0, left := .plain column, right := none }

/-- A select list of one column. -/
def SelectList.single (column : Nat) : SelectList where
  distinct := false
  items := [{ aggregate := .none, term := .plain column }]

namespace Sample

/-- Two tables, of which the second has a column of its own and one that the first has too. -/
def entry : SchemaEntry where
  name := "shop"
  tableNames := ["customer", "sale"]
  columns := [(-1, "*"), (0, "id"), (1, "customer"), (1, "id")]

/-- The context of the sample queries. -/
def shop : Context where
  schema := .ofEntry entry

/-- `SELECT customer FROM sale WHERE id = "7" OR id < '7' AND id = 'x'` -/
def inner : Query where
  selectList := .single 2
  sources := [.table 1]
  restriction := some (.link
    { negated := false, operator := .equal, left := .plain 3, value := some (.text "\"7\""),
      upper := none } .or (.link
    { negated := false, operator := .less, left := .plain 3, value := some (.text "'7'"),
      upper := none } .and (.last
    { negated := false, operator := .equal, left := .plain 3, value := some (.text "'x'"),
      upper := none })))

/-- `SELECT * FROM customer WHERE id IN (inner) INTERSECT inner` -/
def outer : Query where
  selectList := .single 0
  sources := [.table 0]
  restriction := some (.last
    { negated := false, operator := .member, left := .plain 1, value := some (.query inner),
      upper := none })
  intersect := some inner

/-- The tokens of the inner query. -/
def innerTokens : List Token :=
  [⟨.root, 3⟩, ⟨.sel, 0⟩, ⟨.n, 0⟩, ⟨.a, 0⟩, ⟨.c, 2⟩, ⟨.t, 1⟩, ⟨.filter, 1⟩, ⟨.filter, 0⟩,
    ⟨.filter, 4⟩, ⟨.a, 0⟩, ⟨.c, 1⟩, ⟨.t, 1⟩, ⟨.v, 0⟩, ⟨.filter, 2⟩, ⟨.a, 0⟩, ⟨.c, 1⟩, ⟨.t, 1⟩,
    ⟨.v, 1⟩, ⟨.filter, 2⟩, ⟨.a, 0⟩, ⟨.c, 1⟩, ⟨.t, 1⟩, ⟨.v, 0⟩]

/-- The encoding of the outer query. -/
def encoding : Encoding where
  tokens := [⟨.root1, 0⟩, ⟨.root, 3⟩, ⟨.sel, 0⟩, ⟨.n, 0⟩, ⟨.a, 0⟩, ⟨.c, 0⟩, ⟨.t, 0⟩, ⟨.filter, 18⟩,
    ⟨.a, 0⟩, ⟨.c, 1⟩, ⟨.t, 0⟩] ++ innerTokens ++ innerTokens
  values := [.text "7", .text "x"]

end Sample

theorem Query.encode_mirrors_sample :
    ∃ d : Derivation Nat, d.tree.Derives .root1 ∧ d.tree.preorder = Sample.encoding.tokens ∧
      d.tree.rootNodes = d.roots.map Root.tree ∧ d.Mirrors Sample.shop.schema Sample.outer :=
  Query.encode_mirrors (show (Sample.outer.encode Sample.shop).outcome = .ok Sample.encoding by
    decide)

end QueryGrammar
