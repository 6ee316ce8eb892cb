/-
QueryGrammar/Proofs/Essence.lean

What an encoding ignores.

The essence of a query is what is left of it when everything is forgotten that its encoding ignores
(`Query.essence`).  Of the query, of the branch of its set operation and of the queries nested in
written conditions, at any depth, these are left (`Query.core`):

* whether the select list is distinct, and the aggregates and columns that it lists;
* of the sources the tables and the number, and of a source that is a query its first table;
* the WHERE conditions with their connectives, and the first HAVING condition;
* of a condition its negation, its operator, the left column with its aggregate, and the operands
  that are stored as literals, or else the nested query;
* the first grouping column, and the first sort key with its direction;
* whether there is a limit.

Set operations are left at the top only.

Main result: queries with the same essence have the same encodings (`Query.encode_congr`).  Literals
are stored as they are, so the mark of a column on the right-hand side of a comparison is not
forgotten (`Query.encode_comparing`).
-/
import QueryGrammar.Proofs.Congruence
import QueryGrammar.Proofs.Mirror

namespace QueryGrammar

/-! ### The essence of a query -/

/-- The column without its mark. -/
def ColumnUse.unmarked (use : ColumnUse) : ColumnUse := { use with distinct := false }

/-- The left column of a term, without its mark. -/
def Term.core (term : Term) : Term := { operator := 0, left := term.left.unmarked, right := none }

/-- The aggregate and the column of an entry. -/
def SelectItem.core (item : SelectItem) : SelectItem where
  aggregate := item.aggregate
  term := .plain item.term.left.column

/-- The entries, and whether one of them or the list itself is distinct. -/
def SelectList.core (list : SelectList) : SelectList where
  distinct := list.distinct || list.items.any (·.term.left.distinct)
  items := list.items.map SelectItem.core

/-- The first key with its direction. -/
def SortOrder.core (order : SortOrder) : SortOrder where
  direction := order.direction
  keys := (order.keys.take 1).map Term.core

/-- A source that is a query of the same first table, if it is a query. -/
def Source.core : Source → Source
  | .table id => .table id
  | .query q => .query
      { selectList := { distinct := false, items := [] }
        sources := (q.firstTable?.map Source.table).toList }

/-- The operand, a column being without its mark. -/
def Operand.unmarked : Operand → Operand
  | .column use => .column use.unmarked
  | operand => operand

/-- The right-hand side of a condition that is no query: what is stored of it, if the test is
one that is supported. -/
def Condition.operands (c : Condition) : Option Operand × Option Operand :=
  match DirectTest.ofOperator c.negated c.operator with
  | .ok (.value _) => (c.value, none)
  | .ok .between => (c.value, c.upper)
  | .ok (.member _) => (none, none)
  | .error _ => (c.value.map Operand.unmarked, none)

/-- The core of a condition whose right-hand side is no query. -/
def Condition.coreDirect (c : Condition) : Condition :=
  { c with left := c.left.core, value := c.operands.1, upper := c.operands.2 }

/-- The core of a condition over a query of the given core. -/
def Condition.coreNested (c : Condition) (core : Query) : Condition :=
  { c with left := c.left.core, value := some (.query core), upper := none }

/-- The clauses of the core of a query, the cores of its conditions being given. -/
def Query.coreClauses (q : Query) (restriction having : Option (Chain Condition)) : Query where
  selectList := q.selectList.core
  sources := q.sources.map Source.core
  restriction := restriction
  having := having.map fun chain => .last chain.head
  groupBy := (q.groupBy.take 1).map fun use => .plain use.column
  sortOrder := q.sortOrder.map SortOrder.core
  limit := q.limit.map fun _ => .zero

mutual

/-- What the derivation of a query depends on. -/
def Query.core (q : Query) : Query :=
  match q with
  | { restriction, having, .. } =>
    q.coreClauses (coreConditions restriction) (coreConditions having)

/-- The cores of the conditions of a body. -/
def coreConditions : Option (Chain Condition) → Option (Chain Condition)
  | none => none
  | some chain => some (coreChain chain)

/-- The cores of the conditions of a chain. -/
def coreChain : Chain Condition → Chain Condition
  | .last c => .last (Condition.core c)
  | .link c connective rest => .link (Condition.core c) connective (coreChain rest)

/-- What the derivation of a condition depends on. -/
def Condition.core (c : Condition) : Condition :=
  match c with
  | { value := some (.query q), .. } => c.coreNested (Query.core q)
  | _ => c.coreDirect

end

/-- What the encoding of a query depends on. -/
def Query.essence (q : Query) : Query :=
  { q.core with
    intersect := q.intersect.map Query.core
    union := q.union.map Query.core
    except := q.except.map Query.core }

/-! ### Equations of the recursion -/

theorem coreChain_eq_map (chain : Chain Condition) :
    coreChain chain = chain.map Condition.core := by
  induction chain with
  | last c => rw [coreChain, Chain.map]
  | link c connective rest ih => rw [coreChain, Chain.map, ih]

theorem coreConditions_eq_map (body : Option (Chain Condition)) :
    coreConditions body = body.map (Chain.map Condition.core) := by
  rcases body with _ | chain
  · rw [coreConditions, Option.map_none]
  · rw [coreConditions, Option.map_some, coreChain_eq_map]

theorem Query.core_eq (q : Query) : q.core = q.coreClauses
    (q.restriction.map (Chain.map Condition.core)) (q.having.map (Chain.map Condition.core)) := by
  rcases q with ⟨⟩
  rw [Query.core]
  simp only [coreConditions_eq_map]

namespace Condition

variable {c : Condition}

theorem core_of_nested {n : Query} (h : c.nested? = some n) : c.core = c.coreNested n.core := by
  rcases c with ⟨negated, operator, left, _ | (q | x | s | use), upper⟩ <;>
    simp only [nested?, Option.some.injEq, reduceCtorEq] at h
  subst h
  rw [core]

theorem core_of_direct (h : c.nested? = none) : c.core = c.coreDirect := by
  rcases c with ⟨negated, operator, left, _ | (q | x | s | use), upper⟩ <;>
    simp only [nested?, reduceCtorEq] at h <;> rw [core] <;> simp

theorem left_core (c : Condition) : c.core.left = c.left.core := by
  rcases h : c.nested? with _ | n
  · rw [core_of_direct h, coreDirect]
  · rw [core_of_nested h, coreNested]

theorem nested?_coreDirect (h : c.nested? = none) : c.coreDirect.nested? = none := by
  rw [coreDirect, operands]
  rcases c with ⟨negated, operator, left, _ | (q | x | s | use), upper⟩ <;>
    simp only [nested?, reduceCtorEq] at h ⊢ <;>
    rcases DirectTest.ofOperator negated operator with e | (test | _ | member) <;>
    simp [Operand.unmarked]

end Condition

/-! ### The table of the wildcard -/

namespace Query

variable (q : Query)

theorem tables_core : q.core.tables = q.tables := by
  rw [core_eq, coreClauses, tables, tables, List.filterMap_map]
  congr 1
  funext source
  rcases source with id | n <;> rfl

theorem firstTable?_core : q.core.firstTable? = q.firstTable? := by
  rw [firstTable?_eq, q.firstTable?_eq, core_eq, coreClauses]
  rcases q.sources with _ | ⟨id | n, rest⟩
  · rfl
  · rfl
  · -- the query that stands for a source has the same first table
    show Query.firstTable? _ = n.firstTable?
    rw [firstTable?_eq]
    rcases n.firstTable? with _ | id <;> rfl

theorem items_core : Conditions.items q.core.restriction =
    (Conditions.items q.restriction).map Condition.core := by
  rw [core_eq, coreClauses]
  rcases q.restriction with _ | chain
  · rfl
  · exact Chain.items_map Condition.core chain

theorem telltaleColumns_core : q.core.telltaleColumns = q.telltaleColumns := by
  have hselected : q.core.selectList.items = q.selectList.items.map SelectItem.core := by
    rw [core_eq]
    rfl
  have hleft (c : Condition) : c.core.left.left.column = c.left.left.column := by
    rw [c.left_core]
    rfl
  simp only [telltaleColumns, hselected, items_core, List.map_append, List.map_map,
    List.filter_map, Function.comp_def, hleft]
  rfl

theorem wildcardTable_core (context : Context) :
    context.wildcardTable q.core = context.wildcardTable q := by
  apply Context.wildcardTable_congr
  · rw [core_eq, coreClauses, List.length_map]
  · exact q.tables_core
  · exact q.firstTable?_core
  · exact q.telltaleColumns_core
  · rw [core_eq, coreClauses]
    rcases q.groupBy with _ | ⟨use, rest⟩ <;> rfl

end Query

/-! ### Clauses -/

namespace Context

variable {context : Context} {wildcard : Logged Nat}

/-- Of a column only its number matters. -/
theorem deriveColumn_congr {aggregate : Aggregate} {use use' : ColumnUse}
    (h : use.column = use'.column) : context.deriveColumn wildcard aggregate use =
      context.deriveColumn wildcard aggregate use' := by
  have hwildcard : use.isWildcard = use'.isWildcard := by
    rw [ColumnUse.isWildcard, ColumnUse.isWildcard, h]
  unfold deriveColumn
  rw [h, hwildcard]

theorem deriveSelect_core (list : SelectList) :
    context.deriveSelect wildcard list.core = context.deriveSelect wildcard list := by
  have hcolumns : (list.core.items.mapM fun item =>
      context.deriveColumn wildcard item.aggregate item.term.left) =
        list.items.mapM fun item =>
          context.deriveColumn wildcard item.aggregate item.term.left := by
    rw [SelectList.core, List.mapM_map]
    rfl
  have hdistinct : (list.core.distinct || list.core.items.any (·.term.left.distinct)) =
      (list.distinct || list.items.any (·.term.left.distinct)) := by
    have hnone : list.core.items.any (·.term.left.distinct) = false := by
      simp [SelectList.core, SelectItem.core, Term.plain, ColumnUse.plain]
    rw [hnone, Bool.or_false]
    rfl
  have hlength : list.core.items.length = list.items.length := List.length_map _
  have hempty : list.core.items.isEmpty = list.items.isEmpty := by
    rw [SelectList.core, List.isEmpty_map]
  rw [deriveSelect, deriveSelect, hcolumns, hdistinct, hlength, hempty]

theorem deriveSort_core (order : Option SortOrder) :
    context.deriveSort wildcard (order.map SortOrder.core) =
      context.deriveSort wildcard order := by
  rcases order with _ | ⟨direction, _ | ⟨key, rest⟩⟩
  · rfl
  · rfl
  · rfl

/-! ### Conditions -/

theorem deriveDirect_core (c : Condition) :
    context.deriveDirect wildcard c.coreDirect = context.deriveDirect wildcard c := by
  have hcolumn : context.deriveColumn wildcard c.coreDirect.left.left.aggregate
      c.coreDirect.left.left = context.deriveColumn wildcard c.left.left.aggregate c.left.left :=
    deriveColumn_congr rfl
  have htest : DirectTest.ofOperator c.coreDirect.negated c.coreDirect.operator =
    DirectTest.ofOperator c.negated c.operator := rfl
  unfold deriveDirect
  dsimp only
  rw [htest, hcolumn]
  -- an operand that the test does not store is not looked at
  rcases h : DirectTest.ofOperator c.negated c.operator with e | (test | _ | member) <;>
    simp only [Condition.coreDirect, Condition.operands, h] <;> rfl

theorem deriveNested_core (c : Condition) (core : Query) {root root' : Logged (Root Literal)}
    (h : Logged.Alike Eq root root') :
    Logged.Alike Eq (context.deriveNested wildcard (c.coreNested core) root)
      (context.deriveNested wildcard c root') :=
  deriveNested_alike Derivation.congruence_eq rfl rfl
    (congrArg Logged.outcome (deriveColumn_congr rfl)) h

end Context

/-! ### Derivations -/

namespace Query

variable {context : Context}

theorem deriveClauses_core (q : Query) {restriction restriction' having having' :
    Option (Chain (Logged (Filter Literal)))}
    (h : Logged.Alike Eq (context.deriveFilter restriction having)
      (context.deriveFilter restriction' having')) :
    Logged.Alike Eq (q.core.deriveClauses context restriction having)
      (q.deriveClauses context restriction' having') := by
  have hshape : q.core.shape = q.shape := by
    simp only [shape, core_eq, coreClauses, Option.isSome_map]
  have hselect : context.deriveSelect (context.wildcardTable q.core) q.core.selectList =
      context.deriveSelect (context.wildcardTable q) q.selectList := by
    rw [wildcardTable_core, core_eq]
    exact Context.deriveSelect_core q.selectList
  have hsort : context.deriveSort (context.wildcardTable q.core) q.core.sortOrder =
      context.deriveSort (context.wildcardTable q) q.sortOrder := by
    rw [wildcardTable_core, core_eq]
    exact Context.deriveSort_core q.sortOrder
  exact deriveClauses_alike Derivation.congruence_eq hshape (congrArg Logged.outcome hselect)
    (congrArg Logged.outcome hsort) h

theorem map_restriction_core {γ : Type} (f : Condition → γ) (q : Query) :
    q.core.restriction.map (Chain.map f) = q.restriction.map (Chain.map fun c => f c.core) := by
  rw [core_eq, coreClauses, Option.map_map]
  congr 1
  funext chain
  exact Chain.map_map Condition.core f chain

theorem map_having_core {γ : Type} (f : Condition → γ) (q : Query) :
    q.core.having.map (Chain.map f) = q.having.map fun chain => .last (f chain.head.core) := by
  rw [core_eq, coreClauses, Option.map_map, Option.map_map]
  congr 1
  funext chain
  show Chain.last (f (chain.map Condition.core).head) = .last (f chain.head.core)
  rw [Chain.head_map]

end Query

/-- A condition is derived as its core is, if the query that it nests is. -/
theorem Condition.derive_core {context : Context} {wildcard : Logged Nat} {c : Condition}
    (h : ∀ n, c.nested? = some n → Logged.Alike Eq (n.core.derive context) (n.derive context)) :
    Logged.Alike Eq (c.core.derive context wildcard) (c.derive context wildcard) := by
  rcases hnested : c.nested? with _ | n
  · rw [core_of_direct hnested, derive_of_direct hnested,
      derive_of_direct (nested?_coreDirect hnested), Context.deriveDirect_core]
    exact Logged.alike_self (fun _ => rfl) _
  · have hcore : (c.coreNested n.core).nested? = some n.core := rfl
    rw [core_of_nested hnested, derive_of_nested hnested, derive_of_nested hcore]
    exact Context.deriveNested_core c n.core (h n hnested)

namespace Query

variable {context : Context}

/-- A query is derived as its core is. -/
theorem derive_core (q : Query) : Logged.Alike Eq (q.core.derive context) (q.derive context) := by
  induction q using nestedInduction with
  | step q ih =>
    have hcondition (c : Condition) (hc : c ∈ q.conditions) :
        Logged.Alike Eq (c.core.derive context (context.wildcardTable q))
          (c.derive context (context.wildcardTable q)) :=
      Condition.derive_core (ih c hc)
    rw [derive_eq, derive_eq]
    apply deriveClauses_core
    rw [wildcardTable_core, map_restriction_core, map_having_core]
    -- the conditions that take effect are those that are written
    apply Context.deriveFilter_alike Derivation.congruence_eq
    · rcases hchain : q.restriction with _ | chain
      · exact .none
      · apply Option.Rel.some
        apply Context.deriveRestriction_alike Derivation.congruence_eq
        intro c hc
        apply hcondition
        rw [mem_conditions, hchain]
        exact .inl hc
    · rcases hchain : q.having with _ | chain
      · exact .none
      · apply Option.Rel.some
        rw [Chain.head, Chain.head_map]
        apply hcondition
        rw [mem_conditions]
        exact .inr ⟨chain, hchain, rfl⟩

/-! ### Encodings -/

theorem derive_essence (q : Query) : q.essence.derive context = q.core.derive context :=
  derive_congr rfl rfl rfl rfl rfl rfl rfl

theorem setOperations_essence (q : Query) :
    q.essence.setOperations = q.setOperations.map fun (operation, branch) =>
      (operation, branch.core) := by
  rw [setOperations, setOperations, essence]
  rcases q.intersect <;> rcases q.union <;> rcases q.except <;> rfl

/-- The encoding of a query is that of its essence. -/
theorem outcome_encode_essence (context : Context) (q : Query) :
    (q.essence.encode context).outcome = (q.encode context).outcome := by
  have hroot : (q.essence.derive context).outcome = (q.derive context).outcome := by
    rw [derive_essence, Logged.alike_eq_iff.mp q.derive_core]
  apply Logged.outcome_bind_congr
  · unfold derivation
    rw [setOperations_essence]
    rcases q.setOperations with _ | ⟨⟨operation, branch⟩, _ | ⟨other, rest⟩⟩
    · exact Logged.outcome_bind_congr hroot fun _ => rfl
    · apply Logged.outcome_bind_congr hroot
      exact fun _ => Logged.outcome_bind_congr
        (Logged.alike_eq_iff.mp branch.derive_core) fun _ => rfl
    · -- the failure tells of the operations alone
      simp [List.map_map, Function.comp_def]
  · exact fun _ => rfl

/-- **Queries of the same essence have the same encoding**, or fail alike.  They may differ in all
that the essence forgets, at any depth. -/
theorem encode_congr {q q' : Query} (h : q.essence = q'.essence) :
    (q.encode context).outcome = (q'.encode context).outcome := by
  rw [← outcome_encode_essence context q, h, outcome_encode_essence]

end Query

/-! ### What is forgotten, and what is not -/

namespace Sample

/-- `SELECT DISTINCT COUNT(customer) FROM (SELECT * FROM sale) WHERE id IN (inner)`
`GROUP BY customer HAVING id BETWEEN '1' AND '9' ORDER BY id LIMIT 0` -/
def terse : Query where
  selectList := { distinct := true, items := [{ aggregate := .count, term := .plain 2 }] }
  sources := [.query { selectList := .single 0, sources := [.table 1] }]
  restriction := some (.last
    { negated := false, operator := .member, left := .plain 3, value := some (.query inner),
      upper := none })
  having := some (.last
    { negated := false, operator := .between, left := .plain 3, value := some (.text "'1'"),
      upper := some (.text "'9'") })
  groupBy := [.plain 2]
  sortOrder := some { direction := .ascending, keys := [.plain 3] }
  limit := some .zero

/-- A term of two columns, of which the first is marked. -/
def cluttered (column : Nat) : Term where
  operator := 1
  left := { aggregate := .none, column, distinct := true }
  right := some (.plain 1)

/-- The same query with other parts wherever they are ignored. -/
def ornate : Query where
  selectList :=
    { distinct := false
      items := [{ aggregate := .count
                  term := { cluttered 2 with
                    left := { aggregate := .max, column := 2, distinct := true } } }] }
  sources := [.query { terse with sources := [.table 1, .table 0], union := some inner }]
  restriction := some (.last
    { negated := false, operator := .member, left := cluttered 3
      value := some (.query { inner with except := some inner })
      upper := some (.number .largest) })
  having := some (.link
    { negated := false, operator := .between, left := cluttered 3, value := some (.text "'1'"),
      upper := some (.text "'9'") } .or (.last
    { negated := true, operator := .is, left := .plain 3, value := none, upper := none }))
  groupBy := [{ aggregate := .max, column := 2, distinct := true }, .plain 0]
  sortOrder := some { direction := .ascending, keys := [cluttered 3, .plain 2] }
  limit := some .largest

/-- `SELECT customer FROM sale WHERE id = customer`, the column on the right being marked or not. -/
def comparing (distinct : Bool) : Query where
  selectList := .single 2
  sources := [.table 1]
  restriction := some (.last
    { negated := false, operator := .equal, left := .plain 3,
      value := some (.column { aggregate := .none, column := 2, distinct }), upper := none })

/-- The encoding of that query. -/
def comparingEncoding (distinct : Bool) : Encoding where
  tokens := [⟨.root1, 3⟩, ⟨.root, 3⟩, ⟨.sel, 0⟩, ⟨.n, 0⟩, ⟨.a, 0⟩, ⟨.c, 2⟩, ⟨.t, 1⟩, ⟨.filter, 2⟩,
    ⟨.a, 0⟩, ⟨.c, 1⟩, ⟨.t, 1⟩, ⟨.v, 0⟩]
  values := [.column { aggregate := .none, column := 2, distinct }]

end Sample

theorem Query.encode_congr_sample :
    (Sample.terse.encode Sample.shop).outcome = (Sample.ornate.encode Sample.shop).outcome :=
  Query.encode_congr (show Sample.terse.essence = Sample.ornate.essence by rfl)

/-- A mark that is stored is not forgotten: these queries differ in the mark of a column alone. -/
theorem Query.encode_comparing :
    ((Sample.comparing false).encode Sample.shop).outcome = .ok (Sample.comparingEncoding false) ∧
      ((Sample.comparing true).encode Sample.shop).outcome = .ok (Sample.comparingEncoding true) ∧
      (Sample.comparingEncoding false).values ≠ (Sample.comparingEncoding true).values := by
  decide

end QueryGrammar
