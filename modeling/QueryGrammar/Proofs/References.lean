/-
QueryGrammar/Proofs/References.lean

What the columns of an encoding refer to.

A column is written as a token for its identity and, behind it, one for its table
(`Token.columnPairs`).  Columns of one name share an identity, and the wildcard has an identity of
its own and a table that it does not belong to, so neither token tells the column alone.  Together
they do if the schema distinguishes its columns (`Schema.Distinguishes`): then the column is read
off the pair (`Schema.columnAt`).

Which columns are written, and in which order, is read off the query and its shape: clause by
clause, each condition being followed by the columns of the query that it nests
(`Query.deepColumns`, `Query.writtenColumns`).  They are the columns of the expanded queries, each
as often as it is encoded there (`Query.writtenColumns_perm`).

Main result: the pairs in the tokens are one for each of these columns, in order, and have its name
and its owner (`Query.encode_references`).
-/
import Mathlib.Data.List.Perm.Basic
import QueryGrammar.Proofs.Choices
import QueryGrammar.Proofs.Mirror

namespace QueryGrammar

/-! ### Pairs of tokens -/

/-- The identity and the table of a column, as its tokens say them. -/
def Column.pair (column : Column) : Nat × Nat := (column.identity, column.table)

namespace Token

/-- The choices for `C` and `T` where the one stands right behind the other. -/
def columnPairs (tokens : List Token) : List (Nat × Nat) :=
  (tokens.zip tokens.tail).filterMap fun
    | (⟨.c, identity⟩, ⟨.t, table⟩) => some (identity, table)
    | _ => none

@[simp] theorem columnPairs_nil : columnPairs [] = [] := rfl

/-- No pair begins with a token for another symbol. -/
@[simp] theorem columnPairs_cons {token : Token} (h : token.symbol ≠ .c) (tokens : List Token) :
    columnPairs (token :: tokens) = columnPairs tokens := by
  rcases token with ⟨symbol, choice⟩
  rcases tokens with _ | ⟨next, tokens⟩
  · rfl
  · cases symbol <;> first | rfl | exact absurd rfl h

end Token

open Token (columnPairs columnPairs_cons)

section Tokens

variable (rest : List Token)

theorem Column.columnPairs_tokens (column : Column) :
    columnPairs (column.tokens ++ rest) = column.pair :: columnPairs rest := by
  have hrest : columnPairs (⟨.t, column.table⟩ :: rest) = columnPairs rest :=
    columnPairs_cons (by simp) rest
  rw [← hrest]
  rfl

theorem Column.columnPairs_flatMap (columns : List Column) :
    columnPairs (columns.flatMap tokens ++ rest) = columns.map pair ++ columnPairs rest := by
  induction columns with
  | nil => rfl
  | cons column columns ih =>
    rw [List.flatMap_cons, List.append_assoc, columnPairs_tokens, ih, List.map_cons,
      List.cons_append]

theorem SelectNode.columnPairs_tokens (select : SelectNode) :
    columnPairs (select.tokens ++ rest) =
      select.columns.map Column.pair ++ columnPairs rest := by
  rw [tokens, List.cons_append, List.cons_append, columnPairs_cons (by simp),
    columnPairs_cons (by simp), Column.columnPairs_flatMap]

theorem SortNode.columnPairs_tokens (sort : SortNode) {symbol : Symbol} (h : symbol ≠ .c) :
    columnPairs (sort.tokens symbol ++ rest) = sort.column.pair :: columnPairs rest := by
  rw [tokens, List.cons_append, columnPairs_cons h, Column.columnPairs_tokens]

end Tokens

mutual

/-- The pairs in the tokens of a derivation are those of its columns, in order. -/
theorem Root.columnPairs_tokens (rest : List Token) : (r : Root Nat) →
    columnPairs (r.tokens ++ rest) = r.deepColumns.map Column.pair ++ columnPairs rest
  | .superlativeFilter s k f | .filterOrder s f k => by
    simp [Root.tokens, Root.deepColumns, SelectNode.columnPairs_tokens,
      SortNode.columnPairs_tokens, Filter.columnPairs_tokens _ f]
  | .filter s f => by
    simp [Root.tokens, Root.deepColumns, SelectNode.columnPairs_tokens,
      Filter.columnPairs_tokens _ f]
  | .superlative s k | .order s k | .plain s => by
    simp [Root.tokens, Root.deepColumns, SelectNode.columnPairs_tokens,
      SortNode.columnPairs_tokens]

/-- The pairs in the tokens of a filter are those of its columns, in order. -/
theorem Filter.columnPairs_tokens (rest : List Token) : (f : Filter Nat) →
    columnPairs (f.tokens ++ rest) = f.deepColumns.map Column.pair ++ columnPairs rest
  | .both f g | .either f g => by
    simp [Filter.tokens, Filter.deepColumns, Filter.columnPairs_tokens _ f,
      Filter.columnPairs_tokens _ g]
  | .query _ _ r | .memberOf _ _ r => by
    simp [Filter.tokens, Filter.deepColumns, Column.columnPairs_tokens,
      Root.columnPairs_tokens _ r]
  | .value .. | .between .. | .member .. => by
    simp [Filter.tokens, Filter.deepColumns, Column.columnPairs_tokens]

end

/-- The pairs in the tokens of a derivation are those of its columns, in order. -/
theorem Derivation.columnPairs_tokens (d : Derivation Nat) :
    columnPairs d.tokens = d.deepColumns.map Column.pair := by
  cases d with
  | single r => simpa [tokens, deepColumns] using r.columnPairs_tokens []
  | combined operation l r =>
    simpa [tokens, deepColumns, l.columnPairs_tokens] using r.columnPairs_tokens []

/-! ### The columns that are written -/

/-- The columns that a clause of a query writes, where those of the conditions are given. -/
def Query.clauseColumns (q : Query) (filter : List ColumnUse) : Clause → List ColumnUse
  | .select => q.selectList.items.map (·.term.left)
  | .superlative | .order => (q.sortOrder.bind fun order => order.keys.head?.map Term.left).toList
  | .filter => filter

/-- The columns that a query writes, each condition being followed by the columns of the query that
it nests. -/
def Query.deepColumns (q : Query) : List ColumnUse :=
  let filter := q.conditions.attach.flatMap fun ⟨c, _⟩ =>
    c.left.left :: (c.nested?.attach.map fun ⟨n, _⟩ => n.deepColumns).getD []
  q.shape.clauses.flatMap (q.clauseColumns filter)
termination_by sizeOf q
decreasing_by exact sizeOf_nested_lt ‹_› ‹_›

/-- The columns that a query writes with its set operation. -/
def Query.writtenColumns (q : Query) : List ColumnUse :=
  q.deepColumns ++ q.setOperations.flatMap fun branch => branch.2.deepColumns

/-- The columns of the conditions of a query, with those of the queries that they nest. -/
def Query.filterColumns (q : Query) : List ColumnUse :=
  q.conditions.flatMap fun c => c.left.left :: (c.nested?.map deepColumns).getD []

/-- What is collected along the clauses of a shape, where those that it leaves out have nothing to
collect. -/
theorem Shape.flatMap_clauses_perm {α : Type} (shape : Shape) (f : Clause → List α)
    (sort : f .superlative = f .order) (noSort : shape.hasSort = false → f .order = [])
    (noFilter : shape.hasFilter = false → f .filter = []) :
    (shape.clauses.flatMap f).Perm (f .select ++ (f .order ++ f .filter)) := by
  cases shape <;> simp only [clauses, List.flatMap_cons, List.flatMap_nil, List.append_nil]
  case superlativeFilter => rw [sort]
  case filterOrder => exact .append_left _ List.perm_append_comm
  case superlative => rw [sort, noFilter rfl, List.append_nil]
  case filter => rw [noSort rfl, List.nil_append]
  case order => rw [noFilter rfl, List.append_nil]
  case plain => rw [noSort rfl, noFilter rfl, List.append_nil, List.append_nil]

namespace Query

theorem deepColumns_eq (q : Query) :
    q.deepColumns = q.shape.clauses.flatMap (q.clauseColumns q.filterColumns) := by
  rw [deepColumns, filterColumns]
  simp

theorem sortOrder_eq_none_of_shape {q : Query} (h : q.shape.hasSort = false) :
    q.sortOrder = none := by
  rw [hasSort_shape, Bool.or_eq_false_iff] at h
  exact Option.isNone_iff_eq_none.mp (Option.isSome_eq_false_iff.mp h.2)

theorem bodies_eq_none_of_shape {q : Query} (h : q.shape.hasFilter = false) :
    q.restriction = none ∧ q.having = none := by
  rw [hasFilter_shape, Bool.or_eq_false_iff, Option.isSome_eq_false_iff,
    Option.isSome_eq_false_iff, Option.isNone_iff_eq_none, Option.isNone_iff_eq_none] at h
  exact h

/-- The clauses that a shape leaves out write no columns. -/
theorem deepColumns_perm (q : Query) : q.deepColumns.Perm
    (q.clauseColumns q.filterColumns .select ++
      (q.clauseColumns q.filterColumns .order ++ q.filterColumns)) := by
  rw [deepColumns_eq]
  refine q.shape.flatMap_clauses_perm _ rfl (fun h => ?_) fun h => ?_
  · simp [clauseColumns, sortOrder_eq_none_of_shape h]
  · simp [clauseColumns, filterColumns, conditions, bodies_eq_none_of_shape h]

/-- A query writes the columns that its expansion encodes. -/
theorem deepColumns_perm_expansion (q : Query) :
    q.deepColumns.Perm (q.expansion.flatMap encodedColumns) := by
  induction q using nestedInduction with
  | step q ih =>
    have hnested : (q.conditions.flatMap fun c => (c.nested?.map deepColumns).getD []).Perm
        ((q.conditions.flatMap fun c => (c.nested?.map expansion).getD []).flatMap
          encodedColumns) := by
      rw [List.flatMap_assoc]
      apply List.Perm.flatMap_left
      intro c hc
      rcases hn : c.nested? with _ | n
      · exact .refl _
      · exact ih c hc n hn
    rw [expansion_eq, List.flatMap_cons, encodedColumns, List.append_assoc, List.append_assoc]
    refine q.deepColumns_perm.trans (.append_left _ (.append_left _ ?_))
    exact (List.map_append_flatMap_perm _ _ _).symm.trans (hnested.append_left _)

/-- The columns that are written are those that the expanded queries encode. -/
theorem writtenColumns_perm (q : Query) :
    q.writtenColumns.Perm (q.expanded.flatMap encodedColumns) := by
  rw [writtenColumns, expanded, List.flatMap_append, List.flatMap_assoc]
  apply (deepColumns_perm_expansion q).append
  exact List.Perm.flatMap_left _ fun branch _ => deepColumns_perm_expansion branch.2

end Query

/-! ### What a pair refers to -/

/-- The leaf has the name of the column, and its owner unless it is the wildcard. -/
structure Column.Refers (schema : Schema) (use : ColumnUse) (leaf : Column) : Prop where
  identity : schema.columnIdentity use.column = .ok leaf.identity
  owner : use.column ≠ wildcardColumn → schema.owners[use.column]? = some (some leaf.table)

variable {context : Context} {q : Query}

theorem Column.Represents.refers {schema : Schema} {aggregate : Aggregate} {use : ColumnUse}
    {leaf : Column} (h : leaf.Represents schema q aggregate use) : leaf.Refers schema use where
  identity := h.identity
  owner hne := by
    have htable := h.table
    rwa [Query.TableOf, if_neg (by simpa [ColumnUse.isWildcard] using hne)] at htable

/-- The columns of a derivation, clause by clause. -/
def Root.clauseColumns {α : Type} (r : Root α) : Clause → List Column
  | .select => r.select.columns
  | .superlative | .order => (r.sort?.map SortNode.column).toList
  | .filter => r.leaves.flatMap Filter.deepColumns

theorem Filter.deepColumns_eq_flatMap {α : Type} (f : Filter α) :
    f.deepColumns = f.leaves.flatMap deepColumns :=
  eq_flatMap_leaves deepColumns (fun _ _ => by rw [deepColumns]) (fun _ _ => by rw [deepColumns]) f

theorem Root.deepColumns_eq {α : Type} (r : Root α) :
    r.deepColumns = r.shape.clauses.flatMap r.clauseColumns := by
  cases r <;> simp [deepColumns, shape, Shape.clauses, clauseColumns, select, sort?, filter?,
    leaves, ← Filter.deepColumns_eq_flatMap]

/-- The columns of a derivation refer, in order, to those that the query writes. -/
theorem Query.refers_of_derive (q : Query) {r : Root Literal}
    (h : (q.derive context).outcome = .ok r) :
    List.Forall₂ (fun use leaf => leaf.Refers context.schema use) q.deepColumns r.deepColumns := by
  induction q using nestedInduction generalizing r with
  | step q ih =>
    have hr := derivesTo_of_derive h
    rw [deepColumns_eq, Root.deepColumns_eq, hr.shape]
    refine List.rel_flatMap (R := Eq) (List.forall₂_refl _) ?_
    rintro clause _ rfl
    have href (use : ColumnUse) (leaf : Column)
        (hleaf : ∃ aggregate, leaf.Represents context.schema q aggregate use) :
        leaf.Refers context.schema use := by
      obtain ⟨aggregate, hleaf⟩ := hleaf
      exact hleaf.refers
    cases clause with
    | select => exact hr.selectColumns.imp href
    | superlative | order => exact hr.sortColumn.imp href
    | filter =>
      -- along the conditions and their leaves, with the induction hypothesis at each condition
      refine List.rel_flatMap ((List.forall₂_and_left _ _).mpr ⟨ih, hr.leaves⟩) ?_
      rintro c f ⟨ihc, hf⟩
      dsimp only
      cases hf with
      | value direct _ column | between direct _ column | member direct _ column =>
        rw [direct, Filter.deepColumns]
        exact .cons column.refers .nil
      | query nested _ column derivation | memberOf nested _ column derivation =>
        rw [nested, Filter.deepColumns]
        exact .cons column.refers (ihc _ nested derivation)

/-- The columns of a derivation refer, in order, to those that the query writes with its set
operation. -/
theorem Query.DerivedAs.refers {d : Derivation Literal} (h : q.DerivedAs context d) :
    List.Forall₂ (fun use leaf => leaf.Refers context.schema use) q.writtenColumns
      d.deepColumns := by
  cases h with
  | single operations root =>
    simpa [writtenColumns, operations, Derivation.deepColumns] using q.refers_of_derive root
  | combined operations left right =>
    simpa [writtenColumns, operations, Derivation.deepColumns] using
      List.rel_append (q.refers_of_derive left) (refers_of_derive _ right)

/-! ### Telling the column from the pair -/

namespace Schema

/-- The column is not the wildcard, has the name and belongs to the table. -/
structure Lists (schema : Schema) (name : String) (table column : Nat) : Prop where
  ne_wildcard : column ≠ wildcardColumn
  name : schema.columnNames[column]? = some name
  owner : schema.owners[column]? = some (some table)

instance (schema : Schema) (name : String) (table column : Nat) :
    Decidable (schema.Lists name table column) :=
  decidable_of_iff (column ≠ wildcardColumn ∧ schema.columnNames[column]? = some name ∧
      schema.owners[column]? = some (some table))
    ⟨fun h => ⟨h.1, h.2.1, h.2.2⟩, fun h => ⟨h.ne_wildcard, h.name, h.owner⟩⟩

/-- No two columns of a table have one name, and none has that of the wildcard. -/
structure Distinguishes (schema : Schema) : Prop where
  columns : ∀ name table column column', schema.Lists name table column →
    schema.Lists name table column' → column = column'
  wildcard : ∀ name column, schema.columnNames[wildcardColumn]? = some name →
    column ≠ wildcardColumn → schema.columnNames[column]? ≠ some name

/-- The column with an identity and a table, which is the wildcard if there is no other. -/
def columnAt (schema : Schema) (pair : Nat × Nat) : Nat :=
  (schema.identities[pair.1]?.bind fun name =>
    (List.range schema.columnNames.length).find? (schema.Lists name pair.2 ·)).getD wildcardColumn

variable {schema : Schema}

/-- The column is read off the pair that refers to it. -/
theorem Distinguishes.columnAt_pair (h : schema.Distinguishes) {use : ColumnUse} {leaf : Column}
    (refers : leaf.Refers schema use) : schema.columnAt leaf.pair = use.column := by
  obtain ⟨name, hname, hidentity⟩ := getElem?_columnIdentity refers.identity
  have hlists (hne : use.column ≠ wildcardColumn) : schema.Lists name leaf.table use.column :=
    ⟨hne, hname, refers.owner hne⟩
  rw [columnAt, Column.pair, hidentity, Option.bind_some]
  rcases hfind : (List.range schema.columnNames.length).find? (schema.Lists name leaf.table ·)
    with _ | column
  · -- a column other than the wildcard would have been found
    by_contra hne
    apply List.find?_eq_none.mp hfind use.column
    · exact List.mem_range.mpr (List.getElem?_eq_some_iff.mp hname).1
    · exact decide_eq_true (hlists (Ne.symm hne))
  · have hcolumn : schema.Lists name leaf.table column := by simpa using List.find?_some hfind
    by_cases hwildcard : use.column = wildcardColumn
    · rw [hwildcard] at hname
      exact absurd hcolumn.name (h.wildcard name column hname hcolumn.ne_wildcard)
    · exact h.columns name leaf.table column use.column hcolumn (hlists hwildcard)

end Schema

/-! ### Encodings -/

/-- **References to columns.**  The tokens `C` and `T` of an encoding come in pairs, one for each
column that the query writes, in order; these are the columns that the expanded queries encode.
Unless the column is the wildcard, the first token has its name and the second is its owner.  If
the schema distinguishes its columns, the pair tells which column it is, and whether it is the
wildcard. -/
theorem Query.encode_references {e : Encoding} (h : (q.encode context).outcome = .ok e) :
    let schema := context.schema
    let pairs := columnPairs e.tokens
    Token.choices .c e.tokens = pairs.map Prod.fst ∧
      Token.choices .t e.tokens = pairs.map Prod.snd ∧
      q.writtenColumns.Perm (q.expanded.flatMap encodedColumns) ∧
      List.Forall₂ (fun use pair => use.column ≠ wildcardColumn →
        use.column < schema.columnNames.length ∧
          schema.identities[pair.1]? = schema.columnNames[use.column]? ∧
          schema.owners[use.column]? = some (some pair.2)) q.writtenColumns pairs ∧
      (schema.Distinguishes →
        pairs.map schema.columnAt = q.writtenColumns.map ColumnUse.column) := by
  intro schema pairs
  obtain ⟨d, hd, rfl⟩ := encode_eq_ok_iff.mp h
  have hrefers : List.Forall₂ (fun use leaf => leaf.Refers schema use) q.writtenColumns
      d.deepColumns := hd.refers
  have hpairs : pairs = d.deepColumns.map Column.pair := by
    simp only [pairs, Encoding.ofDerivation_eq, Derivation.columnPairs_tokens,
      Derivation.deepColumns_map]
  have hchoices (symbol : Symbol) (hsymbol : symbol ∈ [Symbol.a, .c, .t]) :
      Token.choices symbol (Encoding.ofDerivation d).tokens =
        d.deepColumns.map fun c => c.choice symbol := by
    rw [Encoding.ofDerivation_eq, Derivation.choices_tokens hsymbol, Derivation.deepColumns_map]
  refine ⟨?_, ?_, q.writtenColumns_perm, ?_, fun hdistinct => ?_⟩
  · rw [hchoices .c (by simp), hpairs, List.map_map]
    rfl
  · rw [hchoices .t (by simp), hpairs, List.map_map]
    rfl
  · rw [hpairs, List.forall₂_map_right_iff]
    apply hrefers.imp
    intro use leaf hleaf hne
    obtain ⟨name, hname, hidentity⟩ := Schema.getElem?_columnIdentity hleaf.identity
    exact ⟨(List.getElem?_eq_some_iff.mp hname).1, hidentity.trans hname.symm, hleaf.owner hne⟩
  · rw [hpairs, List.map_map, ← List.forall₂_eq_eq_eq, List.forall₂_map_left_iff,
      List.forall₂_map_right_iff]
    exact hrefers.flip.imp fun leaf use hleaf => hdistinct.columnAt_pair hleaf

/-- The sample schema distinguishes its columns: the two of one name belong to different tables. -/
theorem Sample.distinguishes_shop : shop.schema.Distinguishes := by
  have hlt {column : Nat} {name : String} (h : shop.schema.columnNames[column]? = some name) :
      column < 4 := (List.getElem?_eq_some_iff.mp h).1
  have hcolumns : ∀ column < 4, ∀ column' < 4,
      shop.schema.columnNames[column]? = shop.schema.columnNames[column']? →
      shop.schema.owners[column]? = shop.schema.owners[column']? → column = column' := by decide
  have hwildcard : ∀ column < 4, column ≠ wildcardColumn →
      shop.schema.columnNames[column]? ≠ shop.schema.columnNames[wildcardColumn]? := by decide
  constructor
  · intro name table column column' h h'
    exact hcolumns column (hlt h.name) column' (hlt h'.name) (h.name.trans h'.name.symm)
      (h.owner.trans h'.owner.symm)
  · intro name column hname hne h
    exact hwildcard column (hlt h) hne (h.trans hname.symm)

theorem Query.encode_references_sample :
    (Sample.outer.encode Sample.shop).outcome = .ok Sample.encoding ∧
      (columnPairs Sample.encoding.tokens).map Sample.shop.schema.columnAt =
        Sample.outer.writtenColumns.map ColumnUse.column := by
  have encodes : (Sample.outer.encode Sample.shop).outcome = .ok Sample.encoding := by decide
  exact ⟨encodes, (encode_references encodes).2.2.2.2 Sample.distinguishes_shop⟩

end QueryGrammar
