/-
QueryGrammar/Proofs/Bounds.lean

Which ids stand in the tokens.

The choices for `C` and `T` come from the columns that a query encodes.  Identities are always
those of the schema.  The table of the wildcard is checked against the schema, but the owner of a
column is taken as the description has it: the tables in the tokens are tables of the schema
exactly if the owners of the columns that are encoded are (`Query.OwnersWithin`).

Apart from that, what the description lacks stops an encoding: a well-shaped query fails with the
id of a column or a table that is not there, of a column without a table, or for want of any table
in FROM (`Failure.Outside`).
-/
import QueryGrammar.Proofs.Acceptance
import QueryGrammar.Proofs.Choices
import QueryGrammar.Proofs.Mirror

namespace QueryGrammar

variable {context : Context} {entry : SchemaEntry} {q : Query}

/-! ### Failures over the schema -/

/-- The failure names what the description lacks. -/
inductive Failure.Outside (entry : SchemaEntry) : Failure → Prop
  | column {id : Nat} (missing : entry.columns.length ≤ id) : Outside entry (.unknownColumn id)
  | table {id : Nat} (missing : entry.tableNames.length ≤ id) : Outside entry (.unknownTable id)
  | unowned {id : Nat} (owner : (Schema.ofEntry entry).owners[id]? = some none) :
      Outside entry (.unownedColumn id)
  | noTable : Outside entry (.malformed .noTable)

theorem Schema.failsOnly_outside (entry : SchemaEntry) :
    (ofEntry entry).FailsOnly (Failure.Outside entry) where
  identity column e h := by
    obtain ⟨hcolumn, rfl⟩ := columnIdentity_ofEntry_eq_error_iff.mp h
    exact .column hcolumn
  owner column e h := by
    obtain ⟨hcolumn, rfl⟩ := tableOf_ofEntry_eq_error_iff.mp h
    exact .column hcolumn
  unowned column h := .unowned (tableOf_eq_ok_iff.mp h)
  table table e h := by
    obtain ⟨htable, rfl⟩ := checkTable_eq_error_iff.mp h
    exact .table htable
  noTable := .noTable

theorem Query.failsOnly_outside (hschema : context.schema = .ofEntry entry)
    (operations : q.setOperations.length ≤ 1)
    (shaped : ∀ n ∈ q.expanded, n.WellShaped context.maxConditions) :
    (q.encode context).FailsOnly (Failure.Outside entry) := by
  apply encode_failsOnly
  · exact fun several => absurd operations (Nat.not_le.mpr several)
  · exact fun n hn e he => absurd he (shaped n hn).not_refusal
  · have hlookUp : context.schema.FailsOnly (Failure.Outside entry) := by
      rw [hschema]
      exact Schema.failsOnly_outside entry
    exact fun n _ use _ => hlookUp.column n use

/-! ### Columns of a derivation -/

/-- Every column of a derivation stands for one that is encoded. -/
theorem Query.DerivedAs.exists_use {d : Derivation Literal} {column : Column}
    (h : q.DerivedAs context d) (hcolumn : column ∈ d.deepColumns) :
    ∃ n ∈ q.expanded, ∃ use ∈ n.encodedColumns, ∃ aggregate,
      column.Represents context.schema n aggregate use := by
  obtain ⟨r, hr, hcolumn⟩ := Derivation.mem_deepColumns.mp hcolumn
  obtain ⟨n, hn, hderives⟩ := exists_left_of_forall₂ h.derivesTo_expanded hr
  obtain ⟨use, huse, hrepresents⟩ := exists_left_of_forall₂ hderives.columns hcolumn
  exact ⟨n, hn, use, huse, hrepresents⟩

/-- For every column that is encoded there is one in the derivation. -/
theorem Query.DerivedAs.exists_column {d : Derivation Literal} {n : Query} {use : ColumnUse}
    (h : q.DerivedAs context d) (hn : n ∈ q.expanded) (huse : use ∈ n.encodedColumns) :
    ∃ column ∈ d.deepColumns, ∃ aggregate,
      column.Represents context.schema n aggregate use := by
  obtain ⟨r, hr, hderives⟩ := exists_right_of_forall₂ h.derivesTo_expanded hn
  obtain ⟨column, hcolumn, hrepresents⟩ := exists_right_of_forall₂ hderives.columns huse
  exact ⟨column, Derivation.mem_deepColumns.mpr ⟨r, hr, hcolumn⟩, hrepresents⟩

/-- The columns that are encoded, but for the wildcard, belong to tables of the description. -/
def Query.OwnersWithin (entry : SchemaEntry) (q : Query) : Prop :=
  ∀ n ∈ q.expanded, ∀ use ∈ n.encodedColumns, ¬ use.isWildcard → ∀ table,
    (Schema.ofEntry entry).owners[use.column]? = some (some table) →
      table < entry.tableNames.length

theorem Query.DerivedAs.identity_lt {d : Derivation Literal} {column : Column}
    (h : q.DerivedAs context d) (hcolumn : column ∈ d.deepColumns) :
    column.identity < context.schema.identities.length := by
  obtain ⟨n, -, use, -, aggregate, hrepresents⟩ := h.exists_use hcolumn
  exact Schema.columnIdentity_lt hrepresents.identity

theorem Query.DerivedAs.table_lt_iff {d : Derivation Literal}
    (hschema : context.schema = .ofEntry entry) (h : q.DerivedAs context d) :
    (∀ column ∈ d.deepColumns, column.table < entry.tableNames.length) ↔
      q.OwnersWithin entry := by
  constructor
  · intro hall n hn use huse hwildcard table howner
    obtain ⟨column, hcolumn, aggregate, hrepresents⟩ := h.exists_column hn huse
    have htable := hrepresents.table
    rw [hschema, TableOf, if_neg hwildcard, howner] at htable
    simp only [Option.some.injEq] at htable
    rw [htable]
    exact hall column hcolumn
  · intro hwithin column hcolumn
    obtain ⟨n, hn, use, huse, aggregate, hrepresents⟩ := h.exists_use hcolumn
    have htable := hrepresents.table
    rw [hschema] at htable
    by_cases hwildcard : use.isWildcard
    · -- the table of the wildcard is one that has been checked
      rw [TableOf, if_pos hwildcard] at htable
      exact htable.2
    · rw [TableOf, if_neg hwildcard] at htable
      exact hwithin n hn use huse hwildcard _ htable

theorem Encoding.mem_choices_ofDerivation {d : Derivation Literal} {symbol : Symbol} {choice : Nat}
    (hsymbol : symbol ∈ [Symbol.a, .c, .t]) :
    choice ∈ Token.choices symbol (ofDerivation d).tokens ↔
      ∃ column ∈ d.deepColumns, column.choice symbol = choice := by
  rw [ofDerivation_eq, Derivation.choices_tokens hsymbol, Derivation.deepColumns_map, List.mem_map]

/-- **The ids in the tokens.**  Identities of columns are always those of the schema; tables are
exactly if the owners of the columns that are encoded are.  A well-shaped query fails only over
what the description lacks. -/
theorem Query.encode_bounds (entry : SchemaEntry) (question query : String) (maxConditions : Nat)
    (q : Query) :
    (∀ e, (q.encode { schema := .ofEntry entry, question, query, maxConditions }).outcome =
        .ok e →
      (∀ c ∈ Token.choices .c e.tokens, c < (Schema.ofEntry entry).identities.length) ∧
        ((∀ t ∈ Token.choices .t e.tokens, t < entry.tableNames.length) ↔
          q.OwnersWithin entry)) ∧
      ∀ failure, (q.encode
          { schema := .ofEntry entry, question, query, maxConditions }).outcome = .error failure →
        q.setOperations.length ≤ 1 → (∀ n ∈ q.expanded, n.WellShaped maxConditions) →
        failure.Outside entry := by
  constructor
  · intro e h
    obtain ⟨d, hd, rfl⟩ := encode_eq_ok_iff.mp h
    constructor
    · intro c hc
      obtain ⟨column, hcolumn, rfl⟩ := (Encoding.mem_choices_ofDerivation (by simp)).mp hc
      exact hd.identity_lt hcolumn
    · have ht : Symbol.t ∈ [Symbol.a, .c, .t] := by simp
      rw [← hd.table_lt_iff rfl]
      simp only [Encoding.mem_choices_ofDerivation ht, forall_exists_index, and_imp,
        forall_apply_eq_imp_iff₂, Column.choice]
  · intro failure h operations shaped
    exact (failsOnly_outside rfl operations shaped).of_error failure h

namespace Sample

/-- A description in which a column belongs to a table that is not there. -/
def strayEntry : SchemaEntry where
  name := "d"
  tableNames := ["t"]
  columns := [(-1, "*"), (5, "x")]

/-- `SELECT x FROM t` -/
def stray : Query where
  selectList := .single 1
  sources := [.table 0]

/-- The encoding of the query over that description. -/
def strayEncoding : Encoding where
  tokens := [⟨.root1, 3⟩, ⟨.root, 5⟩, ⟨.sel, 0⟩, ⟨.n, 0⟩, ⟨.a, 0⟩, ⟨.c, 1⟩, ⟨.t, 5⟩]
  values := []

end Sample

/-- An owner that is not there is encoded all the same. -/
theorem Query.encode_stray :
    (Sample.stray.encode { schema := .ofEntry Sample.strayEntry }).outcome =
        .ok Sample.strayEncoding ∧
      ¬ ∀ t ∈ Token.choices .t Sample.strayEncoding.tokens,
        t < Sample.strayEntry.tableNames.length := by
  decide

/-! ### All queries over a description -/

/-- The query that selects one column. -/
def Query.selecting (id : Nat) : Query where
  selectList := .single id
  sources := []

theorem ColumnUse.isWildcard_plain {id : Nat} : (plain id).isWildcard ↔ id = wildcardColumn := by
  simp [isWildcard, plain]

theorem Query.expanded_selecting (id : Nat) : (selecting id).expanded = [selecting id] := by
  simp [expanded, expansion_eq, conditions, setOperations, selecting]

theorem Query.encodedColumns_selecting (id : Nat) :
    (selecting id).encodedColumns = [.plain id] := by
  simp [encodedColumns, selecting, conditions, SelectList.single, Term.plain]

theorem Query.wellShaped_selecting (id maxConditions : Nat) :
    (selecting id).WellShaped maxConditions where
  one_le_width := by simp [selecting, SelectList.single]
  width_le := by simp [selecting, SelectList.single]
  count := by simp [selecting, Conditions.items]
  order := by simp [selecting]
  conditions := by simp [selecting, Query.conditions]

theorem Query.derive_selecting {id table : Nat} (hschema : context.schema = .ofEntry entry)
    (hid : id ≠ wildcardColumn)
    (howner : (Schema.ofEntry entry).owners[id]? = some (some table)) :
    ∃ r, ((selecting id).derive context).outcome = .ok r := by
  have hlt : id < entry.columns.length := by
    simpa [Schema.ofEntry] using (List.getElem?_eq_some_iff.mp howner).1
  rw [derive_succeeds_iff, hschema]
  intro n hn
  obtain rfl : n = selecting id := by
    have hmem : n ∈ (selecting id).expanded := List.mem_append_left _ hn
    simpa [expanded_selecting] using hmem
  refine ⟨wellShaped_selecting id _, ?_⟩
  rw [encodedColumns_selecting, List.forall_mem_singleton]
  refine ⟨Schema.exists_columnIdentity_ofEntry_iff.mpr hlt, table, ?_⟩
  rw [TableOf, if_neg (mt ColumnUse.isWildcard_plain.mp hid)]
  exact howner

/-- Whatever is encoded over a description, the tables in the tokens are its own exactly if every
column but the first belongs to one of them or to none. -/
theorem Query.tables_within_iff (hschema : context.schema = .ofEntry entry) :
    (∀ (q : Query) (e : Encoding), (q.encode context).outcome = .ok e →
        ∀ t ∈ Token.choices .t e.tokens, t < entry.tableNames.length) ↔
      ∀ id table, id ≠ wildcardColumn → (Schema.ofEntry entry).owners[id]? = some (some table) →
        table < entry.tableNames.length := by
  have ht : Symbol.t ∈ [Symbol.a, .c, .t] := by simp
  constructor
  · intro hall id table hid howner
    -- the query that selects the column puts its owner into the tokens
    obtain ⟨r, hr⟩ := derive_selecting hschema hid howner
    have hd : (selecting id).DerivedAs context (.single r) := .single rfl hr
    have hwithin : (selecting id).OwnersWithin entry := by
      rw [← hd.table_lt_iff hschema]
      intro column hcolumn
      apply hall (selecting id) _ (encode_eq_ok_iff.mpr ⟨_, hd, rfl⟩)
      exact (Encoding.mem_choices_ofDerivation ht).mpr ⟨column, hcolumn, rfl⟩
    apply hwithin (selecting id) _ (.plain id) _ _ table howner
    · simp [expanded_selecting]
    · simp [encodedColumns_selecting]
    · exact mt ColumnUse.isWildcard_plain.mp hid
  · intro howners q e h t hmem
    obtain ⟨d, hd, rfl⟩ := encode_eq_ok_iff.mp h
    obtain ⟨column, hcolumn, rfl⟩ := (Encoding.mem_choices_ofDerivation ht).mp hmem
    refine (hd.table_lt_iff hschema).mpr ?_ column hcolumn
    intro n _ use _ hwildcard table
    exact howners use.column table (by simpa [ColumnUse.isWildcard] using hwildcard)

end QueryGrammar
