/-
QueryGrammar/Proofs/Lookup.lean

What the columns of a query stand for over a schema.

A column stands for its identity and for a table.  The table of the wildcard column is stated here
by the sets it depends on: the tables in FROM (`Query.tables`) and those among them that some
telltale column belongs to (`Query.Claims`).  `Query.CandidateTable` has one case for each rule,
and the rules that read the schema need every telltale column to be in it.

`Column.Represents` says what a leaf holds; deriving a column gives exactly such leaves
(`deriveColumn_eq_ok_iff`).
-/
import QueryGrammar.Encoding
import QueryGrammar.Proofs.Outcome

namespace QueryGrammar

/-! ### Single look-ups -/

namespace Schema

variable {schema : Schema} {column table : Nat}

theorem tableOf_eq_ok_iff {owner : Option Nat} :
    schema.tableOf column = .ok owner ↔ schema.owners[column]? = some owner := by
  rcases h : schema.owners[column]? with _ | owner' <;> simp [tableOf, h]

theorem owningTable_eq_ok_iff :
    schema.owningTable column = .ok table ↔ schema.owners[column]? = some (some table) := by
  rw [owningTable, bind_eq_ok_iff]
  constructor
  · rintro ⟨owner, howner, h⟩
    rcases owner with _ | table'
    · cases h
    · cases h
      exact tableOf_eq_ok_iff.mp howner
  · intro h
    exact ⟨some table, tableOf_eq_ok_iff.mpr h, rfl⟩

theorem checkTable_eq_ok_iff {table' : Nat} :
    schema.checkTable table = .ok table' ↔ table = table' ∧ table < schema.tableNames.length := by
  unfold checkTable
  split_ifs with h <;> simp [h]

theorem checkTable_eq_error_iff {e : Failure} :
    schema.checkTable table = .error e ↔
      schema.tableNames.length ≤ table ∧ e = .unknownTable table := by
  unfold checkTable
  split_ifs with h
  · simp [Nat.not_le.mpr h]
  · simp [Nat.not_lt.mp h, eq_comm]

theorem columnIdentity_eq_ok_iff {identity : Nat} :
    schema.columnIdentity column = .ok identity ↔
      ∃ name, schema.columnNames[column]? = some name ∧
        schema.identities.idxOf? name = some identity := by
  unfold columnIdentity
  rcases schema.columnNames[column]? with _ | name
  · simp
  · have hplace : schema.nameTable.places.lookup name = schema.identities.idxOf? name :=
      schema.nameTable.lookup_places name
    rcases h : schema.identities.idxOf? name with _ | identity' <;> simp [hplace, h]

/-- The identity of a column is the place of its name. -/
theorem getElem?_columnIdentity {identity : Nat}
    (h : schema.columnIdentity column = .ok identity) :
    ∃ name, schema.columnNames[column]? = some name ∧
      schema.identities[identity]? = some name := by
  obtain ⟨name, hname, hidx⟩ := columnIdentity_eq_ok_iff.mp h
  obtain ⟨hlt, heq, -⟩ := List.findIdx?_eq_some_iff_getElem.mp hidx
  refine ⟨name, hname, ?_⟩
  rw [List.getElem?_eq_getElem hlt, beq_iff_eq.mp heq]

theorem columnIdentity_lt {identity : Nat} (h : schema.columnIdentity column = .ok identity) :
    identity < schema.identities.length := by
  obtain ⟨name, -, hidentity⟩ := getElem?_columnIdentity h
  exact (List.getElem?_eq_some_iff.mp hidentity).1

/-- Over the schema of a description every column that it lists has an identity. -/
theorem exists_columnIdentity_ofEntry_iff {entry : SchemaEntry} :
    (∃ identity, (ofEntry entry).columnIdentity column = .ok identity) ↔
      column < entry.columns.length := by
  constructor
  · rintro ⟨identity, h⟩
    obtain ⟨name, hname, -⟩ := columnIdentity_eq_ok_iff.mp h
    simpa [ofEntry] using (List.getElem?_eq_some_iff.mp hname).1
  · intro h
    have hmem : entry.columns[column].2 ∈ (ofEntry entry).identities :=
      NameTable.mem_names_foldl_add.mpr (.inr (List.mem_map_of_mem (List.getElem_mem h)))
    obtain ⟨identity, hidentity⟩ :=
      Option.isSome_iff_exists.mp (List.isSome_idxOf?.mpr hmem)
    exact ⟨identity, columnIdentity_eq_ok_iff.mpr ⟨_, by simp [ofEntry, h], hidentity⟩⟩

/-- A look-up of a column fails exactly if the description does not list the column. -/
theorem columnIdentity_ofEntry_eq_error_iff {entry : SchemaEntry} {e : Failure} :
    (ofEntry entry).columnIdentity column = .error e ↔
      entry.columns.length ≤ column ∧ e = .unknownColumn column := by
  constructor
  · intro he
    have hcolumn : ¬ column < entry.columns.length := by
      intro hlt
      obtain ⟨i, hok⟩ := exists_columnIdentity_ofEntry_iff.mpr hlt
      rw [hok] at he
      cases he
    unfold columnIdentity at he
    split at he
    · cases he
    · cases he
      exact ⟨Nat.not_lt.mp hcolumn, rfl⟩
  · rintro ⟨hcolumn, rfl⟩
    simp [columnIdentity, ofEntry, hcolumn]

theorem tableOf_ofEntry_eq_error_iff {entry : SchemaEntry} {e : Failure} :
    (ofEntry entry).tableOf column = .error e ↔
      entry.columns.length ≤ column ∧ e = .unknownColumn column := by
  have hlength : entry.columns.length = (ofEntry entry).owners.length := by simp [ofEntry]
  rw [hlength, ← List.getElem?_eq_none_iff]
  rcases h : (ofEntry entry).owners[column]? with _ | owner <;> simp [tableOf, h, eq_comm]

end Schema

/-! ### The table of the wildcard -/

namespace Query

variable (schema : Schema) (q : Query)

/-- A telltale column of the query belongs to the table. -/
def Claims (table : Nat) : Prop :=
  ∃ column ∈ q.telltaleColumns, schema.owners[column]? = some (some table)

instance (table : Nat) : Decidable (q.Claims schema table) :=
  inferInstanceAs (Decidable (∃ column ∈ q.telltaleColumns, _))

/-- A table that FROM lists and no telltale column belongs to. -/
def Unclaimed (table : Nat) : Prop := table ∈ q.tables ∧ ¬ q.Claims schema table

/-- Every telltale column of the query is in the schema. -/
def KnowsTelltales : Prop := ∀ column ∈ q.telltaleColumns, column < schema.owners.length

/-- The table that the rules pick for the wildcard, whether or not the schema has it. -/
inductive CandidateTable : Nat → Prop
  /-- The table that the single source is, or begins with. -/
  | single {source : Source} {table : Nat} (sources : q.sources = [source])
      (first : q.firstTable? = some table) : CandidateTable table
  /-- The only unclaimed table. -/
  | unclaimed {table : Nat} (sources : q.sources.length ≠ 1) (known : q.KnowsTelltales schema)
      (only : ∀ table', q.Unclaimed schema table' ↔ table' = table) : CandidateTable table
  /-- The owner of the first grouping column, when every table is claimed. -/
  | grouping {use : ColumnUse} {rest : List ColumnUse} {table : Nat}
      (sources : q.sources.length ≠ 1) (known : q.KnowsTelltales schema)
      (claimed : ∀ table', ¬ q.Unclaimed schema table') (groupBy : q.groupBy = use :: rest)
      (owner : schema.owners[use.column]? = some (some table)) : CandidateTable table
  /-- The first table in FROM, when every table is claimed and there is no grouping column with an
  owner. -/
  | guessClaimed {table : Nat} (sources : q.sources.length ≠ 1) (known : q.KnowsTelltales schema)
      (claimed : ∀ table', ¬ q.Unclaimed schema table')
      (unowned : ∀ use rest, q.groupBy = use :: rest → schema.owners[use.column]? = some none)
      (first : q.firstTable? = some table) : CandidateTable table
  /-- The first table in FROM, when several are unclaimed. -/
  | guessUnclaimed {table a b : Nat} (sources : q.sources.length ≠ 1)
      (known : q.KnowsTelltales schema) (unclaimed_left : q.Unclaimed schema a)
      (unclaimed_right : q.Unclaimed schema b) (several : a ≠ b)
      (first : q.firstTable? = some table) : CandidateTable table

/-- The table that the wildcard stands for: the schema has to have the one that is picked. -/
def WildcardTable (table : Nat) : Prop :=
  q.CandidateTable schema table ∧ table < schema.tableNames.length

end Query

/-! ### Picking the table -/

theorem eraseDups_eq_nil_iff {l : List Nat} : l.eraseDups = [] ↔ l = [] := by
  rcases l with _ | ⟨a, l⟩ <;> simp [List.eraseDups_cons]

theorem eraseDups_eq_singleton_iff {l : List Nat} {a : Nat} :
    l.eraseDups = [a] ↔ ∀ b, b ∈ l ↔ b = a := by
  rcases l with _ | ⟨c, l⟩
  · simp only [List.eraseDups_nil, List.not_mem_nil, false_iff, reduceCtorEq]
    exact fun h => h a rfl
  · rw [List.eraseDups_cons, List.cons.injEq, eraseDups_eq_nil_iff, List.filter_eq_nil_iff]
    constructor
    · rintro ⟨rfl, h⟩ b
      simp only [List.mem_cons, or_iff_left_iff_imp]
      intro hb
      simpa using h b hb
    · intro h
      obtain rfl : c = a := (h c).mp (by simp)
      exact ⟨rfl, fun b hb => by simpa using (h b).mp (by simp [hb])⟩

theorem eraseDups_eq_cons_cons {l l' : List Nat} {a b : Nat} (h : l.eraseDups = a :: b :: l') :
    a ∈ l ∧ b ∈ l ∧ a ≠ b := by
  rcases l with _ | ⟨c, l⟩
  · simp at h
  · rw [List.eraseDups_cons, List.cons.injEq] at h
    obtain ⟨rfl, h⟩ := h
    -- the second item survived the removal of the first
    have hb : b ∈ l.filter fun x => !x == c := by
      rw [← List.mem_eraseDups, h]
      simp
    rw [List.mem_filter] at hb
    exact ⟨by simp, by simp [hb.1], fun hcb => by simp [hcb] at hb⟩

namespace Query

variable {schema : Schema} {q : Query}

theorem firstTable_eq_ok_iff {table : Nat} :
    q.firstTable = .ok table ↔ q.firstTable? = some table := by
  rcases h : q.firstTable? with _ | table' <;> simp [firstTable, h]

theorem groupingTable?_eq_some_iff {table : Nat} :
    q.groupingTable? schema = .ok (some table) ↔ ∃ use rest,
      q.groupBy = use :: rest ∧ schema.owners[use.column]? = some (some table) := by
  unfold groupingTable?
  split
  · next hgroup => simp [hgroup]
  · next use rest hgroup => simp [hgroup, Schema.tableOf_eq_ok_iff]

theorem groupingTable?_eq_none_iff :
    q.groupingTable? schema = .ok none ↔
      ∀ use rest, q.groupBy = use :: rest → schema.owners[use.column]? = some none := by
  unfold groupingTable?
  split
  · next hgroup => simp [hgroup]
  · next use rest hgroup => simp [hgroup, Schema.tableOf_eq_ok_iff]

theorem mapM_tableOf_eq_ok_iff {columns : List Nat} {owners : List (Option Nat)} :
    columns.mapM schema.tableOf = .ok owners ↔
      (∀ column ∈ columns, column < schema.owners.length) ∧
        owners = columns.map fun column => schema.owners.getD column none := by
  simp only [mapM_eq_ok_iff, Schema.tableOf_eq_ok_iff]
  induction columns generalizing owners with
  | nil => simp
  | cons column columns ih =>
    simp only [List.forall₂_cons_left_iff, ih, List.forall_mem_cons, List.map_cons]
    constructor
    · rintro ⟨owner, owners', howner, ⟨hlt, rfl⟩, rfl⟩
      exact ⟨⟨(List.getElem?_eq_some_iff.mp howner).1, hlt⟩, by simp [howner]⟩
    · rintro ⟨⟨hcolumn, hlt⟩, rfl⟩
      exact ⟨_, _, by simp [hcolumn], ⟨hlt, rfl⟩, rfl⟩

theorem mem_owners_iff_claims {table : Nat} :
    some table ∈ q.telltaleColumns.map (fun column => schema.owners.getD column none) ↔
      q.Claims schema table := by
  rw [List.mem_map]
  refine exists_congr fun column => and_congr_right fun _ => ?_
  rcases h : schema.owners[column]? with _ | owner <;> simp [h]

/-- The unclaimed tables in FROM, each once. -/
def unclaimedTables (schema : Schema) (q : Query) : List Nat :=
  (q.tables.filter fun table => ¬ q.Claims schema table).eraseDups

theorem remainingTables_eq_ok_iff {tables : List Nat} :
    q.remainingTables schema = .ok tables ↔
      q.KnowsTelltales schema ∧ tables = q.unclaimedTables schema := by
  rw [remainingTables, bind_eq_ok_iff]
  simp only [mapM_tableOf_eq_ok_iff, unclaimedTables]
  constructor
  · rintro ⟨owners, ⟨known, rfl⟩, h⟩
    cases h
    refine ⟨known, ?_⟩
    simp only [List.contains_eq_mem, mem_owners_iff_claims, decide_not]
  · rintro ⟨known, rfl⟩
    refine ⟨_, ⟨known, rfl⟩, ?_⟩
    simp only [List.contains_eq_mem, mem_owners_iff_claims, decide_not]
    rfl

theorem mem_filter_claims {table : Nat} :
    table ∈ q.tables.filter (fun table => ¬ q.Claims schema table) ↔ q.Unclaimed schema table := by
  simp [Unclaimed]

theorem unclaimedTables_eq_nil_iff :
    q.unclaimedTables schema = [] ↔ ∀ table, ¬ q.Unclaimed schema table := by
  rw [unclaimedTables, eraseDups_eq_nil_iff, List.eq_nil_iff_forall_not_mem]
  simp only [mem_filter_claims]

theorem unclaimedTables_eq_singleton_iff {table : Nat} :
    q.unclaimedTables schema = [table] ↔ ∀ table', q.Unclaimed schema table' ↔ table' = table := by
  rw [unclaimedTables, eraseDups_eq_singleton_iff]
  simp only [mem_filter_claims]

theorem unclaimed_of_cons_cons {a b : Nat} {l : List Nat}
    (h : q.unclaimedTables schema = a :: b :: l) :
    q.Unclaimed schema a ∧ q.Unclaimed schema b ∧ a ≠ b := by
  simpa only [mem_filter_claims] using eraseDups_eq_cons_cons h

end Query

namespace Context

variable {context : Context} {q : Query}

theorem outcome_guessTable : (context.guessTable q).outcome = q.firstTable := by
  rw [guessTable, Logged.outcome_bind]
  rfl

/-- With several sources, or none, the pick depends on how many tables are unclaimed. -/
theorem candidateTable_of_length_ne (h : q.sources.length ≠ 1) : context.candidateTable q =
    (liftM (q.remainingTables context.schema) : Logged (List Nat)) >>= fun tables =>
      match tables with
      | [table] => pure table
      | [] => liftM (q.groupingTable? context.schema) >>= fun owner =>
        owner.elim (context.guessTable q) pure
      | _ => context.guessTable q := by
  unfold candidateTable
  split
  · next source hsources => simp [hsources] at h
  · refine bind_congr fun tables => ?_
    rcases tables with _ | ⟨table, _ | ⟨table', rest⟩⟩
    · exact bind_congr fun owner => by rcases owner with _ | table <;> rfl
    · rfl
    · rfl

/-- A guess differs from the first table in what it logs, not in its outcome. -/
theorem candidateTable_eq_of_length_ne (h : q.sources.length ≠ 1) :
    (context.candidateTable q).outcome = q.remainingTables context.schema >>= fun tables =>
      match tables with
      | [table] => .ok table
      | [] => q.groupingTable? context.schema >>= fun owner => owner.elim q.firstTable .ok
      | _ => q.firstTable := by
  rw [candidateTable_of_length_ne h, Logged.outcome_bind, Logged.outcome_liftM]
  refine bind_congr fun tables => ?_
  rcases tables with _ | ⟨table, _ | ⟨table', rest⟩⟩
  · rw [Logged.outcome_bind, Logged.outcome_liftM]
    refine bind_congr fun owner => ?_
    rcases owner with _ | table
    · exact outcome_guessTable
    · rfl
  · rfl
  · exact outcome_guessTable

/-- With one source, its first table is picked. -/
theorem candidateTable_of_single {source : Source} (h : q.sources = [source]) :
    context.candidateTable q = ⟨[], q.firstTable⟩ := by
  rw [candidateTable, h]
  rfl

theorem candidate_of_candidateTable {table : Nat} (hlength : q.sources.length ≠ 1)
    (h : (context.candidateTable q).outcome = .ok table) :
    q.CandidateTable context.schema table := by
  rw [candidateTable_eq_of_length_ne hlength, bind_eq_ok_iff] at h
  obtain ⟨tables, htables, h⟩ := h
  obtain ⟨known, htables⟩ := Query.remainingTables_eq_ok_iff.mp htables
  -- the pick depends on whether no table, one or several are unclaimed
  rcases tables with _ | ⟨a, _ | ⟨b, rest⟩⟩
  · have claimed := Query.unclaimedTables_eq_nil_iff.mp htables.symm
    obtain ⟨owner, howner, h⟩ := bind_eq_ok_iff.mp h
    rcases owner with _ | table'
    · refine .guessClaimed hlength known claimed ?_ (Query.firstTable_eq_ok_iff.mp h)
      exact Query.groupingTable?_eq_none_iff.mp howner
    · obtain rfl : table' = table := by simpa using h
      obtain ⟨use, rest, groupBy, owner⟩ := Query.groupingTable?_eq_some_iff.mp howner
      exact .grouping hlength known claimed groupBy owner
  · obtain rfl : a = table := by simpa using h
    exact .unclaimed hlength known (Query.unclaimedTables_eq_singleton_iff.mp htables.symm)
  · obtain ⟨ha, hb, hab⟩ := Query.unclaimed_of_cons_cons htables.symm
    exact .guessUnclaimed hlength known ha hb hab (Query.firstTable_eq_ok_iff.mp h)

theorem candidateTable_of_candidate {table : Nat} (hlength : q.sources.length ≠ 1)
    (h : q.CandidateTable context.schema table) :
    (context.candidateTable q).outcome = .ok table := by
  rw [candidateTable_eq_of_length_ne hlength, bind_eq_ok_iff]
  cases h with
  | single sources => simp [sources] at hlength
  | unclaimed _ known only =>
    have htables := Query.unclaimedTables_eq_singleton_iff.mpr only
    exact ⟨_, Query.remainingTables_eq_ok_iff.mpr ⟨known, htables.symm⟩, rfl⟩
  | grouping _ known claimed groupBy owner =>
    have htables := Query.unclaimedTables_eq_nil_iff.mpr claimed
    have howner := Query.groupingTable?_eq_some_iff.mpr ⟨_, _, groupBy, owner⟩
    refine ⟨_, Query.remainingTables_eq_ok_iff.mpr ⟨known, htables.symm⟩, ?_⟩
    exact bind_eq_ok_iff.mpr ⟨_, howner, rfl⟩
  | guessClaimed _ known claimed unowned first =>
    have htables := Query.unclaimedTables_eq_nil_iff.mpr claimed
    have howner := Query.groupingTable?_eq_none_iff.mpr unowned
    refine ⟨_, Query.remainingTables_eq_ok_iff.mpr ⟨known, htables.symm⟩, ?_⟩
    exact bind_eq_ok_iff.mpr ⟨_, howner, Query.firstTable_eq_ok_iff.mpr first⟩
  | @guessUnclaimed _ a b _ known ha hb hab first =>
    refine ⟨_, Query.remainingTables_eq_ok_iff.mpr ⟨known, rfl⟩, ?_⟩
    -- two different tables are unclaimed, so the list is neither empty nor a singleton
    rcases htables : q.unclaimedTables context.schema with _ | ⟨c, _ | ⟨d, rest⟩⟩
    · exact absurd ha (Query.unclaimedTables_eq_nil_iff.mp htables a)
    · have only := Query.unclaimedTables_eq_singleton_iff.mp htables
      exact absurd (((only a).mp ha).trans ((only b).mp hb).symm) hab
    · exact Query.firstTable_eq_ok_iff.mpr first

/-- The rules are what picks the table. -/
theorem candidateTable_eq_ok_iff {table : Nat} :
    (context.candidateTable q).outcome = .ok table ↔ q.CandidateTable context.schema table := by
  by_cases hlength : q.sources.length = 1
  · obtain ⟨source, hsources⟩ := List.length_eq_one_iff.mp hlength
    rw [candidateTable_of_single hsources]
    show q.firstTable = .ok table ↔ _
    rw [Query.firstTable_eq_ok_iff]
    constructor
    · exact .single hsources
    · intro h
      cases h with
      | single _ first => exact first
      | unclaimed sources | grouping sources | guessClaimed sources | guessUnclaimed sources =>
        exact absurd hlength sources
  · exact ⟨candidate_of_candidateTable hlength, candidateTable_of_candidate hlength⟩

/-- The wildcard stands for a table exactly if the rules pick it and the schema has it. -/
theorem wildcardTable_eq_ok_iff {table : Nat} :
    (context.wildcardTable q).outcome = .ok table ↔ q.WildcardTable context.schema table := by
  rw [wildcardTable, Logged.outcome_bind_eq_ok_iff]
  simp only [candidateTable_eq_ok_iff, Logged.outcome_liftM, Schema.checkTable_eq_ok_iff]
  constructor
  · rintro ⟨table', h, rfl, hlt⟩
    exact ⟨h, hlt⟩
  · rintro ⟨h, hlt⟩
    exact ⟨table, h, rfl, hlt⟩

end Context

/-! ### What the table of the wildcard depends on -/

namespace Query

variable {schema : Schema} {q q' : Query}

/-- The first table is the first source, or begins it. -/
theorem firstTable?_eq (q : Query) : q.firstTable? = q.sources.head?.bind fun
    | .table id => some id
    | .query n => n.firstTable? := by
  rcases q with ⟨selectList, _ | ⟨_ | _, _⟩⟩ <;> simp [firstTable?]

theorem firstTable?_congr (h : q.sources = q'.sources) : q.firstTable? = q'.firstTable? := by
  rw [firstTable?_eq, firstTable?_eq, h]

theorem firstTable_congr (h : q.firstTable? = q'.firstTable?) : q.firstTable = q'.firstTable := by
  rw [firstTable, firstTable, h]

theorem remainingTables_congr (tables : q.tables = q'.tables)
    (telltales : q.telltaleColumns = q'.telltaleColumns) :
    q.remainingTables schema = q'.remainingTables schema := by
  rw [remainingTables, remainingTables, tables, telltales]

theorem groupingTable?_eq : q.groupingTable? schema =
    (q.groupBy.head?.map ColumnUse.column).elim (.ok none) schema.tableOf := by
  unfold groupingTable?
  rcases q.groupBy with _ | ⟨use, rest⟩ <;> rfl

theorem groupingTable?_congr
    (h : q.groupBy.head?.map ColumnUse.column = q'.groupBy.head?.map ColumnUse.column) :
    q.groupingTable? schema = q'.groupingTable? schema := by
  rw [groupingTable?_eq, groupingTable?_eq, h]

end Query

/-- The table of the wildcard depends on the number of sources and the tables among them, on the
first table, on the telltale columns, and on the first grouping column. -/
theorem Context.wildcardTable_congr {context : Context} {q q' : Query}
    (length : q.sources.length = q'.sources.length) (tables : q.tables = q'.tables)
    (first : q.firstTable? = q'.firstTable?) (telltales : q.telltaleColumns = q'.telltaleColumns)
    (group : q.groupBy.head?.map ColumnUse.column = q'.groupBy.head?.map ColumnUse.column) :
    context.wildcardTable q = context.wildcardTable q' := by
  have hfirst : q.firstTable = q'.firstTable := Query.firstTable_congr first
  have hguess : context.guessTable q = context.guessTable q' := by
    rw [guessTable, guessTable, hfirst]
  have hcandidate : context.candidateTable q = context.candidateTable q' := by
    unfold candidateTable
    -- both queries have a single source, or neither has
    split
    · next source hsources =>
      rw [hsources] at length
      obtain ⟨source', hsources'⟩ := List.length_eq_one_iff.mp length.symm
      rw [hsources', hfirst]
    · next hmany =>
      split
      · next source' hsources' =>
        rw [hsources'] at length
        obtain ⟨source, hsources⟩ := List.length_eq_one_iff.mp length
        exact absurd hsources (hmany source)
      · rw [Query.remainingTables_congr tables telltales, Query.groupingTable?_congr group, hguess]
  rw [wildcardTable, wildcardTable, hcandidate]

/-! ### Columns -/

/-- The table that a column of the query stands for: that of the wildcard, or the owner. -/
def Query.TableOf (schema : Schema) (q : Query) (use : ColumnUse) (table : Nat) : Prop :=
  if use.isWildcard then q.WildcardTable schema table
  else schema.owners[use.column]? = some (some table)

/-- The leaf stands for a column of the query under an aggregate. -/
structure Column.Represents (schema : Schema) (q : Query) (aggregate : Aggregate)
    (use : ColumnUse) (leaf : Column) : Prop where
  aggregate : leaf.aggregate = aggregate
  identity : schema.columnIdentity use.column = .ok leaf.identity
  table : q.TableOf schema use leaf.table

namespace Context

variable {context : Context} {q : Query} {aggregate : Aggregate} {use : ColumnUse}

/-- The table of a column, as it is looked up. -/
def lookUpTable (context : Context) (q : Query) (use : ColumnUse) : Logged Nat :=
  if use.isWildcard then context.wildcardTable q else liftM (context.schema.owningTable use.column)

theorem lookUpTable_eq_ok_iff {table : Nat} :
    (context.lookUpTable q use).outcome = .ok table ↔ q.TableOf context.schema use table := by
  unfold lookUpTable Query.TableOf
  split_ifs
  · exact wildcardTable_eq_ok_iff
  · exact Schema.owningTable_eq_ok_iff

theorem deriveColumn_eq : context.deriveColumn (context.wildcardTable q) aggregate use =
    liftM (context.schema.columnIdentity use.column) >>= fun identity =>
      context.lookUpTable q use >>= fun table => pure { aggregate, identity, table } := by
  unfold deriveColumn lookUpTable
  split_ifs <;> rfl

/-- Deriving a column gives the leaf that stands for it. -/
theorem deriveColumn_eq_ok_iff {leaf : Column} :
    (context.deriveColumn (context.wildcardTable q) aggregate use).outcome = .ok leaf ↔
      leaf.Represents context.schema q aggregate use := by
  rw [deriveColumn_eq]
  simp only [Logged.outcome_bind_eq_ok_iff, Logged.outcome_liftM, lookUpTable_eq_ok_iff,
    Logged.outcome_pure, Except.ok.injEq]
  constructor
  · rintro ⟨identity, hidentity, table, htable, rfl⟩
    exact ⟨rfl, hidentity, htable⟩
  · rintro ⟨rfl, hidentity, htable⟩
    exact ⟨_, hidentity, _, htable, rfl⟩

end Context

end QueryGrammar
