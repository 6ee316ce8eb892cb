/-
QueryGrammar/Proofs/WildcardRules.lean

The rules for the table of the wildcard, told by sets.

Two sets matter when FROM has not exactly one source: the tables that FROM lists itself
(`Query.tableSet`) and the tables that telltale columns belong to (`Query.ownerSet`).
`Query.Picks` has one case for each rule.  Each tells whether the table is a guess, and the table
that is picked or the failure.

Main result: exactly one rule applies (`Query.exists_picks`, `Query.Picks.unique`), and the wildcard
is resolved as it says (`Context.candidateTable_of_picks`): the table has to be one of the schema,
and a guess, and nothing else, leaves a notice (`Context.wildcardTable_rules`).
-/
import Mathlib.Data.Finset.Card
import QueryGrammar.Proofs.Lookup

namespace QueryGrammar

theorem Schema.checkTable_eq_unknownTable_iff {schema : Schema} {table table' : Nat} :
    schema.checkTable table = .error (.unknownTable table') ↔
      table = table' ∧ schema.tableNames.length ≤ table' := by
  rw [checkTable_eq_error_iff]
  constructor
  · rintro ⟨hle, ⟨⟩⟩
    exact ⟨rfl, hle⟩
  · rintro ⟨rfl, hle⟩
    exact ⟨hle, rfl⟩

namespace Query

/-! ### The rules -/

/-- The tables that FROM lists itself. -/
def tableSet (q : Query) : Finset Nat := q.tables.toFinset

/-- The tables that telltale columns belong to. -/
def ownerSet (schema : Schema) (q : Query) : Finset Nat :=
  (q.telltaleColumns.filterMap fun column => schema.owners[column]?.join).toFinset

/-- What the rules say of the table of the wildcard: whether it is a guess, and the table that is
picked, whether or not the schema has it, or the failure. -/
inductive Picks (schema : Schema) (q : Query) : Bool → Except Failure Nat → Prop
  /-- The single source is a table. -/
  | table {id : Nat} (sources : q.sources = [.table id]) : Picks schema q false (.ok id)
  /-- The single source is a query, and its first table is picked. -/
  | query {n : Query} (sources : q.sources = [.query n]) : Picks schema q false n.firstTable
  /-- A telltale column, the first such, is not in the schema. -/
  | unknown {id : Nat} (sources : q.sources.length ≠ 1)
      (first : q.telltaleColumns.find? (schema.owners.length ≤ ·) = some id) :
      Picks schema q false (.error (.unknownColumn id))
  /-- One table is left. -/
  | only {table : Nat} (sources : q.sources.length ≠ 1) (known : q.KnowsTelltales schema)
      (left : q.tableSet \ q.ownerSet schema = {table}) : Picks schema q false (.ok table)
  /-- No table is left, and the first grouping column belongs to one. -/
  | grouping {use : ColumnUse} {rest : List ColumnUse} {table : Nat}
      (sources : q.sources.length ≠ 1) (known : q.KnowsTelltales schema)
      (left : q.tableSet \ q.ownerSet schema = ∅) (groupBy : q.groupBy = use :: rest)
      (owner : schema.owners[use.column]? = some (some table)) : Picks schema q false (.ok table)
  /-- No table is left, and the first grouping column is not in the schema. -/
  | unknownGrouping {use : ColumnUse} {rest : List ColumnUse} (sources : q.sources.length ≠ 1)
      (known : q.KnowsTelltales schema) (left : q.tableSet \ q.ownerSet schema = ∅)
      (groupBy : q.groupBy = use :: rest) (missing : schema.owners.length ≤ use.column) :
      Picks schema q false (.error (.unknownColumn use.column))
  /-- Several tables are left, or none and there is no grouping column that belongs to one: the
  first table is a guess. -/
  | guess (sources : q.sources.length ≠ 1) (known : q.KnowsTelltales schema)
      (left : (q.tableSet \ q.ownerSet schema).card ≠ 1)
      (unowned : q.tableSet \ q.ownerSet schema = ∅ →
        ∀ use rest, q.groupBy = use :: rest → schema.owners[use.column]? = some none) :
      Picks schema q true q.firstTable

variable {schema : Schema} {q : Query}

/-! ### The tables that are left -/

theorem mem_ownerSet {table : Nat} : table ∈ q.ownerSet schema ↔ q.Claims schema table := by
  simp [ownerSet, Claims, Option.join_eq_some_iff]

theorem mem_left {table : Nat} :
    table ∈ q.tableSet \ q.ownerSet schema ↔ q.Unclaimed schema table := by
  rw [Finset.mem_sdiff, mem_ownerSet, tableSet, List.mem_toFinset, Unclaimed]

theorem left_eq_empty_iff :
    q.tableSet \ q.ownerSet schema = ∅ ↔ q.unclaimedTables schema = [] := by
  simp only [Finset.eq_empty_iff_forall_notMem, mem_left, unclaimedTables_eq_nil_iff]

theorem left_eq_singleton_iff {table : Nat} :
    q.tableSet \ q.ownerSet schema = {table} ↔ q.unclaimedTables schema = [table] := by
  simp only [Finset.ext_iff, Finset.mem_singleton, mem_left, unclaimedTables_eq_singleton_iff]

theorem remainingTables_of_known (h : q.KnowsTelltales schema) :
    q.remainingTables schema = .ok (q.unclaimedTables schema) :=
  remainingTables_eq_ok_iff.mpr ⟨h, rfl⟩

/-- The first column that is not in the schema stops the look-up of the owners. -/
theorem mapM_tableOf_of_find? {columns : List Nat} {id : Nat}
    (h : columns.find? (schema.owners.length ≤ ·) = some id) :
    columns.mapM schema.tableOf = .error (.unknownColumn id) := by
  induction columns with
  | nil => simp at h
  | cons column columns ih =>
    rw [List.mapM_cons]
    by_cases hcolumn : schema.owners.length ≤ column
    · obtain rfl : column = id := by simpa [hcolumn] using h
      simp [Schema.tableOf, hcolumn, Bind.bind, Except.bind]
    · have hfind : columns.find? (schema.owners.length ≤ ·) = some id := by
        simpa [hcolumn] using h
      have hlookup : schema.owners[column]? = some schema.owners[column] :=
        List.getElem?_eq_getElem (Nat.not_le.mp hcolumn)
      simp [Schema.tableOf, hlookup, ih hfind, Bind.bind, Except.bind]

theorem remainingTables_of_find? {id : Nat}
    (h : q.telltaleColumns.find? (schema.owners.length ≤ ·) = some id) :
    q.remainingTables schema = .error (.unknownColumn id) := by
  rw [remainingTables, mapM_tableOf_of_find? h]
  rfl

theorem groupingTable?_of_missing {use : ColumnUse} {rest : List ColumnUse}
    (groupBy : q.groupBy = use :: rest) (missing : schema.owners.length ≤ use.column) :
    q.groupingTable? schema = .error (.unknownColumn use.column) := by
  simp [groupingTable?, groupBy, Schema.tableOf, missing]

/-! ### Some rule applies -/

theorem exists_picks_of_known (many : q.sources.length ≠ 1) (known : q.KnowsTelltales schema) :
    ∃ guess outcome, q.Picks schema guess outcome := by
  by_cases hone : ∃ table, q.tableSet \ q.ownerSet schema = {table}
  · obtain ⟨table, hone⟩ := hone
    exact ⟨_, _, .only many known hone⟩
  · rw [← Finset.card_eq_one] at hone
    by_cases hempty : q.tableSet \ q.ownerSet schema = ∅
    · rcases hgroup : q.groupBy with _ | ⟨use, rest⟩
      · exact ⟨_, _, .guess many known hone (by simp [hgroup])⟩
      · -- the first grouping column is missing, belongs to no table, or to one
        rcases howner : schema.owners[use.column]? with _ | _ | table
        · exact ⟨_, _, .unknownGrouping many known hempty hgroup
            (List.getElem?_eq_none_iff.mp howner)⟩
        · refine ⟨_, _, .guess many known hone fun _ use' rest' h => ?_⟩
          rw [hgroup, List.cons.injEq] at h
          rw [← h.1, howner]
        · exact ⟨_, _, .grouping many known hempty hgroup howner⟩
    · exact ⟨_, _, .guess many known hone fun h => absurd h hempty⟩

/-- Some rule applies to every query. -/
theorem exists_picks (schema : Schema) (q : Query) :
    ∃ guess outcome, q.Picks schema guess outcome := by
  by_cases hlength : q.sources.length = 1
  · obtain ⟨source, hsource⟩ := List.length_eq_one_iff.mp hlength
    rcases source with id | n
    · exact ⟨_, _, .table hsource⟩
    · exact ⟨_, _, .query hsource⟩
  · rcases hfind : q.telltaleColumns.find? (schema.owners.length ≤ ·) with _ | id
    · apply exists_picks_of_known hlength
      intro column hcolumn
      simpa using List.find?_eq_none.mp hfind column hcolumn
    · exact ⟨_, _, .unknown hlength hfind⟩

end Query

/-! ### The rule that applies is followed -/

namespace Context

variable {context : Context} {q : Query} {guess : Bool} {outcome : Except Failure Nat}

/-- What is noticed about the table of a wildcard: that it is a guess, if it is one. -/
def wildcardNotices (context : Context) (guess : Bool) : List Notice :=
  if guess then [.ambiguousWildcard context.question context.query] else []

theorem guessTable_eq : context.guessTable q = ⟨context.wildcardNotices true, q.firstTable⟩ := by
  rcases h : q.firstTable with e | table <;>
    simp [guessTable, h, Bind.bind, Logged.bind, Logged.notice, wildcardNotices, liftM, monadLift,
      MonadLift.monadLift, Logged.ofExcept]

/-- If no table is left, the first grouping column decides. -/
theorem candidateTable_of_empty (many : q.sources.length ≠ 1)
    (known : q.KnowsTelltales context.schema)
    (left : q.tableSet \ q.ownerSet context.schema = ∅) :
    context.candidateTable q = (liftM (q.groupingTable? context.schema) : Logged (Option Nat)) >>=
      fun owner => owner.elim (context.guessTable q) pure := by
  rw [candidateTable_of_length_ne many, Query.remainingTables_of_known known,
    Query.left_eq_empty_iff.mp left]
  exact Logged.pure_bind _ _

/-- If several tables are left, the pick is a guess. -/
theorem candidateTable_of_several (many : q.sources.length ≠ 1)
    (known : q.KnowsTelltales context.schema)
    (card : (q.tableSet \ q.ownerSet context.schema).card ≠ 1)
    (left : q.tableSet \ q.ownerSet context.schema ≠ ∅) :
    context.candidateTable q = context.guessTable q := by
  rw [candidateTable_of_length_ne many, Query.remainingTables_of_known known]
  rcases htables : q.unclaimedTables context.schema with _ | ⟨table, _ | ⟨table', rest⟩⟩
  · exact absurd (Query.left_eq_empty_iff.mpr htables) left
  · rw [Query.left_eq_singleton_iff.mpr htables] at card
    exact absurd (Finset.card_singleton table) card
  · exact Logged.pure_bind _ _

/-- **The rule that applies is followed.** -/
theorem candidateTable_of_picks (h : q.Picks context.schema guess outcome) :
    context.candidateTable q = ⟨context.wildcardNotices guess, outcome⟩ := by
  cases h with
  | @table id sources =>
    have hfirst : q.firstTable = .ok id := by
      rw [Query.firstTable_eq_ok_iff, Query.firstTable?_eq, sources]
      rfl
    rw [candidateTable_of_single sources, hfirst]
    rfl
  | @query n sources =>
    have hfirst : q.firstTable = n.firstTable := by
      apply Query.firstTable_congr
      rw [Query.firstTable?_eq, sources]
      rfl
    rw [candidateTable_of_single sources, hfirst]
    rfl
  | unknown many first =>
    rw [candidateTable_of_length_ne many, Query.remainingTables_of_find? first]
    rfl
  | only many known left =>
    rw [candidateTable_of_length_ne many, Query.remainingTables_of_known known,
      Query.left_eq_singleton_iff.mp left]
    rfl
  | grouping many known left groupBy owner =>
    rw [candidateTable_of_empty many known left,
      Query.groupingTable?_eq_some_iff.mpr ⟨_, _, groupBy, owner⟩]
    rfl
  | unknownGrouping many known left groupBy missing =>
    rw [candidateTable_of_empty many known left, Query.groupingTable?_of_missing groupBy missing]
    rfl
  | guess many known card unowned =>
    by_cases left : q.tableSet \ q.ownerSet context.schema = ∅
    · rw [candidateTable_of_empty many known left,
        Query.groupingTable?_eq_none_iff.mpr (unowned left)]
      show pure none >>= _ = _
      rw [Logged.pure_bind]
      exact guessTable_eq
    · rw [candidateTable_of_several many known card left, guessTable_eq]

end Context

/-- Only one rule applies. -/
theorem Query.Picks.unique {schema : Schema} {q : Query} {guess guess' : Bool}
    {outcome outcome' : Except Failure Nat} (h : q.Picks schema guess outcome)
    (h' : q.Picks schema guess' outcome') : guess = guess' ∧ outcome = outcome' := by
  let context : Context := { schema }
  have hpick : context.candidateTable q = ⟨context.wildcardNotices guess, outcome⟩ :=
    Context.candidateTable_of_picks h
  have hpick' : context.candidateTable q = ⟨context.wildcardNotices guess', outcome'⟩ :=
    Context.candidateTable_of_picks h'
  rw [hpick, Logged.mk.injEq] at hpick'
  refine ⟨?_, hpick'.2⟩
  cases guess <;> cases guess' <;> simp [Context.wildcardNotices] at hpick' ⊢

/-- No rule fails for a table that the schema does not have. -/
theorem Query.Picks.ne_unknownTable {schema : Schema} {q : Query} {guess : Bool}
    {outcome : Except Failure Nat} (h : q.Picks schema guess outcome) (table : Nat) :
    outcome ≠ .error (.unknownTable table) := by
  have hfirst (n : Query) : n.firstTable ≠ .error (.unknownTable table) := by
    rcases h : n.firstTable? with _ | table' <;> simp [firstTable, h]
  cases h with
  | query | guess => exact hfirst _
  | table | unknown | only | grouping | unknownGrouping => simp

namespace Context

variable {context : Context} {q : Query} {guess : Bool} {outcome : Except Failure Nat}

/-- The schema has to have the table that is picked. -/
theorem wildcardTable_of_picks (h : q.Picks context.schema guess outcome) :
    context.wildcardTable q =
      ⟨context.wildcardNotices guess, outcome >>= context.schema.checkTable⟩ := by
  rw [wildcardTable, candidateTable_of_picks h]
  rcases outcome with e | table
  · rfl
  · show Logged.bind _ _ = _
    simp [Logged.bind, liftM, monadLift, MonadLift.monadLift, Logged.ofExcept, Bind.bind,
      Except.bind]

/-- **The wildcard is resolved by the rules.**  Exactly one rule applies to a query, and a notice is
left, and only one, exactly if that rule guesses, also if there is nothing to guess.  The outcome is
the table that the rule picks if the schema has it, and tells that it does not otherwise; the
failure of a rule is the outcome. -/
theorem wildcardTable_rules (entry : SchemaEntry) (question query : String) (maxConditions : Nat)
    (q : Query) :
    let context : Context := { schema := .ofEntry entry, question, query, maxConditions }
    let resolved := context.wildcardTable q
    context.schema.owners.length = context.schema.columnNames.length ∧
      ∃ guess outcome,
        (∀ guess' outcome', q.Picks context.schema guess' outcome' ↔
          guess' = guess ∧ outcome' = outcome) ∧
        resolved.notices = (if guess then [.ambiguousWildcard question query] else []) ∧
        (∀ table, resolved.outcome = .ok table ↔
          outcome = .ok table ∧ table < entry.tableNames.length) ∧
        (∀ table, resolved.outcome = .error (.unknownTable table) ↔
          outcome = .ok table ∧ entry.tableNames.length ≤ table) ∧
        ∀ e, outcome = .error e → resolved.outcome = .error e := by
  intro context resolved
  obtain ⟨guess, outcome, picks⟩ := Query.exists_picks context.schema q
  have hresolved : resolved = _ := wildcardTable_of_picks picks
  refine ⟨by simp [context, Schema.ofEntry], guess, outcome, ?_, ?_, ?_, ?_, ?_⟩
  · intro guess' outcome'
    constructor
    · exact fun picks' => picks'.unique picks
    · rintro ⟨rfl, rfl⟩
      exact picks
  · rw [hresolved]
    rfl
  · intro table
    rw [hresolved, bind_eq_ok_iff]
    constructor
    · rintro ⟨table', houtcome, hcheck⟩
      obtain ⟨rfl, hlt⟩ := Schema.checkTable_eq_ok_iff.mp hcheck
      exact ⟨houtcome, hlt⟩
    · rintro ⟨houtcome, hlt⟩
      exact ⟨table, houtcome, Schema.checkTable_eq_ok_iff.mpr ⟨rfl, hlt⟩⟩
  · intro table
    rw [hresolved]
    rcases outcome with e | table'
    · -- the failure is that of the rule
      refine ⟨fun h => absurd h (picks.ne_unknownTable table), fun h => ?_⟩
      cases h.1
    · rw [Except.ok.injEq]
      exact Schema.checkTable_eq_unknownTable_iff
  · rintro e rfl
    rw [hresolved]
    rfl

end Context

end QueryGrammar
