/-
QueryGrammar/Proofs/Fallback.lean

The first table as a guess.

Sources may be queries with sources of their own, so FROM spans a tree.  A table is reached if it
stands anywhere in it (`Query.Reaches`).  The first table is searched for along the first sources
only: from a query to the query that is its first source, and so on (`Relation.ReflTransGen` of
`Query.BeginsWith`).  That way ends at a table, which is the first one
(`Query.firstTable?_eq_some_iff`), or at a query without sources (`Query.RunsDry`,
`Query.firstTable?_eq_none_iff`), and then there is no first table, whatever is reached elsewhere.

Main result: if FROM lists a table and all numbers are within the schema, the wildcard stands for a
table unless the table has to be guessed and the search for it runs dry
(`Context.wildcardTable_of_bounded`).  The latter does happen (`Context.wildcardTable_dry`).
-/
import Mathlib.Logic.Relation
import QueryGrammar.Proofs.Mirror
import QueryGrammar.Proofs.WildcardRules

namespace QueryGrammar

open Relation (ReflTransGen)

namespace Query

/-! ### The tree of sources -/

/-- The query is a source of the other one. -/
def Draws (q n : Query) : Prop := .query n ∈ q.sources

/-- The query is the first source of the other one. -/
def BeginsWith (q n : Query) : Prop := q.sources.head? = some (.query n)

/-- The table is a source of the query, or of a query among its sources at any depth. -/
def Reaches (q : Query) (table : Nat) : Prop :=
  ∃ n, ReflTransGen Draws q n ∧ .table table ∈ n.sources

/-- The first sources lead to a query without sources. -/
def RunsDry (q : Query) : Prop := ∃ n, ReflTransGen BeginsWith q n ∧ n.sources = []

variable {q n : Query} {table : Nat}

/-- What first sources lead to is a source at some depth. -/
theorem draws_of_begins (h : ReflTransGen BeginsWith q n) : ReflTransGen Draws q n :=
  ReflTransGen.mono (fun _ _ hm => List.mem_of_mem_head? hm) _ _ h

theorem reaches_iff : q.Reaches table ↔
    .table table ∈ q.sources ∨ ∃ n, .query n ∈ q.sources ∧ n.Reaches table := by
  constructor
  · rintro ⟨n, hn, htable⟩
    rcases hn.cases_head with rfl | ⟨m, hm, hmn⟩
    · exact .inl htable
    · exact .inr ⟨m, hm, n, hmn, htable⟩
  · rintro (htable | ⟨m, hm, n, hmn, htable⟩)
    · exact ⟨q, .refl, htable⟩
    · exact ⟨n, .head hm hmn, htable⟩

/-! ### The first table -/

/-- The first sources lead to a query without sources, or to one whose first source is a table. -/
theorem exists_last (q : Query) : ∃ n, ReflTransGen BeginsWith q n ∧
    (n.sources = [] ∨ ∃ table, n.sources.head? = some (.table table)) := by
  fun_induction firstTable? q with
  | case1 => exact ⟨_, .refl, .inl rfl⟩
  | case2 => exact ⟨_, .refl, .inr ⟨_, rfl⟩⟩
  | case3 =>
    rename_i ih
    obtain ⟨n, hn, hlast⟩ := ih
    exact ⟨n, .head rfl hn, hlast⟩

/-- Queries that begin with one another have the same first table. -/
theorem firstTable?_of_begins (h : ReflTransGen BeginsWith q n) :
    q.firstTable? = n.firstTable? := by
  induction h using ReflTransGen.head_induction_on with
  | refl => rfl
  | head hm _ ih =>
    rw [firstTable?_eq, hm]
    exact ih

/-- The first table is the one that the first sources lead to. -/
theorem firstTable?_eq_some_iff : q.firstTable? = some table ↔
    ∃ n, ReflTransGen BeginsWith q n ∧ n.sources.head? = some (.table table) := by
  constructor
  · intro h
    obtain ⟨n, hn, hempty | ⟨table', htable⟩⟩ := q.exists_last
    · rw [firstTable?_of_begins hn, firstTable?_eq, hempty] at h
      cases h
    · rw [firstTable?_of_begins hn, firstTable?_eq, htable] at h
      cases h
      exact ⟨n, hn, htable⟩
  · rintro ⟨n, hn, htable⟩
    rw [firstTable?_of_begins hn, firstTable?_eq, htable]
    rfl

/-- There is no first table if the first sources lead nowhere. -/
theorem firstTable?_eq_none_iff : q.firstTable? = none ↔ q.RunsDry := by
  constructor
  · intro h
    obtain ⟨n, hn, hempty | ⟨table, htable⟩⟩ := q.exists_last
    · exact ⟨n, hn, hempty⟩
    · rw [firstTable?_eq_some_iff.mpr ⟨n, hn, htable⟩] at h
      cases h
  · rintro ⟨n, hn, hempty⟩
    rw [firstTable?_of_begins hn, firstTable?_eq, hempty]
    rfl

theorem firstTable_of_runsDry (h : q.RunsDry) : q.firstTable = .error (.malformed .noTable) := by
  rw [firstTable, firstTable?_eq_none_iff.mpr h]

/-- The first table is reached. -/
theorem reaches_of_firstTable? (h : q.firstTable? = some table) : q.Reaches table := by
  obtain ⟨n, hn, htable⟩ := firstTable?_eq_some_iff.mp h
  exact ⟨n, draws_of_begins hn, List.mem_of_mem_head? htable⟩

/-- If no query in FROM is without sources, there is a first table. -/
theorem not_runsDry_of_sources (h : ∀ n, ReflTransGen Draws q n → n.sources ≠ []) :
    ¬ q.RunsDry := by
  rintro ⟨n, hn, hempty⟩
  exact h n (draws_of_begins hn) hempty

/-! ### Numbers within the schema -/

/-- The tables in FROM, and the owners of the columns that decide on the table of the wildcard, are
tables of the description, and these columns are in it. -/
structure Bounded (entry : SchemaEntry) (q : Query) : Prop where
  tables : ∀ table, q.Reaches table → table < entry.tableNames.length
  columns : ∀ column ∈ q.telltaleColumns ++ q.groupBy.map (·.column),
    column < entry.columns.length ∧ ∀ table,
      (Schema.ofEntry entry).owners[column]? = some (some table) → table < entry.tableNames.length

theorem mem_sources_of_mem_tables (h : table ∈ q.tables) : .table table ∈ q.sources := by
  obtain ⟨source, hsource, htable⟩ := List.mem_filterMap.mp h
  rcases source with id | n
  · obtain rfl : id = table := Option.some.inj htable
    exact hsource
  · cases htable

/-- What is guessed is the first table. -/
theorem Picks.eq_firstTable {schema : Schema} {outcome : Except Failure Nat}
    (h : q.Picks schema true outcome) : outcome = q.firstTable := by
  cases h
  rfl

/-- The rule that applies picks a table of the schema, unless it guesses and there is no first
table. -/
theorem Picks.of_bounded {entry : SchemaEntry} {guess : Bool} {outcome : Except Failure Nat}
    (bounded : q.Bounded entry) (direct : q.tables ≠ [])
    (h : q.Picks (Schema.ofEntry entry) guess outcome) :
    (∃ table, outcome = .ok table ∧ table < entry.tableNames.length) ∨
      guess = true ∧ q.RunsDry ∧ outcome = .error (.malformed .noTable) := by
  have htables : ∀ id, .table id ∈ q.sources → id < entry.tableNames.length :=
    fun id hid => bounded.tables id (reaches_iff.mpr (.inl hid))
  have hknown : ∀ column ∈ q.telltaleColumns ++ q.groupBy.map (·.column),
      ¬ (Schema.ofEntry entry).owners.length ≤ column := by
    intro column hcolumn
    have hlt := (bounded.columns column hcolumn).1
    simpa [Schema.ofEntry] using hlt
  cases h with
  | @table id sources =>
    exact .inl ⟨id, rfl, htables id (by simp [sources])⟩
  | query sources =>
    -- a single source that is a query leaves no table in FROM
    simp [tables, sources] at direct
  | @unknown id _ first =>
    have hid := List.mem_of_find?_eq_some first
    exact absurd (by simpa using List.find?_some first) (hknown id (List.mem_append_left _ hid))
  | @only id _ _ left =>
    have hid : id ∈ q.tableSet \ q.ownerSet (Schema.ofEntry entry) :=
      left ▸ Finset.mem_singleton_self id
    have hmem : id ∈ q.tables := List.mem_toFinset.mp (Finset.mem_sdiff.mp hid).1
    exact .inl ⟨id, rfl, htables id (mem_sources_of_mem_tables hmem)⟩
  | @grouping use rest id _ _ _ groupBy owner =>
    have huse : use.column ∈ q.telltaleColumns ++ q.groupBy.map (·.column) := by
      simp [groupBy]
    exact .inl ⟨id, rfl, (bounded.columns _ huse).2 id owner⟩
  | @unknownGrouping use rest _ _ _ groupBy missing =>
    have huse : use.column ∈ q.telltaleColumns ++ q.groupBy.map (·.column) := by
      simp [groupBy]
    exact absurd missing (hknown _ huse)
  | guess =>
    rcases hfirst : q.firstTable? with _ | id
    · refine .inr ⟨rfl, firstTable?_eq_none_iff.mp hfirst, ?_⟩
      rw [firstTable, hfirst]
    · refine .inl ⟨id, firstTable_eq_ok_iff.mpr hfirst, ?_⟩
      exact bounded.tables id (reaches_of_firstTable? hfirst)

end Query

namespace Context

variable {q : Query}

/-- **A guess finds a table, or runs dry.**  If FROM lists a table and all numbers are within the
schema, the wildcard stands for a table, except if the rule that applies is to guess and the first
sources lead to a query without sources; then there is no table, and the notice of the guess is
left all the same.  What is guessed is reached from FROM. -/
theorem wildcardTable_of_bounded (entry : SchemaEntry) (question query : String)
    (maxConditions : Nat) (q : Query) (direct : q.tables ≠ []) (bounded : q.Bounded entry) :
    let context : Context := { schema := .ofEntry entry, question, query, maxConditions }
    let resolved := context.wildcardTable q
    ((∃ table, resolved.outcome = .ok table) ↔
        ¬ (q.RunsDry ∧ ∃ outcome, q.Picks context.schema true outcome)) ∧
      (q.RunsDry → (∃ outcome, q.Picks context.schema true outcome) →
        resolved = ⟨[.ambiguousWildcard question query], .error (.malformed .noTable)⟩) ∧
      ((∀ n, ReflTransGen Query.Draws q n → n.sources ≠ []) →
        ∃ table, resolved.outcome = .ok table) ∧
      (∀ table, q.firstTable? = some table → q.Reaches table) ∧
      (q.firstTable? = none ↔ q.RunsDry) := by
  intro context resolved
  have hdry : q.RunsDry → (∃ outcome, q.Picks context.schema true outcome) →
      resolved = ⟨[.ambiguousWildcard question query], .error (.malformed .noTable)⟩ := by
    rintro dry ⟨outcome, picks⟩
    have hresolved : resolved = _ := wildcardTable_of_picks picks
    rw [hresolved, picks.eq_firstTable, Query.firstTable_of_runsDry dry]
    rfl
  have hfound : (∃ table, resolved.outcome = .ok table) ↔
      ¬ (q.RunsDry ∧ ∃ outcome, q.Picks context.schema true outcome) := by
    constructor
    · rintro ⟨table, hok⟩ ⟨dry, picks⟩
      rw [hdry dry picks] at hok
      cases hok
    · intro hguess
      obtain ⟨guess, outcome, picks⟩ := Query.exists_picks context.schema q
      have hresolved : resolved = _ := wildcardTable_of_picks picks
      obtain ⟨table, rfl, hlt⟩ | ⟨rfl, dry, -⟩ := picks.of_bounded bounded direct
      · refine ⟨table, ?_⟩
        rw [hresolved]
        exact Schema.checkTable_eq_ok_iff.mpr ⟨rfl, hlt⟩
      · exact absurd ⟨dry, outcome, picks⟩ hguess
  refine ⟨hfound, hdry, fun sources => hfound.mpr fun h => ?_, fun table => ?_, ?_⟩
  · exact Query.not_runsDry_of_sources sources h.1
  · exact Query.reaches_of_firstTable?
  · exact Query.firstTable?_eq_none_iff

end Context

namespace Sample

/-- `SELECT *` -/
def sourceless : Query where
  selectList := .single 0
  sources := []

/-- `SELECT * FROM (first), customer, sale` -/
def guessing (first : Query) : Query where
  selectList := .single 0
  sources := [.query first, .table 0, .table 1]

theorem bounded_guessing {first : Query} (h : ∀ table, first.Reaches table → table < 2) :
    (guessing first).Bounded entry where
  tables table htable := by
    show table < 2
    have hsources := Query.reaches_iff.mp htable
    simp only [guessing, List.mem_cons, Source.table.injEq, Source.query.injEq, List.not_mem_nil,
      reduceCtorEq, or_false, false_or, exists_eq_left] at hsources
    obtain (rfl | rfl) | hfirst := hsources
    · decide
    · decide
    · exact h table hfirst
  columns := by
    have hcolumns : (guessing first).telltaleColumns ++ (guessing first).groupBy.map (·.column) =
        [] := rfl
    rw [hcolumns]
    intro column hcolumn
    cases hcolumn

theorem lt_of_reaches_sourceless (table : Nat) (h : sourceless.Reaches table) : table < 2 := by
  simpa [sourceless] using Query.reaches_iff.mp h

theorem lt_of_reaches_inner (table : Nat) (h : inner.Reaches table) : table < 2 := by
  have hsources := Query.reaches_iff.mp h
  obtain rfl : table = 1 := by simpa [inner] using hsources
  decide

end Sample

/-- The first source begins with a table, which is the guess. -/
theorem Context.wildcardTable_of_bounded_sample :
    let q := Sample.guessing Sample.inner
    q.tables ≠ [] ∧ q.Bounded Sample.entry ∧ q.firstTable? = some 1 ∧ q.Reaches 1 ∧
      ∃ table, (Sample.shop.wildcardTable q).outcome = .ok table := by
  intro q
  have direct : q.tables ≠ [] := by decide
  have bounded : q.Bounded Sample.entry := Sample.bounded_guessing Sample.lt_of_reaches_inner
  obtain ⟨hfound, -, -, hreaches, hdry⟩ :=
    wildcardTable_of_bounded Sample.entry "" "" 3 q direct bounded
  have hfirst : q.firstTable? = some 1 := by decide
  refine ⟨direct, bounded, hfirst, hreaches 1 hfirst, hfound.mpr fun h => ?_⟩
  rw [hdry.mpr h.1] at hfirst
  cases hfirst

/-- The first source has no sources, so there is no table to guess, although FROM lists two. -/
theorem Context.wildcardTable_dry :
    let q := Sample.guessing Sample.sourceless
    q.tables = [0, 1] ∧ q.Bounded Sample.entry ∧ q.Reaches 0 ∧ q.firstTable? = none ∧
      (Sample.shop.wildcardTable q).outcome = .error (.malformed .noTable) := by
  intro q
  have hreaches : q.Reaches 0 := Query.reaches_iff.mpr (.inl (by simp [q, Sample.guessing]))
  exact ⟨by decide, Sample.bounded_guessing Sample.lt_of_reaches_sourceless, hreaches, by decide,
    by decide⟩

end QueryGrammar
