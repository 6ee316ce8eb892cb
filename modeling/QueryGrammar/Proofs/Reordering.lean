/-
QueryGrammar/Proofs/Reordering.lean

The order of the sources.

Only the table of the wildcard depends on the order of the sources in FROM, and only if it is a
guess: every other rule is told by sets (`Query.Picks.of_perm`), so a wildcard that is resolved
without a notice is resolved alike in any order (`Context.wildcardTable_persists`).

`Query.Reorders` puts the sources of one expanded query into another order, that of the query itself
or that of a query nested at some depth; `Query.Rearranges` does so also within the branch of a set
operation.  Its reflexive transitive closure is any number of such steps.

Main result: if a query is encoded without a guess, then it has the same encoding, again without a
guess, however the sources of its expanded queries are ordered (`Query.encode_reordered`).
-/
import QueryGrammar.Proofs.Persistence
import QueryGrammar.Proofs.Substitution
import QueryGrammar.Proofs.WildcardRules

namespace QueryGrammar

open Logged (Persists persists_refl)
open Relation (ReflTransGen)

/-- Whether the notice tells that the table of a wildcard is a guess. -/
def Notice.isGuess : Notice → Bool
  | .ambiguousWildcard _ _ => true
  | .extraHaving _ _ => false

/-! ### The table of the wildcard -/

namespace Query

variable {schema : Schema} {q : Query} {sources : List Source}

theorem tableSet_of_perm (perm : q.sources.Perm sources) :
    tableSet { q with sources } = q.tableSet :=
  List.toFinset_eq_of_perm _ _ (perm.symm.filterMap _)

/-- A rule that does not guess says the same of the sources in any order. -/
theorem Picks.of_perm {outcome : Except Failure Nat} (perm : q.sources.Perm sources)
    (h : q.Picks schema false outcome) : Picks schema { q with sources } false outcome := by
  have hset : tableSet { q with sources } = q.tableSet := tableSet_of_perm perm
  have hlength : sources.length = q.sources.length := perm.length_eq.symm
  cases h with
  | table single =>
    rw [single, List.singleton_perm] at perm
    exact .table perm.symm
  | query single =>
    rw [single, List.singleton_perm] at perm
    exact .query perm.symm
  | unknown many first => exact .unknown (hlength.trans_ne many) first
  | only many known left => exact .only (hlength.trans_ne many) known (hset ▸ left)
  | grouping many known left groupBy owner =>
    exact .grouping (hlength.trans_ne many) known (hset ▸ left) groupBy owner
  | unknownGrouping many known left groupBy missing =>
    exact .unknownGrouping (hlength.trans_ne many) known (hset ▸ left) groupBy missing

end Query

/-- A table that is not a guess is the table of the wildcard for the sources in any order. -/
theorem Context.wildcardTable_persists (context : Context) {q : Query} {sources : List Source}
    (perm : q.sources.Perm sources) : Persists (·.isGuess = false) (context.wildcardTable q)
      (context.wildcardTable { q with sources }) := by
  obtain ⟨guess, outcome, picks⟩ := Query.exists_picks context.schema q
  rw [wildcardTable_of_picks picks]
  rintro - sure
  cases guess with
  | false => exact wildcardTable_of_picks (picks.of_perm perm)
  | true => simp [wildcardNotices, Notice.isGuess] at sure

/-! ### Nested queries -/

/-- What is derived for a query persists if it does for the queries that are exchanged. -/
theorem Query.Exchanges.derive_persists {P : Notice → Prop} {context : Context} {n n' q q' : Query}
    (h : Exchanges n n' q q') (hn : Persists P (n.derive context) (n'.derive context)) :
    Persists P (q.derive context) (q'.derive context) := by
  have ext : context.Extends context := context.extends_refl
  have hwildcard : context.wildcardTable q' = context.wildcardTable q := h.wildcardTable
  have hcondition {c : Condition} (nested : c.nested? = some n) :
      Persists P (c.derive context (context.wildcardTable q))
        ((c.over n').derive context (context.wildcardTable q)) := by
    rw [Condition.derive_of_nested nested, Condition.derive_of_nested (n := n') rfl]
    exact ext.deriveNested (persists_refl _) c hn
  rw [derive_eq, derive_eq, hwildcard]
  apply ext.deriveClauses
  · cases h <;> rfl
  · cases h <;> rfl
  · cases h with
    | restriction body | having body => simp [shape, body]
  · rw [hwildcard]
    exact persists_refl _
  · apply ext.deriveFilter
    · exact h.rel_restriction (fun _ => ext.deriveRestriction) persists_refl fun _ => hcondition
    · exact h.rel_having (fun _ _ hlength hhead => ⟨hlength, hhead⟩) persists_refl
        fun _ => hcondition

namespace Query

/-! ### Reordering -/

/-- The sources of a query, or of one that is nested in it at some depth, are put into another
order. -/
inductive Reorders : Query → Query → Prop
  | sources {q : Query} {sources : List Source} (perm : q.sources.Perm sources) :
      Reorders q { q with sources }
  | nested {n n' q q' : Query} (exchanged : Exchanges n n' q q') (reorders : Reorders n n') :
      Reorders q q'

/-- The sources of an expanded query are put into another order. -/
inductive Rearranges : Query → Query → Prop
  | base {q q' : Query} (reorders : Reorders q q') : Rearranges q q'
  | branch {q b b' : Query} (operation : SetOperation) (branch : q.branch? operation = some b)
      (reorders : Reorders b b') : Rearranges q (q.setBranch operation b')

variable {context : Context} {q q' : Query}

theorem Reorders.setOperations (h : Reorders q q') : q'.setOperations = q.setOperations := by
  cases h with
  | sources => rfl
  | nested exchanged => cases exchanged <;> rfl

theorem Reorders.derive_persists (h : Reorders q q') :
    Persists (·.isGuess = false) (q.derive context) (q'.derive context) := by
  induction h with
  | sources perm =>
    -- nothing but the table of the wildcard is at stake
    exact context.extends_refl.derive_of_clauses (by rfl) (by rfl) (by rfl) (by rfl) (by rfl)
      (context.wildcardTable_persists perm) fun c _ n _ => persists_refl _
  | nested exchanged _ ih => exact exchanged.derive_persists ih

/-- One step: another order of the sources of one expanded query. -/
theorem Rearranges.encode_persists (h : Rearranges q q') :
    Persists (·.isGuess = false) (q.encode context) (q'.encode context) := by
  cases h with
  | base reorders =>
    apply Query.encode_persists reorders.derive_persists
    rw [reorders.setOperations]
    exact List.forall₂_same.mpr fun branch _ => ⟨rfl, persists_refl _⟩
  | @branch b b' operation hbranch reorders =>
    have hbase : (q.setBranch operation b').derive context = q.derive context := by
      cases operation <;> exact derive_congr rfl rfl rfl rfl rfl rfl rfl
    apply Query.encode_persists
    · rw [hbase]
      exact persists_refl _
    · exact forall₂_setOperations_setBranch
        (T := fun b b' => Persists (·.isGuess = false) (b.derive context) (b'.derive context))
        (fun b => persists_refl _) hbranch reorders.derive_persists

/-- Any number of steps. -/
theorem encode_persists_of_reflTransGen (h : ReflTransGen Rearranges q q') :
    Persists (·.isGuess = false) (q.encode context) (q'.encode context) := by
  induction h with
  | refl => exact persists_refl _
  | tail _ step ih => exact ih.trans step.encode_persists

/-- **The order of the sources.**  If a query is encoded and no table of a wildcard is a guess, then
however the sources of its expanded queries are ordered, it has the same encoding and no table of a
wildcard is a guess. -/
theorem encode_reordered {e : Encoding} (steps : ReflTransGen Rearranges q q')
    (encodes : (q.encode context).outcome = .ok e)
    (sure : ∀ n ∈ (q.encode context).notices, n.isGuess = false) :
    (q'.encode context).outcome = .ok e ∧
      ∀ n ∈ (q'.encode context).notices, n.isGuess = false := by
  have hsame : q'.encode context = q.encode context :=
    encode_persists_of_reflTransGen steps ⟨e, encodes⟩ sure
  rw [hsame]
  exact ⟨encodes, sure⟩

end Query

namespace Sample

/-- `SELECT * FROM sources WHERE sale.id IN (n)` -/
def joining (sources : List Source) (n : Query) : Query where
  selectList := .single 0
  sources
  restriction := some (.last
    { negated := false, operator := .member, left := .plain 3, value := some (.query n),
      upper := none })

/-- `SELECT customer FROM sale WHERE id = 'x' UNION SELECT * FROM outer WHERE sale.id IN (n)` where
`n` is `SELECT * FROM inner WHERE sale.id IN (SELECT customer FROM sale WHERE id = 'x')` -/
def joined (outer inner : List Source) : Query :=
  single.setBranch .union (joining outer (joining inner single))

/-- The two tables, and the other way around. -/
def twoTables : List Source := [.table 0, .table 1]

/-- The encoding of the joined query. -/
def joinedEncoding : Encoding where
  tokens :=
    let singleTokens := singleEncoding.tokens.tail
    let joining : List Token := [⟨.root, 3⟩, ⟨.sel, 0⟩, ⟨.n, 0⟩, ⟨.a, 0⟩, ⟨.c, 0⟩, ⟨.t, 0⟩,
      ⟨.filter, 18⟩, ⟨.a, 0⟩, ⟨.c, 1⟩, ⟨.t, 1⟩]
    ⟨.root1, 1⟩ :: (singleTokens ++ joining ++ joining ++ singleTokens)
  values := [.text "x"]

theorem perm_twoTables : twoTables.Perm twoTables.reverse := (List.reverse_perm _).symm

theorem joined_rearranges_outer :
    Query.Rearranges (joined twoTables twoTables) (joined twoTables.reverse twoTables) :=
  .branch (q := joined twoTables twoTables) .union rfl
    (.sources (q := joining twoTables (joining twoTables single)) perm_twoTables)

theorem joined_rearranges_inner : Query.Rearranges (joined twoTables.reverse twoTables)
    (joined twoTables.reverse twoTables.reverse) :=
  .branch (q := joined twoTables.reverse twoTables) .union rfl
    (.nested (n := joining twoTables single)
      (.restriction (q := joining twoTables.reverse (joining twoTables single)) rfl rfl .last)
      (.sources (q := joining twoTables single) perm_twoTables))

end Sample

/-- The sources are put into the other order in the branch of a set operation, then in the query
that is nested there.  No condition tells of the customers, so the wildcard stands for them. -/
theorem Query.encode_reordered_sample :
    let q := Sample.joined Sample.twoTables Sample.twoTables
    let q' := Sample.joined Sample.twoTables.reverse Sample.twoTables.reverse
    (q.encode Sample.shop).outcome = .ok Sample.joinedEncoding ∧
      (q'.encode Sample.shop).outcome = .ok Sample.joinedEncoding ∧
      ∀ n ∈ (q'.encode Sample.shop).notices, n.isGuess = false := by
  intro q q'
  have encodes : (q.encode Sample.shop).outcome = .ok Sample.joinedEncoding := by decide
  have sure : ∀ n ∈ (q.encode Sample.shop).notices, n.isGuess = false := by decide
  have steps : ReflTransGen Rearranges q q' :=
    .tail (.single Sample.joined_rearranges_outer) Sample.joined_rearranges_inner
  exact ⟨encodes, encode_reordered steps encodes sure⟩

end QueryGrammar
