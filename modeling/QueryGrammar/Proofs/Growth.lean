/-
QueryGrammar/Proofs/Growth.lean

Descriptions that grow.

A description grows if columns and tables are added behind those that it lists
(`SchemaEntry.Grows`).  The new columns may repeat names and belong to any table or to none; what
the description says of keys may change altogether, for an encoding does not read it.

Identities and owners of the columns that were there stay, and so do the tables.  What might change
is the table of a wildcard, which depends on the owners of other columns; but a rule that picks a
table has read columns that were there already, so it picks the same table afterwards, with the
same notice (`SchemaEntry.Grows.picks`).  A rule that fails may not: a column that was missing may
be there now.

Main result: what is encoded over a description has the same encoding, with the same notices, over
one that it grows to (`Query.encode_grown`).
-/
import QueryGrammar.Proofs.Fallback
import QueryGrammar.Proofs.Identities
import QueryGrammar.Proofs.Persistence

namespace QueryGrammar

open Logged (Persists)

/-- The second description lists the columns and the tables of the first, and maybe others behind
them. -/
structure SchemaEntry.Grows (entry entry' : SchemaEntry) : Prop where
  columns : entry.columns <+: entry'.columns
  tableNames : entry.tableNames <+: entry'.tableNames

namespace SchemaEntry.Grows

variable {entry entry' : SchemaEntry} (grows : entry.Grows entry')
include grows

/-! ### Columns that were there -/

theorem columnIdentity {column i : Nat}
    (h : (Schema.ofEntry entry).columnIdentity column = .ok i) :
    (Schema.ofEntry entry').columnIdentity column = .ok i := by
  obtain ⟨more, hcolumns⟩ := grows.columns
  have hlt : column < entry.columns.length := Schema.exists_columnIdentity_ofEntry_iff.mp ⟨i, h⟩
  have hstays := Schema.columnIdentity_append more hlt
  rw [hcolumns] at hstays
  -- the identity of a column depends on the columns alone
  rw [← h, ← hstays]
  rfl

theorem owners_prefix : (Schema.ofEntry entry).owners <+: (Schema.ofEntry entry').owners :=
  grows.columns.map _

theorem getElem?_owners {column : Nat} {owner : Option Nat}
    (h : (Schema.ofEntry entry).owners[column]? = some owner) :
    (Schema.ofEntry entry').owners[column]? = some owner := by
  obtain ⟨hlt, rfl⟩ := List.getElem?_eq_some_iff.mp h
  exact List.prefix_iff_getElem?.mp grows.owners_prefix column hlt

theorem owningTable {column table : Nat}
    (h : (Schema.ofEntry entry).owningTable column = .ok table) :
    (Schema.ofEntry entry').owningTable column = .ok table :=
  Schema.owningTable_eq_ok_iff.mpr (grows.getElem?_owners (Schema.owningTable_eq_ok_iff.mp h))

theorem checkTable {table table' : Nat}
    (h : (Schema.ofEntry entry).checkTable table = .ok table') :
    (Schema.ofEntry entry').checkTable table = .ok table' := by
  obtain ⟨rfl, hlt⟩ := Schema.checkTable_eq_ok_iff.mp h
  have hle : entry.tableNames.length ≤ entry'.tableNames.length := grows.tableNames.length_le
  exact Schema.checkTable_eq_ok_iff.mpr ⟨rfl, Nat.lt_of_lt_of_le hlt hle⟩

/-! ### The table of the wildcard -/

section Wildcard

variable {q : Query} (known : q.KnowsTelltales (.ofEntry entry))
include known

theorem knowsTelltales : q.KnowsTelltales (.ofEntry entry') :=
  fun column h => Nat.lt_of_lt_of_le (known column h) grows.owners_prefix.length_le

/-- Telltale columns that were there belong to the tables that they belonged to. -/
theorem ownerSet : q.ownerSet (.ofEntry entry') = q.ownerSet (.ofEntry entry) := by
  ext table
  rw [Query.mem_ownerSet, Query.mem_ownerSet]
  refine exists_congr fun column => and_congr_right fun hcolumn => ?_
  rw [grows.getElem?_owners (List.getElem?_eq_getElem (known column hcolumn)),
    List.getElem?_eq_getElem (known column hcolumn)]

end Wildcard

/-- A rule that picks a table picks the same table, and guesses if it did. -/
theorem picks {q : Query} {guess : Bool} {outcome : Except Failure Nat} {table : Nat}
    (h : q.Picks (.ofEntry entry) guess outcome) (ok : outcome = .ok table) :
    q.Picks (.ofEntry entry') guess outcome := by
  cases h with
  | table sources => exact .table sources
  | query sources => exact .query sources
  | only many known left =>
    exact .only many (grows.knowsTelltales known) (grows.ownerSet known ▸ left)
  | grouping many known left groupBy owner =>
    exact .grouping many (grows.knowsTelltales known) (grows.ownerSet known ▸ left) groupBy
      (grows.getElem?_owners owner)
  | guess many known left unowned =>
    refine .guess many (grows.knowsTelltales known) (grows.ownerSet known ▸ left) ?_
    intro hleft use rest groupBy
    exact grows.getElem?_owners (unowned (grows.ownerSet known ▸ hleft) use rest groupBy)
  | unknown | unknownGrouping => cases ok

variable {P : Notice → Prop} {context context' : Context}

theorem wildcardTable_persists (schema : context.schema = .ofEntry entry)
    (extended : context' = { context with schema := .ofEntry entry' }) (q : Query) :
    Persists P (context.wildcardTable q) (context'.wildcardTable q) := by
  subst extended
  obtain ⟨guess, outcome, picks⟩ := Query.exists_picks context.schema q
  rw [Context.wildcardTable_of_picks picks]
  rintro ⟨table', ok⟩ -
  obtain ⟨table, hpicked, hcheck⟩ := bind_eq_ok_iff.mp ok
  rw [schema] at picks hcheck
  rw [Context.wildcardTable_of_picks (grows.picks picks hpicked), hpicked, schema]
  show Logged.mk _ ((Schema.ofEntry entry').checkTable table) =
    Logged.mk _ ((Schema.ofEntry entry).checkTable table)
  rw [hcheck, grows.checkTable hcheck]
  rfl

theorem extends_context (schema : context.schema = .ofEntry entry)
    (extended : context' = { context with schema := .ofEntry entry' }) :
    context.Extends context' := by
  subst extended
  exact {
    identity := fun column i h => grows.columnIdentity (schema ▸ h)
    owner := fun column table h => grows.owningTable (schema ▸ h)
    question := rfl
    maxConditions := Nat.le_refl _ }

end SchemaEntry.Grows

/-! ### Encodings -/

/-- **Growth is harmless.**  A query that is encoded over a description has the same encoding, with
the same notices, over every description that it grows to. -/
theorem Query.encode_grown {entry entry' : SchemaEntry} (grows : entry.Grows entry')
    (question query : String) (maxConditions : Nat) (q : Query) {e : Encoding}
    (encodes : (q.encode { schema := .ofEntry entry, question, query, maxConditions }).outcome =
      .ok e) :
    let grown := q.encode { schema := .ofEntry entry', question, query, maxConditions }
    grown.outcome = .ok e ∧
      grown.notices =
        (q.encode { schema := .ofEntry entry, question, query, maxConditions }).notices := by
  intro grown
  let context : Context := { schema := .ofEntry entry, question, query, maxConditions }
  have ext : context.Extends { context with schema := .ofEntry entry' } :=
    grows.extends_context rfl rfl
  have hsame : grown = q.encode context :=
    ext.encode q (fun n _ => grows.wildcardTable_persists rfl rfl n) ⟨e, encodes⟩
      fun _ _ => trivial
  rw [hsame]
  exact ⟨encodes, rfl⟩

namespace Sample

/-- The description of the two tables with another table, columns that repeat names or belong to
tables that are not there, and keys. -/
def grownEntry : SchemaEntry where
  name := "shop"
  tableNames := ["customer", "sale", "refund"]
  columns := entry.columns ++ [(2, "id"), (9, "*"), (-1, "reason"), (2, "sale")]
  primaryKeys := [1, 3]
  foreignKeys := [(2, 1), (7, 3)]

theorem grows_grownEntry : entry.Grows grownEntry where
  columns := List.prefix_append _ _
  tableNames := ⟨["refund"], rfl⟩

/-- The encoding of a guess between the two tables, after the inner query as a source. -/
def guessedEncoding : Encoding where
  tokens := [⟨.root1, 3⟩, ⟨.root, 5⟩, ⟨.sel, 0⟩, ⟨.n, 0⟩, ⟨.a, 0⟩, ⟨.c, 0⟩, ⟨.t, 1⟩]
  values := []

end Sample

/-- The table of the wildcard is a guess, over both descriptions. -/
theorem Query.encode_grown_sample :
    let grown := (Sample.guessing Sample.inner).encode { schema := .ofEntry Sample.grownEntry }
    Sample.entry.Grows Sample.grownEntry ∧
      ((Sample.guessing Sample.inner).encode Sample.shop).outcome = .ok Sample.guessedEncoding ∧
      grown.outcome = .ok Sample.guessedEncoding ∧
      grown.notices = [.ambiguousWildcard "" ""] := by
  intro grown
  have encodes : ((Sample.guessing Sample.inner).encode Sample.shop).outcome =
      .ok Sample.guessedEncoding := by decide
  obtain ⟨hgrown, hnotices⟩ := encode_grown Sample.grows_grownEntry "" "" 3 _ encodes
  exact ⟨Sample.grows_grownEntry, encodes, hgrown, hnotices⟩

end QueryGrammar
