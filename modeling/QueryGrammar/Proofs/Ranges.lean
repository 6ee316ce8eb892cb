/-
QueryGrammar/Proofs/Ranges.lean

What the bounds of the grammar rule out.

Writing a query checks every token against the productions of its symbol (`Query.written`), but
only a select list can fail the check, with a width that has no production: a choice that is out of
range is the width of some expanded query (`Query.choiceOutOfRange_of_encode`).  A number of
conditions that cannot be joined is one that was accepted and is above the bound of the grammar
(`Query.conditionCount_of_encode`).

Settings are accepted within the bounds of the grammar only (`Settings.Accepted`), wherever they
come from.  Then every accepted number of conditions can be joined, and the select list of a record
that is not passed over has a production.  So what is out of range in a record is the width of a
query nested in its query, or of one in the branch (`Query.inner`).

Main result: `Query.choices_in_range`.
-/
import QueryGrammar.Dataset.Record
import QueryGrammar.Proofs.Annotation
import QueryGrammar.Proofs.Refusal
import QueryGrammar.Proofs.Writing
import QueryGrammar.Settings.Discovery

namespace QueryGrammar

/-! ### Settings -/

namespace Settings

variable {settings settings' : Settings}

/-- The settings are within the bounds of the grammar. -/
structure Accepted (settings : Settings) : Prop where
  one_le_columns : 1 ≤ settings.maxSelectColumns
  columns_le : settings.maxSelectColumns ≤ columnBound
  one_le_conditions : 1 ≤ settings.maxWhereConditions
  conditions_le : settings.maxWhereConditions ≤ conditionBound

theorem accepted_default : Accepted {} where
  one_le_columns := by decide
  columns_le := by decide
  one_le_conditions := by decide
  conditions_le := by decide

/-- The check lets settings pass as they are, exactly if they are within the bounds. -/
theorem checked_eq_ok_iff :
    settings.checked = .ok settings' ↔ settings' = settings ∧ settings.Accepted := by
  unfold checked
  constructor
  · intro h
    split_ifs at h with hcolumns hconditions
    cases h
    exact ⟨rfl, hcolumns.1, hcolumns.2, hconditions.1, hconditions.2⟩
  · rintro ⟨rfl, haccepted⟩
    rw [if_neg (not_not.mpr ⟨haccepted.one_le_columns, haccepted.columns_le⟩),
      if_neg (not_not.mpr ⟨haccepted.one_le_conditions, haccepted.conditions_le⟩)]

theorem accepted_of_checked (h : settings.checked = .ok settings') : settings'.Accepted := by
  obtain ⟨rfl, haccepted⟩ := checked_eq_ok_iff.mp h
  exact haccepted

theorem accepted_of_ofText {text : String} (h : ofText text = .ok settings) :
    settings.Accepted := by
  unfold ofText at h
  split at h
  · exact accepted_of_checked h
  · cases h

theorem accepted_of_load {tree : FileTree} {path : String} (h : load tree path = .ok settings) :
    settings.Accepted := by
  unfold load at h
  split at h
  · exact accepted_of_ofText h
  · cases h

theorem accepted_of_discover {tree : FileTree} {home explicit : Option String}
    (h : discover tree home explicit = .ok settings) : settings.Accepted := by
  unfold discover at h
  split at h
  · exact accepted_of_load h
  · split at h
    · exact accepted_of_load h
    · cases h
      exact accepted_default

end Settings

/-! ### Queries -/

namespace Query

variable {context : Context} {q : Query} {symbol : Symbol} {choice limit : Nat}

/-- The expanded queries besides the query itself: those nested in it, and those of the branch. -/
def inner (q : Query) : List Query :=
  q.deepConditions.filterMap Condition.nested? ++
    q.setOperations.flatMap fun branch => branch.2.expansion

theorem expanded_eq (q : Query) : q.expanded = q :: q.inner := rfl

/-- The select list is so wide that its width is no choice of the grammar. -/
structure OutOfRange (q : Query) (symbol : Symbol) (choice limit : Nat) : Prop where
  symbol : symbol = .n
  limit : limit = 5
  wide : 5 < q.selectList.items.length
  choice : choice = q.selectList.items.length - 1

/-- A choice out of range is the width of an expanded query, whatever the number of conditions is
that the context accepts. -/
theorem choiceOutOfRange_of_encode
    (h : (q.encode context).outcome = .error (.choiceOutOfRange symbol choice limit)) :
    ∃ n ∈ q.expanded, n.OutOfRange symbol choice limit := by
  -- no other reason comes with this failure
  cases reason_of_encode h with
  | refused expanded refusal =>
    cases refusal with
    | width wide => exact ⟨_, expanded, rfl, rfl, wide, rfl⟩
    | condition _ refusal => cases refusal
  | lookUp lookUp => cases lookUp

/-- Conditions that cannot be joined are those of an expanded query that has more than the grammar
can join, and no more than are accepted. -/
theorem conditionCount_of_encode {k m : Nat}
    (h : (q.encode context).outcome = .error (.malformed (.conditionCount k m))) :
    Settings.conditionBound < k ∧ k ≤ context.maxConditions ∧
      ∃ n ∈ q.expanded, ∃ chain, n.restriction = some chain ∧ k = chain.length ∧
        m = chain.connectives.length := by
  cases reason_of_encode h with
  | refused expanded refusal =>
    cases refusal with
    | count restriction many accepted =>
      exact ⟨many, accepted, _, expanded, _, restriction, rfl, rfl⟩
    | condition _ refusal => cases refusal
  | lookUp lookUp => cases lookUp

end Query

/-! ### Records -/

section Records

variable {catalog : Catalog} {settings : Settings} {raw : Json} {e : Failure}

theorem Record.encode_eq_error {record : Record}
    (h : (record.encode catalog settings).outcome = .error e) :
    e = .unknownDatabase record.database ∨
      ∃ schema, (record.query.encode (record.context schema settings)).outcome = .error e := by
  rw [encode, Logged.outcome_bind, Logged.outcome_liftM, Catalog.get] at h
  split at h
  · exact .inr ⟨_, h⟩
  · cases h
    exact .inl rfl

/-- A record fails when it cannot be read, or it is not too wide and cannot be encoded, or there is
no place for the encoding. -/
theorem Conversion.ofRecord_eq_failed (h : (ofRecord catalog settings raw).outcome = .failed e) :
    Record.load raw = .error e ∨
      ∃ record, Record.load raw = .ok record ∧
        record.query.selectList.items.length ≤ settings.maxSelectColumns ∧
        ((record.encode catalog settings).outcome = .error e ∨
          e = .malformed .recordNotObject) := by
  rw [ofRecord] at h
  rcases hload : Record.load raw with e' | record
  · rw [hload] at h
    cases h
    exact .inl rfl
  right
  rw [hload] at h
  by_cases hwidth : settings.maxSelectColumns < record.query.selectList.items.length
  · simp [hwidth] at h
  · refine ⟨record, rfl, Nat.not_lt.mp hwidth, ?_⟩
    rcases hencode : (record.encode catalog settings).outcome with e' | encoding
    · simp only [hwidth, if_false, hencode] at h
      cases h
      exact .inl rfl
    · right
      rcases raw <;> simp [hwidth, hencode, Encoding.annotate, Bind.bind, Except.bind] at h <;>
        exact h.symm

theorem Record.load_eq_error (h : load raw = .error e) : ∃ cause, e = .json cause := by
  rw [load] at h
  rcases hread : ofJson raw with cause | record <;> rw [hread] at h <;> cases h
  exact ⟨cause, rfl⟩

/-- A record fails for a choice out of range only by a query that is expanded besides its own. -/
theorem Conversion.choiceOutOfRange_of_ofRecord (accepted : settings.Accepted) {symbol : Symbol}
    {choice limit : Nat} (h : (ofRecord catalog settings raw).outcome =
      .failed (.choiceOutOfRange symbol choice limit)) :
    ∃ record, Record.load raw = .ok record ∧ record.query.selectList.items.length ≤ 5 ∧
      ∃ n ∈ record.query.inner, n.OutOfRange symbol choice limit := by
  obtain hload | ⟨record, hload, hwidth, hencode | hobject⟩ := ofRecord_eq_failed h
  · obtain ⟨cause, hcause⟩ := Record.load_eq_error hload
    cases hcause
  · have hnarrow : record.query.selectList.items.length ≤ 5 :=
      Nat.le_trans hwidth accepted.columns_le
    refine ⟨record, hload, hnarrow, ?_⟩
    obtain hdatabase | ⟨schema, hencode⟩ := Record.encode_eq_error hencode
    · cases hdatabase
    obtain ⟨n, hn, hrange⟩ := Query.choiceOutOfRange_of_encode hencode
    rw [Query.expanded_eq, List.mem_cons] at hn
    rcases hn with rfl | hn
    · -- the select list of the record has a production
      exact absurd hnarrow (Nat.not_le.mpr hrange.wide)
    · exact ⟨n, hn, hrange⟩
  · cases hobject

end Records

/-- **Choices are in range but for the widths of select lists.**  Writing a query with a check of
every token gives its encoding, and the only choice that is ever refused is the width of an
expanded query above five.  Settings that were checked, read or found are within the bounds of the
grammar; within these bounds no number of conditions is without a production, and the choice that
is refused in a record is that of a nested query or of the branch, never its own. -/
theorem Query.choices_in_range :
    (∀ (context : Context) (q : Query), q.written context = q.encode context ∧
      ∀ symbol choice limit,
        (q.encode context).outcome = .error (.choiceOutOfRange symbol choice limit) →
        ∃ n ∈ q.expanded, n.OutOfRange symbol choice limit) ∧
    (∀ settings settings' : Settings,
      settings.checked = .ok settings' ↔ settings' = settings ∧ settings.Accepted) ∧
    (∀ text settings, Settings.ofText text = .ok settings → settings.Accepted) ∧
    (∀ tree home explicit settings,
      Settings.discover tree home explicit = .ok settings → settings.Accepted) ∧
    ∀ settings : Settings, settings.Accepted →
      (∀ (schema : Schema) (question query : String) (q : Query) (k m : Nat),
        (q.encode { schema, question, query, maxConditions := settings.maxWhereConditions }).outcome
          ≠ .error (.malformed (.conditionCount k m))) ∧
      ∀ catalog raw symbol choice limit, (Conversion.ofRecord catalog settings raw).outcome =
          .failed (.choiceOutOfRange symbol choice limit) →
        ∃ record, Record.load raw = .ok record ∧ record.query.selectList.items.length ≤ 5 ∧
          ∃ n ∈ record.query.inner, n.OutOfRange symbol choice limit := by
  refine ⟨fun context q => ⟨q.written_eq_encode context, fun symbol choice limit h => ?_⟩,
    fun settings settings' => Settings.checked_eq_ok_iff,
    fun text settings h => Settings.accepted_of_ofText h,
    fun tree home explicit settings h => Settings.accepted_of_discover h,
    fun settings accepted => ⟨?_, ?_⟩⟩
  · exact choiceOutOfRange_of_encode h
  · intro schema question query q k m h
    obtain ⟨hmany, hmax, -⟩ := conditionCount_of_encode h
    exact absurd (Nat.le_trans hmax accepted.conditions_le) (Nat.not_le.mpr hmany)
  · intro catalog raw symbol choice limit h
    exact Conversion.choiceOutOfRange_of_ofRecord accepted h

namespace Sample

/-- The layout of `SELECT id, …, id FROM customer` with so many columns. -/
def repeatedLayout (width : Nat) (clauses : List (String × Json)) : Json :=
  .object
    ([("from", .object [("table_units", .array [.array [.string "table_unit", .ofNat 0]])]),
      ("select", .array [.bool false, .array (List.replicate width (.array [.ofNat 0,
        .array [.ofNat 0, .array [.ofNat 0, .ofNat 1, .bool false], .null]]))])] ++ clauses)

/-- A record of `SELECT id FROM customer` with a branch of six columns. -/
def wideBranch : Json :=
  .object
    [("db_id", .string "shop"), ("sql", repeatedLayout 1 [("union", repeatedLayout 6 [])])]

end Sample

/-- The branch of a record is too wide; the record itself is not. -/
theorem Query.choices_in_range_sample :
    Settings.checked {} = .ok {} ∧
      (Conversion.ofRecord Sample.catalog {} Sample.wideBranch).outcome =
        .failed (.choiceOutOfRange .n 5 5) ∧
      ∃ record, Record.load Sample.wideBranch = .ok record ∧
        ∃ n ∈ record.query.inner, n.OutOfRange .n 5 5 := by
  obtain ⟨-, hchecked, -, -, hsettings⟩ := Query.choices_in_range
  have hdefault : Settings.checked {} = .ok {} := by decide
  have haccepted : Settings.Accepted {} := ((hchecked {} {}).mp hdefault).2
  have hfailed : (Conversion.ofRecord Sample.catalog {} Sample.wideBranch).outcome =
      .failed (.choiceOutOfRange .n 5 5) := rfl
  obtain ⟨record, hload, -, hinner⟩ := (hsettings {} haccepted).2 _ _ _ _ _ hfailed
  exact ⟨hdefault, hfailed, record, hload, hinner⟩

end QueryGrammar
