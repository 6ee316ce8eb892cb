/-
QueryGrammar/Proofs/Limits.lean

What wider limits change.

The settings limit the columns of a select list and the conditions of WHERE.  A limit only refuses:
what is encoded under limits has the same encoding under wider ones (`Query.encode_widen`), and a
record that is converted under limits is converted to the same record under wider ones
(`Batch.outcomeOf_widen`).  Records that were passed over may be converted then, in their places
among the others.  This holds for limits of any size, also beyond the bounds of the grammar.

Main result: `Batch.limits_mono`.
-/
import QueryGrammar.Proofs.Annotation
import QueryGrammar.Proofs.Persistence

namespace QueryGrammar

/-- Accepting more conditions keeps every encoding, with its notices. -/
theorem Query.encode_widen (context : Context) (q : Query) {maxConditions : Nat}
    (h : context.maxConditions ≤ maxConditions) :
    Logged.Persists (fun _ => True) (q.encode context)
      (q.encode { context with maxConditions }) := by
  have ext : context.Extends { context with maxConditions } :=
    { context.extends_refl with maxConditions := h }
  -- the table of a wildcard does not depend on the number of conditions
  exact ext.encode q fun n _ => Logged.persists_refl (context.wildcardTable n)

variable {catalog : Catalog} {settings settings' : Settings}

theorem Record.encode_widen {record : Record} {e : Encoding}
    (h : settings.maxWhereConditions ≤ settings'.maxWhereConditions)
    (ok : (record.encode catalog settings).outcome = .ok e) :
    (record.encode catalog settings').outcome = .ok e := by
  unfold encode at ok ⊢
  obtain ⟨schema, hschema, ok⟩ := Logged.outcome_bind_eq_ok_iff.mp ok
  have hsame := record.query.encode_widen (record.context schema settings) h ⟨e, ok⟩
    fun _ _ => trivial
  refine Logged.outcome_bind_eq_ok_iff.mpr ⟨schema, hschema, ?_⟩
  rw [← ok, ← hsame]
  rfl

namespace Batch

/-- A converted record is converted to the same record under wider limits. -/
theorem outcomeOf_widen (columns : settings.maxSelectColumns ≤ settings'.maxSelectColumns)
    (conditions : settings.maxWhereConditions ≤ settings'.maxWhereConditions) {raw v : Json}
    (h : outcomeOf catalog settings raw = .converted v) :
    outcomeOf catalog settings' raw = .converted v := by
  obtain ⟨record, encoding, hload, hwidth, hencode, hannotate⟩ := outcomeOf_eq_converted_iff.mp h
  rw [outcomeOf_eq_converted_iff]
  exact ⟨record, encoding, hload, Nat.le_trans hwidth columns,
    Record.encode_widen conditions hencode, hannotate⟩

/-- If what is converted one way is converted to the same record another way, then the records of
the first report are, in order, among those of the second. -/
theorem records_sublist {f g : Json → Outcome}
    (h : ∀ raw v, f raw = .converted v → g raw = .converted v) (records : List Json) :
    (Report.ofOutcomes (records.map f)).records.Sublist
      (Report.ofOutcomes (records.map g)).records := by
  have hconverted (raw v : Json) (hf : (f raw).converted? = some v) :
      (g raw).converted? = some v := by
    rcases houtcome : f raw <;> simp only [houtcome, Outcome.converted?, reduceCtorEq] at hf
    rw [h raw _ houtcome, ← hf]
    rfl
  simp only [Report.ofOutcomes, List.filterMap_map]
  induction records with
  | nil => exact .slnil
  | cons raw records ih =>
    simp only [List.filterMap_cons, Function.comp_apply]
    rcases hf : (f raw).converted? with _ | v
    · -- the record may be converted the other way
      rcases (g raw).converted? with _ | v
      · exact ih
      · exact ih.cons v
    · rw [hconverted raw v hf]
      exact ih.cons_cons v

/-- **Wider limits keep what was converted.**  Under wider limits a query that has an encoding has
the same one, with the same notices, a converted record is converted to the same record, and the
records that a lenient batch reports are, in order, among those that it reports then. -/
theorem limits_mono (catalog : Catalog) {settings settings' : Settings}
    (columns : settings.maxSelectColumns ≤ settings'.maxSelectColumns)
    (conditions : settings.maxWhereConditions ≤ settings'.maxWhereConditions) :
    (∀ (schema : Schema) (question query : String) (q : Query) (e : Encoding),
      let tight := q.encode
        { schema, question, query, maxConditions := settings.maxWhereConditions }
      let wide := q.encode
        { schema, question, query, maxConditions := settings'.maxWhereConditions }
      tight.outcome = .ok e → wide.outcome = .ok e ∧ wide.notices = tight.notices) ∧
    (∀ raw v, outcomeOf catalog settings raw = .converted v →
      outcomeOf catalog settings' raw = .converted v) ∧
    ∀ records, ∃ report report',
      (run catalog { settings with strict := false } records).outcome = .ok report ∧
      (run catalog { settings' with strict := false } records).outcome = .ok report' ∧
      report.records.Sublist report'.records := by
  refine ⟨?_, fun raw v => outcomeOf_widen columns conditions, fun records => ?_⟩
  · intro schema question query q e tight wide ok
    have hsame : wide = tight := q.encode_widen
      { schema, question, query, maxConditions := settings.maxWhereConditions } conditions ⟨e, ok⟩
      fun _ _ => trivial
    exact ⟨by rw [hsame, ok], by rw [hsame]⟩
  · refine ⟨_, _, outcome_run_lenient catalog settings records,
      outcome_run_lenient catalog settings' records, ?_⟩
    exact records_sublist (fun raw v => outcomeOf_widen columns conditions) records

end Batch

namespace Sample

/-- The layout of `SELECT customer, id FROM sale`. -/
def pairLayout : Json :=
  .object
    [("from", .object [("table_units", .array [.array [.string "table_unit", .ofNat 1]])]),
      ("select", .array [.bool false, .array
        [.array [.ofNat 0, .array [.ofNat 0, .array [.ofNat 0, .ofNat 2, .bool false], .null]],
          .array [.ofNat 0, .array [.ofNat 0, .array [.ofNat 0, .ofNat 3, .bool false], .null]]]])]

/-- A record of that query. -/
def pairRecord : Json := .object [("db_id", .string "shop"), ("sql", pairLayout)]

/-- What that record is converted to. -/
def convertedPair : Json :=
  .object
    [("db_id", .string "shop"),
      ("rule_label", .string "Root1(3) Root(5) Sel(0) N(1) A(0) C(2) T(1) A(0) C(1) T(1)"),
      ("sql", pairLayout), ("values", .array [])]

/-- Settings that refuse a pair of columns. -/
def tight : Settings where
  maxSelectColumns := 1

/-- Settings that accept it, and more conditions than the grammar can join. -/
def wide : Settings where
  maxSelectColumns := 2
  maxWhereConditions := 7

end Sample

theorem Batch.limits_mono_sample :
    Sample.tight.maxSelectColumns ≤ Sample.wide.maxSelectColumns ∧
      Sample.tight.maxWhereConditions ≤ Sample.wide.maxWhereConditions ∧
      (Sample.outer.encode { schema := .ofEntry Sample.entry, maxConditions := 7 }).outcome =
        .ok Sample.encoding ∧
      outcomeOf Sample.catalog Sample.tight Sample.pairRecord = .tooWide 2 ∧
      outcomeOf Sample.catalog Sample.wide Sample.record = .converted Sample.convertedRecord ∧
      [Sample.convertedRecord].Sublist [Sample.convertedPair, Sample.convertedRecord] := by
  have hcolumns : Sample.tight.maxSelectColumns ≤ Sample.wide.maxSelectColumns := by decide
  have hconditions : Sample.tight.maxWhereConditions ≤ Sample.wide.maxWhereConditions := by decide
  have htight : (run Sample.catalog Sample.tight [Sample.pairRecord, Sample.record]).outcome =
      .ok { records := [Sample.convertedRecord], converted := 1, skipped := 1 } := rfl
  have hwide : (run Sample.catalog Sample.wide [Sample.pairRecord, Sample.record]).outcome =
      .ok { records := [Sample.convertedPair, Sample.convertedRecord], converted := 2 } := rfl
  obtain ⟨hencode, hrecord, hbatch⟩ := Batch.limits_mono Sample.catalog hcolumns hconditions
  obtain ⟨report, report', hreport, hreport', hsublist⟩ :=
    hbatch [Sample.pairRecord, Sample.record]
  obtain rfl := Except.ok.inj (htight.symm.trans hreport)
  obtain rfl := Except.ok.inj (hwide.symm.trans hreport')
  exact ⟨hcolumns, hconditions, (hencode (.ofEntry Sample.entry) "" "" _ _ (by decide)).1, rfl,
    hrecord _ _ rfl, hsublist⟩

end QueryGrammar
