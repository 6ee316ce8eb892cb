/-
QueryGrammar/Proofs/Annotation.lean

Converting records that were converted before.

A converted record is the record itself with two more members, or with two of its members replaced.
Neither of them is a field that is read from a record (`Record.load_annotate`), and inserting both
of them once more changes nothing (`Encoding.annotate_annotate`).  So a converted record is read as
the same query, which has the same encoding, and is converted to itself.

Main result: `Batch.convert_again`, for a single record and for the records of a whole report.
-/
import QueryGrammar.Proofs.Batch
import QueryGrammar.Proofs.Mirror

namespace QueryGrammar

/-! ### Members that are not read -/

namespace Record.Fields

variable {key : String}

theorem add_of_notMem (h : key ∉ names) (fields : Fields) (v : Json) :
    fields.add key v = .ok fields := by
  simp only [names, List.mem_cons, List.not_mem_nil, or_false, not_or] at h
  obtain ⟨hdatabase, hquestion, hquery, hsql⟩ := h
  unfold add
  split
  · exact absurd rfl hdatabase
  · exact absurd rfl hquestion
  · exact absurd rfl hquery
  · exact absurd rfl hsql
  · rfl

theorem ofMembers_cons (fields : Fields) (member : String × Json)
    (members : List (String × Json)) : ofMembers fields (member :: members) =
      fields.add member.1 member.2 >>= fun fields => ofMembers fields members :=
  List.foldlM_cons

/-- Setting a member that is not read does not change what is read. -/
theorem ofMembers_insert (h : key ∉ names) (fields : Fields) (v : Json)
    (members : List (String × Json)) :
    ofMembers fields (Keyed.insert key v members) = ofMembers fields members := by
  have hskip (fields : Fields) (v : Json) (members : List (String × Json)) :
      ofMembers fields ((key, v) :: members) = ofMembers fields members := by
    rw [ofMembers_cons, add_of_notMem h]
    rfl
  induction members generalizing fields with
  | nil => exact hskip fields v []
  | cons member members ih =>
    obtain ⟨k, old⟩ := member
    rw [Keyed.insert]
    split_ifs with hk
    · subst hk
      rw [hskip, hskip]
    · exact hskip fields v _
    · rw [ofMembers_cons, ofMembers_cons]
      congr 1
      funext fields
      exact ih fields

end Record.Fields

/-! ### Annotating -/

/-- The members of a record once an encoding is put next to them. -/
def Encoding.annotated (encoding : Encoding) (members : List (String × Json)) :
    List (String × Json) :=
  Keyed.insert "values" encoding.valuesToJson
    (Keyed.insert "rule_label" (.string encoding.label) members)

namespace Encoding

variable (encoding : Encoding) (members : List (String × Json))

theorem annotate_eq_ok_iff {raw v : Json} : encoding.annotate raw = .ok v ↔
    ∃ members, raw = .object members ∧ v = .object (encoding.annotated members) := by
  cases raw <;> simp [annotate, annotated, eq_comm]

/-- Annotating twice is annotating once. -/
theorem annotated_annotated :
    encoding.annotated (encoding.annotated members) = encoding.annotated members := by
  have hlt : "rule_label" < "values" := by decide
  rw [annotated, annotated, Keyed.insert_comm hlt, Keyed.insert_insert_self,
    Keyed.insert_insert_self]

theorem mem_keys_annotated {key : String} : key ∈ Keyed.keys (encoding.annotated members) ↔
    key ∈ Keyed.keys members ∨ key = "rule_label" ∨ key = "values" := by
  rw [annotated, Keyed.mem_keys_insert, Keyed.mem_keys_insert, or_comm, or_assoc, or_left_comm]

theorem sorted_annotated (h : (Keyed.keys members).Pairwise (· < ·)) :
    (Keyed.keys (encoding.annotated members)).Pairwise (· < ·) :=
  Keyed.sorted_insert (Keyed.sorted_insert h _ _) _ _

theorem find?_annotated {key : String} (hlabel : key ≠ "rule_label") (hvalues : key ≠ "values") :
    Keyed.find? key (encoding.annotated members) = Keyed.find? key members := by
  rw [annotated, Keyed.find?_insert_of_ne hvalues, Keyed.find?_insert_of_ne hlabel]

/-- An annotated record is read as the record itself. -/
theorem load_annotated :
    Record.load (.object (encoding.annotated members)) = Record.load (.object members) := by
  have hlabel : "rule_label" ∉ Record.Fields.names := by decide
  have hvalues : "values" ∉ Record.Fields.names := by decide
  rw [Record.load, Record.load, Record.ofJson, Record.ofJson, annotated,
    Record.Fields.ofMembers_insert hvalues, Record.Fields.ofMembers_insert hlabel]

end Encoding

/-! ### Converting again -/

namespace Batch

variable {catalog : Catalog} {settings : Settings} {raw v : Json}

/-- A record is converted if it can be read, is not too wide, has an encoding, and is an object. -/
theorem outcomeOf_eq_converted_iff : outcomeOf catalog settings raw = .converted v ↔
    ∃ record encoding, Record.load raw = .ok record ∧
      record.query.selectList.items.length ≤ settings.maxSelectColumns ∧
      (record.encode catalog settings).outcome = .ok encoding ∧ encoding.annotate raw = .ok v := by
  rw [outcomeOf, Conversion.ofRecord]
  rcases hload : Record.load raw with e | record
  · simp
  · by_cases hwidth : settings.maxSelectColumns < record.query.selectList.items.length
    · simp [hwidth, Nat.not_le.mpr hwidth]
    · rcases hencode : (record.encode catalog settings).outcome with e | encoding
      · simp [hwidth, hencode, Bind.bind, Except.bind]
      · rcases hannotate : encoding.annotate raw with e | result <;>
          simp [hwidth, hencode, hannotate, Bind.bind, Except.bind, Nat.not_lt.mp hwidth]

/-- A converted record is the annotated one, and is converted to itself. -/
theorem converted_again (h : outcomeOf catalog settings raw = .converted v) :
    outcomeOf catalog settings v = .converted v ∧
      ∃ members, ∃ encoding : Encoding, raw = .object members ∧
        v = .object (encoding.annotated members) := by
  obtain ⟨record, encoding, hload, hwidth, hencode, hannotate⟩ := outcomeOf_eq_converted_iff.mp h
  obtain ⟨members, rfl, rfl⟩ := encoding.annotate_eq_ok_iff.mp hannotate
  refine ⟨outcomeOf_eq_converted_iff.mpr ⟨record, encoding, ?_, hwidth, hencode, ?_⟩,
    members, encoding, rfl, rfl⟩
  · rw [encoding.load_annotated, hload]
  · rw [encoding.annotate_eq_ok_iff]
    exact ⟨_, rfl, by rw [encoding.annotated_annotated]⟩

/-- A batch that ends with a report tells of all of its records. -/
theorem report_of_run {records : List Json} {report : Report}
    (h : (run catalog settings records).outcome = .ok report) :
    report = .ofOutcomes (records.map (outcomeOf catalog settings)) := by
  rw [outcome_run] at h
  split_ifs at h
  · rcases hfailure : (records.map (outcomeOf catalog settings)).findSome? Outcome.failure?
        with _ | cause
    · rw [hfailure, Option.elim_none, Except.ok.injEq] at h
      exact h.symm
    · simp [hfailure] at h
  · exact (Except.ok.inj h).symm

/-- What a report holds is what some record of the batch was converted to. -/
theorem exists_of_mem_report {records : List Json} {report : Report}
    (h : (run catalog settings records).outcome = .ok report) (hv : v ∈ report.records) :
    ∃ raw ∈ records, outcomeOf catalog settings raw = .converted v := by
  obtain rfl := report_of_run h
  obtain ⟨outcome, houtcome, hv⟩ := List.mem_filterMap.mp hv
  obtain ⟨raw, hraw, rfl⟩ := List.mem_map.mp houtcome
  refine ⟨raw, hraw, ?_⟩
  rcases houtcome : outcomeOf catalog settings raw <;> simp_all [Outcome.converted?]

/-- A batch of records that are converted to themselves reports these records. -/
theorem run_of_converted {records : List Json}
    (h : ∀ v ∈ records, outcomeOf catalog settings v = .converted v) :
    (run catalog settings records).outcome =
      .ok { records, converted := records.length, skipped := 0 } := by
  have houtcomes : records.map (outcomeOf catalog settings) = records.map Outcome.converted :=
    List.map_congr_left h
  have hreport : Report.ofOutcomes (records.map Outcome.converted) =
      { records, converted := records.length, skipped := 0 } := by
    have hrecords : (records.map Outcome.converted).filterMap Outcome.converted? = records := by
      rw [List.filterMap_map]
      exact List.filterMap_some
    have hskipped : (records.map Outcome.converted).countP
        (fun outcome => outcome.converted?.isNone) = 0 := by
      simp [Outcome.converted?]
    rw [Report.ofOutcomes, hrecords, hskipped]
  have hfailure : (records.map Outcome.converted).findSome? Outcome.failure? = none := by
    simp [Outcome.failure?]
  rw [outcome_run, houtcomes, hreport, hfailure, Option.elim_none, ite_self]

/-- **Converting again changes nothing.**  A converted record is an object with the members of the
record, except that it has a label and literals of its own; it is converted to itself.  A batch of
the records that another batch has reported reports the same records, and passes over none. -/
theorem convert_again (catalog : Catalog) (settings : Settings) :
    (∀ raw v, outcomeOf catalog settings raw = .converted v → ∃ members result,
      raw = .object members ∧ v = .object result ∧
      (∀ key, key ∈ Keyed.keys result ↔
        key ∈ Keyed.keys members ∨ key = "rule_label" ∨ key = "values") ∧
      ((Keyed.keys members).Pairwise (· < ·) → (Keyed.keys result).Pairwise (· < ·)) ∧
      (∀ key, key ≠ "rule_label" → key ≠ "values" →
        Keyed.find? key result = Keyed.find? key members) ∧
      outcomeOf catalog settings v = .converted v) ∧
    ∀ records report, (run catalog settings records).outcome = .ok report →
      (run catalog settings report.records).outcome = .ok { report with skipped := 0 } := by
  constructor
  · intro raw v h
    obtain ⟨hagain, members, encoding, rfl, rfl⟩ := converted_again h
    exact ⟨members, _, rfl, rfl, fun key => encoding.mem_keys_annotated members,
      encoding.sorted_annotated members, fun key => encoding.find?_annotated members, hagain⟩
  · intro records report h
    have hconverted : ∀ v ∈ report.records, outcomeOf catalog settings v = .converted v := by
      intro v hv
      obtain ⟨raw, -, hraw⟩ := exists_of_mem_report h hv
      exact (converted_again hraw).1
    rw [run_of_converted hconverted]
    obtain rfl := report_of_run h
    rfl

end Batch

/-! ### A record that is converted twice -/

namespace Sample

/-- The catalog of the sample database. -/
def catalog : Catalog := .ofEntries [entry]

/-- The layout of `SELECT customer FROM sale`. -/
def customersLayout : Json :=
  .object
    [("from", .object [("table_units", .array [.array [.string "table_unit", .ofNat 1]])]),
      ("select", .array [.bool false, .array [.array [.ofNat 0,
        .array [.ofNat 0, .array [.ofNat 0, .ofNat 2, .bool false], .null]]]])]

/-- A record of that query, with a label that is no label. -/
def record : Json :=
  .object [("db_id", .string "shop"), ("rule_label", .bool true), ("sql", customersLayout)]

/-- What that record is converted to. -/
def convertedRecord : Json :=
  .object
    [("db_id", .string "shop"),
      ("rule_label", .string "Root1(3) Root(5) Sel(0) N(0) A(0) C(2) T(1)"),
      ("sql", customersLayout), ("values", .array [])]

theorem run_record : (Batch.run catalog {} [record, .null]).outcome =
    .ok { records := [convertedRecord], converted := 1, skipped := 1 } := rfl

end Sample

theorem Batch.convert_again_sample :
    outcomeOf Sample.catalog {} Sample.record = .converted Sample.convertedRecord ∧
      outcomeOf Sample.catalog {} Sample.convertedRecord = .converted Sample.convertedRecord ∧
      (run Sample.catalog {} [Sample.record, .null]).outcome =
        .ok { records := [Sample.convertedRecord], converted := 1, skipped := 1 } ∧
      (run Sample.catalog {} [Sample.convertedRecord]).outcome =
        .ok { records := [Sample.convertedRecord], converted := 1, skipped := 0 } := by
  have hrecord : outcomeOf Sample.catalog {} Sample.record =
      .converted Sample.convertedRecord := rfl
  obtain ⟨members, result, -, -, -, -, -, hagain⟩ :=
    (Batch.convert_again Sample.catalog {}).1 _ _ hrecord
  exact ⟨hrecord, hagain, Sample.run_record,
    (Batch.convert_again Sample.catalog {}).2 _ _ Sample.run_record⟩

end QueryGrammar
