/-
QueryGrammar/Proofs/Batch.lean

What a batch reports.

Each record is converted, too wide, or failed (`Batch.outcomeOf`), whatever the other records and
the mode are.  From these outcomes and their order follows all that a batch says and reports: the
converted records and the two counts (`Report.ofOutcomes`), and one word about each record that is
passed over, told by its place (`Batch.skipsFrom`).

In lenient mode every record takes part.  In strict mode the first failure ends the batch, so that
only the records before it take part, and none of these has failed.

Notices about the encoding of a record are no words about passing it over and stand apart from them:
a batch has those of every record (`Batch.run_eq`).

Main result: `Batch.run_reports`.
-/
import QueryGrammar.Dataset.Batch

namespace QueryGrammar

/-! ### What became of a record -/

namespace Outcome

/-- The converted record, if there is one. -/
def converted? : Outcome → Option Json
  | .converted record => some record
  | .tooWide _ | .failed _ => none

/-- The cause of the failure, if there is one. -/
def failure? : Outcome → Option Failure
  | .failed cause => some cause
  | .converted _ | .tooWide _ => none

/-- The word about a record at a place of a batch, if it is passed over. -/
def skip? (raw : Json) (index : Nat) : Outcome → Option Skip
  | .converted _ => none
  | .tooWide width => some (.tooWide index width)
  | .failed cause => some (.failed index cause (Batch.questionOf raw))

end Outcome

/-! ### Reports -/

namespace Report

/-- The report about records of which this became. -/
def ofOutcomes (outcomes : List Outcome) : Report where
  records := outcomes.filterMap Outcome.converted?
  converted := (outcomes.filterMap Outcome.converted?).length
  skipped := outcomes.countP fun outcome => outcome.converted?.isNone

/-- Two reports, one after the other. -/
def append (first second : Report) : Report where
  records := first.records ++ second.records
  converted := first.converted + second.converted
  skipped := first.skipped + second.skipped

theorem ofOutcomes_append (xs ys : List Outcome) :
    ofOutcomes (xs ++ ys) = (ofOutcomes xs).append (ofOutcomes ys) := by
  simp [ofOutcomes, append]

theorem converted_add_skipped (outcomes : List Outcome) :
    (ofOutcomes outcomes).converted + (ofOutcomes outcomes).skipped = outcomes.length := by
  induction outcomes with
  | nil => rfl
  | cons outcome outcomes ih =>
    simp only [ofOutcomes] at ih ⊢
    rcases h : outcome.converted? with _ | record <;> simp [h] <;> omega

end Report

/-! ### Going through the records -/

namespace Batch

/-- Nothing is noticed any more when the records are gone through. -/
@[simp] theorem noticed_collect (strict : Bool) (index : Nat) (pairs : List (Json × Outcome)) :
    (collect strict index pairs).noticed = [] := by
  induction pairs generalizing index with
  | nil => rfl
  | cons pair pairs ih =>
    obtain ⟨raw, record | width | cause⟩ := pair
    · exact ih (index + 1)
    · rfl
    · rcases strict <;> rfl

/-- A record that does not end the batch adds its word and its part of the report. -/
theorem collect_cons {strict : Bool} {outcome : Outcome}
    (h : strict = false ∨ outcome.failure? = none) (index : Nat) (raw : Json)
    (rest : List (Json × Outcome)) :
    collect strict index ((raw, outcome) :: rest) =
      { skips := (outcome.skip? raw index).toList ++ (collect strict (index + 1) rest).skips
        outcome := (collect strict (index + 1) rest).outcome.map
          (Report.append (.ofOutcomes [outcome])) } := by
  have hconverted (record : Json) : (fun r : Report => r.addConverted record) =
      Report.append (.ofOutcomes [.converted record]) := by
    funext r
    simp [Report.addConverted, Report.append, Report.ofOutcomes, Outcome.converted?, Nat.add_comm]
  have hskipped (o : Outcome) (ho : o.converted? = none) :
      Report.addSkipped = Report.append (.ofOutcomes [o]) := by
    funext r
    simp [Report.addSkipped, Report.append, Report.ofOutcomes, ho, Nat.add_comm]
  rcases outcome with record | width | cause
  · rw [collect, hconverted, noticed_collect]
    rfl
  · rw [collect, hskipped (.tooWide width) rfl]
    rfl
  · -- a failure takes this way in lenient settings only
    obtain rfl : strict = false := by simpa [Outcome.failure?] using h
    rw [collect, hskipped (.failed cause) rfl]
    rfl

/-- A failure ends the batch in strict settings. -/
theorem collect_cons_failed (index : Nat) (raw : Json) (cause : Failure)
    (rest : List (Json × Outcome)) :
    collect true index ((raw, .failed cause) :: rest) = { skips := [], outcome := .error cause } :=
  rfl

section Collect

variable (f : Json → Outcome)

/-- The words about the records that are passed over, the first record having the given place. -/
def skipsFrom (index : Nat) (records : List Json) : List Skip :=
  (records.zipIdx index).filterMap fun place => (f place.1).skip? place.1 place.2

theorem skipsFrom_cons (index : Nat) (raw : Json) (records : List Json) :
    skipsFrom f index (raw :: records) =
      ((f raw).skip? raw index).toList ++ skipsFrom f (index + 1) records := by
  rw [skipsFrom, List.zipIdx_cons, List.filterMap_cons]
  rcases (f raw).skip? raw index <;> simp [skipsFrom]

/-- There is one word about each record that was not converted. -/
theorem length_skipsFrom (index : Nat) (records : List Json) :
    (skipsFrom f index records).length = (Report.ofOutcomes (records.map f)).skipped := by
  induction records generalizing index with
  | nil => rfl
  | cons raw records ih =>
    have hskip : ((f raw).skip? raw index).toList.length =
        if (f raw).converted?.isNone then 1 else 0 := by
      rcases f raw <;> rfl
    rw [skipsFrom_cons, List.length_append, ih, hskip, Report.ofOutcomes, Report.ofOutcomes,
      List.map_cons, List.countP_cons, Nat.add_comm]

/-- In lenient settings every record takes part in the batch. -/
theorem collect_lenient (index : Nat) (records : List Json) :
    collect false index (records.map fun raw => (raw, f raw)) =
      { skips := skipsFrom f index records, outcome := .ok (.ofOutcomes (records.map f)) } := by
  induction records generalizing index with
  | nil => rfl
  | cons raw records ih =>
    rw [List.map_cons, collect_cons (.inl rfl), ih, skipsFrom_cons, List.map_cons,
      ← List.singleton_append (l := records.map f), Report.ofOutcomes_append]
    rfl

/-- In strict settings the first failure ends the batch, and no later record takes part in it. -/
theorem collect_strict (index : Nat) (records : List Json) :
    collect true index (records.map fun raw => (raw, f raw)) =
      { skips := skipsFrom f index (records.takeWhile fun raw => (f raw).failure?.isNone)
        outcome := ((records.map f).findSome? Outcome.failure?).elim
          (.ok (.ofOutcomes (records.map f))) .error } := by
  induction records generalizing index with
  | nil => rfl
  | cons raw records ih =>
    rw [List.map_cons, List.map_cons, List.takeWhile_cons, List.findSome?_cons]
    rcases hfailure : (f raw).failure? with _ | cause
    · rw [collect_cons (.inr hfailure), ih, ← List.singleton_append (l := records.map f),
        Report.ofOutcomes_append]
      simp only [Option.isNone_none, if_true, skipsFrom_cons]
      rcases (records.map f).findSome? Outcome.failure? <;> rfl
    · have hf : f raw = .failed cause := by
        rcases h : f raw <;> simp_all [Outcome.failure?]
      rw [hf, collect_cons_failed]
      rfl

/-- No word tells of a failure if no record has failed. -/
theorem failed_notMem_skipsFrom {records : List Json}
    (unfailed : ∀ raw ∈ records, (f raw).failure? = none) (index i : Nat) (cause : Failure)
    (question : String) : .failed i cause question ∉ skipsFrom f index records := by
  intro h
  obtain ⟨⟨raw, place⟩, hmem, hskip⟩ := List.mem_filterMap.mp h
  have hnone : (f raw).failure? = none := unfailed raw (List.fst_mem_of_mem_zipIdx hmem)
  rcases houtcome : f raw <;> simp [houtcome, Outcome.skip?, Outcome.failure?] at hskip hnone

end Collect

/-! ### Running a batch -/

variable (catalog : Catalog) (settings : Settings)

/-- What becomes of a record. -/
def outcomeOf (raw : Json) : Outcome := (Conversion.ofRecord catalog settings raw).outcome

/-- Running a batch is going through what becomes of its records; the notices are those about each
record on its own. -/
theorem run_eq (records : List Json) : run catalog settings records =
    { collect settings.strict 0 (records.map fun raw => (raw, outcomeOf catalog settings raw)) with
      noticed := records.map fun raw => (Conversion.ofRecord catalog settings raw).notices } := by
  have hpairs : records.zip ((records.map (Conversion.ofRecord catalog settings)).map (·.outcome)) =
      records.map fun raw => (raw, outcomeOf catalog settings raw) := by
    rw [List.map_map, List.map_prod_left_eq_zip]
    rfl
  rw [run, hpairs, List.map_map]
  rfl

/-- The mode makes no difference to a record. -/
theorem outcomeOf_mode (strict : Bool) :
    outcomeOf catalog { settings with strict } = outcomeOf catalog settings := rfl

/-- How a batch ends is told by what becomes of its records. -/
theorem outcome_run (records : List Json) :
    (run catalog settings records).outcome =
      if settings.strict then
        ((records.map (outcomeOf catalog settings)).findSome? Outcome.failure?).elim
          (.ok (.ofOutcomes (records.map (outcomeOf catalog settings)))) .error
      else .ok (.ofOutcomes (records.map (outcomeOf catalog settings))) := by
  rw [run_eq]
  rcases settings.strict
  · rw [collect_lenient, if_neg Bool.false_ne_true]
  · rw [collect_strict, if_pos rfl]

theorem outcome_run_lenient (records : List Json) :
    (run catalog { settings with strict := false } records).outcome =
      .ok (.ofOutcomes (records.map (outcomeOf catalog settings))) := by
  rw [outcome_run, outcomeOf_mode, if_neg Bool.false_ne_true]

theorem skips_run_lenient (records : List Json) :
    (run catalog { settings with strict := false } records).skips =
      skipsFrom (outcomeOf catalog settings) 0 records := by
  rw [run_eq, outcomeOf_mode, collect_lenient]

theorem outcome_run_strict (records : List Json) :
    (run catalog { settings with strict := true } records).outcome =
      ((records.map (outcomeOf catalog settings)).findSome? Outcome.failure?).elim
        (.ok (.ofOutcomes (records.map (outcomeOf catalog settings)))) .error := by
  rw [outcome_run, outcomeOf_mode, if_pos rfl]

theorem skips_run_strict (records : List Json) :
    (run catalog { settings with strict := true } records).skips =
      skipsFrom (outcomeOf catalog settings) 0
        (records.takeWhile fun raw => (outcomeOf catalog settings raw).failure?.isNone) := by
  rw [run_eq, outcomeOf_mode, collect_strict]

/-- **What a batch reports**, in lenient and in strict mode.

A lenient batch ends with a report: its records are the converted ones, in order, its counts add
up to the number of records, and reports of two batches are put together to that of both, one after
the other.  There is one word about each record that is passed over, in order and with its place.

A strict batch ends with the first failure, if there is one, and otherwise as the lenient one does.
The words are those about the records before the first failure, all of them too wide. -/
theorem run_reports (records : List Json) :
    let outcomes := records.map (outcomeOf catalog settings)
    let lenient := run catalog { settings with strict := false }
    let strict := run catalog { settings with strict := true }
    (∃ report, (lenient records).outcome = .ok report ∧
      report.records = outcomes.filterMap Outcome.converted? ∧
      report.converted = report.records.length ∧
      report.converted + report.skipped = records.length ∧
      (lenient records).skips.length = report.skipped) ∧
    (∀ more, (lenient (records ++ more)).outcome = do
      let first ← (lenient records).outcome
      let second ← (lenient more).outcome
      pure (first.append second)) ∧
    (lenient records).skips = skipsFrom (outcomeOf catalog settings) 0 records ∧
    ((∃ e, (strict records).outcome = .error e) ↔
      ∃ raw ∈ records, (outcomeOf catalog settings raw).failure?.isSome) ∧
    (strict records).outcome =
      (outcomes.findSome? Outcome.failure?).elim (lenient records).outcome .error ∧
    (strict records).skips = skipsFrom (outcomeOf catalog settings) 0
      (records.takeWhile fun raw => (outcomeOf catalog settings raw).failure?.isNone) ∧
    ∀ index cause question, .failed index cause question ∉ (strict records).skips := by
  intro outcomes lenient strict
  have hlenient (records : List Json) := outcome_run_lenient catalog settings records
  have hstrict := outcome_run_strict catalog settings records
  refine ⟨⟨_, hlenient records, rfl, rfl, ?_, ?_⟩, fun more => ?_,
    skips_run_lenient catalog settings records, ?_, ?_, skips_run_strict catalog settings records,
    fun index cause question => ?_⟩
  · rw [Report.converted_add_skipped, List.length_map]
  · rw [skips_run_lenient, length_skipsFrom]
  · rw [hlenient, hlenient, hlenient, List.map_append, Report.ofOutcomes_append]
    rfl
  · have hfails : (∃ e, (strict records).outcome = .error e) ↔
        (outcomes.findSome? Outcome.failure?).isSome := by
      rw [hstrict]
      rcases outcomes.findSome? Outcome.failure? with _ | cause <;> simp
    rw [hfails, List.findSome?_map, List.findSome?_isSome_iff]
    rfl
  · rw [hstrict, hlenient]
  · rw [skips_run_strict]
    apply failed_notMem_skipsFrom
    intro raw hraw
    simpa using List.all_eq_true.mp List.all_takeWhile raw hraw

end Batch

end QueryGrammar
