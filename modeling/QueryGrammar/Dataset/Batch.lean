/-
QueryGrammar/Dataset/Batch.lean

Converting the records of a dataset.

Every record is converted on its own.  A record that cannot be converted is passed over with a
word about it; in strict settings a failure ends the batch instead, though a select list that is
too wide never does.

All records are converted before the first word is said, so what is noticed about a record is kept
for every record, also of a batch that a failure ends (`Batch.noticed`).  Who listens to the whole
program hears all of it.  Several records are converted side by side, away from where the batch is
run, and only a single record is converted in place; who listens in that place alone hears the
notices about a single record and no others (`Batch.notices`).
-/
import QueryGrammar.Dataset.Record
import QueryGrammar.Json.Printer

namespace QueryGrammar

/-- A word about a record that is passed over, told by its place in the dataset. -/
inductive Skip where
  | tooWide (index width : Nat)
  | failed (index : Nat) (cause : Failure) (question : String)

/-- The text about a record that is passed over. -/
def Skip.message : Skip → String
  | .tooWide index width =>
    "Skipping record " ++ toString index ++ ": " ++ toString width ++ " selected columns"
  | .failed index cause _ => "Skipping record " ++ toString index ++ ": " ++ cause.message

/-- The records that were converted, and the numbers of both kinds of records. -/
structure Report where
  records : List Json := []
  converted : Nat := 0
  skipped : Nat := 0

namespace Report

/-- Put a converted record in front. -/
def addConverted (report : Report) (record : Json) : Report :=
  { report with records := record :: report.records, converted := report.converted + 1 }

/-- Count a record that was passed over. -/
def addSkipped (report : Report) : Report := { report with skipped := report.skipped + 1 }

end Report

/-- A batch that was run: what was noticed about each of the records, what was said about those that
were passed over, and the report unless a failure ended it. -/
structure Batch where
  noticed : List (List Notice) := []
  skips : List Skip
  outcome : Except Failure Report

namespace Batch

/-- The question of a raw record, empty if it has none. -/
def questionOf (raw : Json) : String := ((raw.get? "question").bind Json.string?).getD ""

/-- Go through records and what became of them, in order, the first one having the given place. -/
def collect (strict : Bool) (index : Nat) : List (Json × Outcome) → Batch
  | [] => { skips := [], outcome := .ok {} }
  | (raw, outcome) :: rest =>
    match outcome with
    | .converted record =>
      let others := collect strict (index + 1) rest
      { others with outcome := others.outcome.map (·.addConverted record) }
    | .tooWide width =>
      let others := collect strict (index + 1) rest
      { skips := .tooWide index width :: others.skips
        outcome := others.outcome.map Report.addSkipped }
    | .failed cause =>
      if strict then { skips := [], outcome := .error cause }
      else
        let others := collect strict (index + 1) rest
        { skips := .failed index cause (questionOf raw) :: others.skips
          outcome := others.outcome.map Report.addSkipped }

/-- Convert the records of a dataset. -/
def run (catalog : Catalog) (settings : Settings) (records : List Json) : Batch :=
  let conversions := records.map (Conversion.ofRecord catalog settings)
  { collect settings.strict 0 (records.zip (conversions.map (·.outcome))) with
    noticed := conversions.map (·.notices) }

/-- The notices that are heard in the place where a batch is run, of all that were left. -/
def notices (batch : Batch) : List Notice :=
  match batch.noticed with
  | [own] => own
  | _ => []

end Batch

/-! ### Files -/

/-- The records in a file. -/
def loadRecords (tree : FileTree) (path : String) : Except Failure (List Json) :=
  match tree.read path with
  | .ok text => (Json.parseArray text).mapError .json
  | .error e => .error (.file e)

/-- Write records to a file. -/
def writeRecords (tree : FileTree) (path : String) (records : List Json) :
    Except Failure FileTree :=
  (tree.write path (Json.array records).compact).mapError .file

/-- Convert the records of a file: the catalog is read first, then the records, and nothing is
written unless the whole batch went through. -/
def convertFile (settings : Settings) (dataPath tablePath outputPath : String) (tree : FileTree) :
    Except Failure Report × FileTree :=
  let result : Except Failure (Report × FileTree) := do
    let catalog ← Catalog.load tree tablePath
    let records ← loadRecords tree dataPath
    let report ← (Batch.run catalog settings records).outcome
    let tree ← writeRecords tree outputPath report.records
    pure (report, tree)
  match result with
  | .ok (report, tree) => (.ok report, tree)
  | .error e => (.error e, tree)

end QueryGrammar
