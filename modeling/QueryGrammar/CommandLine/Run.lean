/-
QueryGrammar/CommandLine/Run.lean

Running a command on a file tree.

A run yields the lines for the standard output, the problem that ended it if there was one, and
the file tree afterwards.  What was printed before a problem stays printed.
-/
import QueryGrammar.CommandLine.Arguments
import QueryGrammar.CommandLine.Explanation
import QueryGrammar.Dataset.Batch
import QueryGrammar.Settings.Discovery

namespace QueryGrammar

/-! ### Problems -/

/-- What ends a run early. -/
inductive Problem where
  | failure (cause : Failure)
  | noRecord (index count : Nat)
  /-- A problem that arose during some activity. -/
  | during (activity : String) (problem : Problem)
  deriving DecidableEq

/-- The text of a problem: from the outermost activity to the innermost cause. -/
def Problem.text : Problem → String
  | .failure cause => ": ".intercalate (cause.message :: cause.source?.toList)
  | .noRecord index count =>
    "record " ++ toString index ++ " out of range (" ++ toString count ++ " records)"
  | .during activity problem => activity ++ ": " ++ problem.text

/-! ### Runs -/

/-- The lines printed so far, the problem that ended the run, and the file tree afterwards. -/
structure Run where
  lines : List String := []
  problem : Option Problem := none
  tree : FileTree

namespace Run

/-- The status with which the program ends. -/
def status (run : Run) : Nat := if run.problem.isSome then 1 else 0

/-- The text for the standard output. -/
def output (run : Run) : String := String.join (run.lines.map (· ++ "\n"))

/-- The text for the standard error stream. -/
def report (colors : Bool) (run : Run) : String :=
  match run.problem with
  | none => ""
  | some problem => (Style.strong .red).paint colors "Error:" ++ " " ++ problem.text ++ "\n"

end Run

namespace Command

/-- The settings for a command. -/
def loadSettings (surroundings : Surroundings) (tree : FileTree) (config : Option String) :
    Except Problem Settings :=
  (Settings.discover tree surroundings.home config).mapError fun e =>
    .during "loading encoder configuration" (.failure e)

/-- The lines about a batch that went through. -/
def reportLines (colors : Bool) (outputPath : String) (report : Report) : List String :=
  [(Style.colored .green).paint colors "✓" ++ " Finished " ++
      (Style.colored .cyan).paint colors (toString report.converted) ++ " records, skipped " ++
      (Style.colored .yellow).paint colors (toString report.skipped),
    Explanation.fieldLine colors "Output:" .white outputPath]

/-- Convert the records of a file. -/
def runConvert (surroundings : Surroundings) (tree : FileTree)
    (dataPath tablePath outputPath : String) (config : Option String) : Run :=
  match loadSettings surroundings tree config with
  | .error problem => { problem := some problem, tree }
  | .ok settings =>
    match convertFile settings dataPath tablePath outputPath tree with
    | (.error e, tree) =>
      { problem := some (.during ("converting " ++ dataPath) (.failure e)), tree }
    | (.ok report, tree) => { lines := reportLines surroundings.colors outputPath report, tree }

/-- The settings, the catalog and the record that an explanation needs. -/
def loadRecord (surroundings : Surroundings) (tree : FileTree) (dataPath tablePath : String)
    (index : Nat) (config : Option String) : Except Problem (Settings × Catalog × Record) := do
  let settings ← loadSettings surroundings tree config
  let catalog ← (Catalog.load tree tablePath).mapError .failure
  let records ← (loadRecords tree dataPath).mapError .failure
  match records[index]? with
  | none => throw (.noRecord index records.length)
  | some raw =>
    let record ← (Record.load raw).mapError .failure
    pure (settings, catalog, record)

/-- Explain the encoding of one record. -/
def runExplain (surroundings : Surroundings) (tree : FileTree) (dataPath tablePath : String)
    (index : Nat) (config : Option String) : Run :=
  match loadRecord surroundings tree dataPath tablePath index config with
  | .error problem => { problem := some problem, tree }
  | .ok (settings, catalog, record) =>
    let lines := Explanation.recordLines surroundings.colors record
    let encoded : Except Failure (Schema × Encoding) := do
      let schema ← catalog.get record.database
      let encoding ← (record.encode catalog settings).outcome
      pure (schema, encoding)
    match encoded with
    | .error e => { lines, problem := some (.failure e), tree }
    | .ok (schema, encoding) =>
      { lines := lines ++ Explanation.encodingLines surroundings.colors schema encoding, tree }

/-- The name and the version of the program. -/
def versionLine : String := "semql 0.3.0"

/-- Run a command. -/
def run (surroundings : Surroundings) (tree : FileTree) : Command → Run
  | .convert dataPath tablePath outputPath config =>
    runConvert surroundings tree dataPath tablePath outputPath config
  | .explain dataPath tablePath index config =>
    runExplain surroundings tree dataPath tablePath index config
  | .grammar => { lines := Explanation.grammarLines surroundings.colors, tree }
  | .version => { lines := [versionLine], tree }

/-! ### Footprint -/

/-- The files that a command may read. -/
def inputs (surroundings : Surroundings) : Command → List String
  | .convert dataPath tablePath _ config | .explain dataPath tablePath _ config =>
    let settings := match config with
      | some path => [path]
      | none => Settings.places surroundings.home
    settings ++ [tablePath, dataPath]
  | .grammar | .version => []

/-- The file that a command may write. -/
def output? : Command → Option String
  | .convert _ _ outputPath _ => some outputPath
  | .explain _ _ _ _ | .grammar | .version => none

end Command

/-! ### Surroundings -/

namespace Surroundings

/-- Whether colours are wanted: `force` and `never` are switches of the surroundings, of which the
first one counts more, and `allow` may turn the colours of a terminal off.  The value `0` turns a
switch off. -/
def wantsColors (force never allow : Option String) (terminal : Bool) : Bool :=
  let isOn := fun (value : String) => value ≠ "0"
  if force.any isOn then true
  else if never.isSome then false
  else terminal && allow.all isOn

/-- The directory of the user's settings: the one that the surroundings name by a full path, or
`.config` in the user's own directory. -/
def settingsHome (named own : Option String) : Option String :=
  match named.filter (·.startsWith "/") with
  | some directory => some directory
  | none => (own.filter (· ≠ "")).map (· ++ "/.config")

end Surroundings

end QueryGrammar
