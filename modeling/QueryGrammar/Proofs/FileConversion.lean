/-
QueryGrammar/Proofs/FileConversion.lean

What converting a file does to the files of a machine.

`ConvertsFile` has one case for each way in which the conversion of a file ends: there are four
steps, each of which may fail, and a step is taken after those before it have succeeded
(`convertsFile_iff`).

A successful conversion leaves a text of records.  Records that are read from a file are nested less
deep than the reader goes, and the members that a conversion sets are nested hardly at all, so the
records in that text may be read again (`Batch.fits_of_mem_report`, `loadRecords_of_read`).

Main result: exactly one of the ways to end applies, a failure before anything is written leaves
everything as it was, and a success changes the output and nothing else
(`convertFile_all_or_nothing`).
-/
import QueryGrammar.Proofs.Annotation
import QueryGrammar.Proofs.Files
import QueryGrammar.Proofs.Printing

namespace QueryGrammar

/-! ### The four steps -/

/-- How the conversion of a file ends, with the files after it. -/
inductive ConvertsFile (settings : Settings) (dataPath tablePath outputPath : String)
    (tree : FileTree) : Except Failure Report × FileTree → Prop
  /-- The catalog cannot be loaded. -/
  | tables {e : Failure} (failure : Catalog.load tree tablePath = .error e) :
      ConvertsFile settings dataPath tablePath outputPath tree (.error e, tree)
  /-- The catalog is loaded, but the records cannot be. -/
  | data {catalog : Catalog} {e : Failure} (tables : Catalog.load tree tablePath = .ok catalog)
      (failure : loadRecords tree dataPath = .error e) :
      ConvertsFile settings dataPath tablePath outputPath tree (.error e, tree)
  /-- A record fails, and the settings are strict. -/
  | batch {catalog : Catalog} {records : List Json} {e : Failure}
      (tables : Catalog.load tree tablePath = .ok catalog)
      (data : loadRecords tree dataPath = .ok records) (strict : settings.strict)
      (failure : (Batch.run catalog settings records).outcome = .error e) :
      ConvertsFile settings dataPath tablePath outputPath tree (.error e, tree)
  /-- There is no place for the output, and nothing is written. -/
  | output {catalog : Catalog} {records : List Json} {report : Report} {e : Failure}
      (tables : Catalog.load tree tablePath = .ok catalog)
      (data : loadRecords tree dataPath = .ok records)
      (batch : (Batch.run catalog settings records).outcome = .ok report)
      (failure : writeRecords tree outputPath report.records = .error e) :
      ConvertsFile settings dataPath tablePath outputPath tree (.error e, tree)
  /-- Every step succeeds. -/
  | done {catalog : Catalog} {records : List Json} {report : Report} {tree' : FileTree}
      (tables : Catalog.load tree tablePath = .ok catalog)
      (data : loadRecords tree dataPath = .ok records)
      (batch : (Batch.run catalog settings records).outcome = .ok report)
      (output : writeRecords tree outputPath report.records = .ok tree') :
      ConvertsFile settings dataPath tablePath outputPath tree (.ok report, tree')

section Convert

variable {settings : Settings} {dataPath tablePath outputPath : String} {tree : FileTree}

/-- Only a strict batch fails. -/
theorem Batch.strict_of_run {catalog : Catalog} {records : List Json} {e : Failure}
    (h : (run catalog settings records).outcome = .error e) : settings.strict := by
  by_contra hlenient
  rw [outcome_run, if_neg hlenient] at h
  cases h

/-- Converting a file ends in exactly one of these ways. -/
theorem convertsFile_iff {ending : Except Failure Report × FileTree} :
    ConvertsFile settings dataPath tablePath outputPath tree ending ↔
      convertFile settings dataPath tablePath outputPath tree = ending := by
  constructor
  · intro h
    unfold convertFile
    cases h with
    | tables failure => rw [failure]; rfl
    | data tables failure => rw [tables, failure]; rfl
    | batch tables data _ failure =>
      simp only [tables, data, failure, Bind.bind, Except.bind]
    | output tables data batch failure =>
      simp only [tables, data, batch, failure, Bind.bind, Except.bind]
    | done tables data batch output =>
      simp only [tables, data, batch, output, Bind.bind, Except.bind, pure, Except.pure]
  · rintro rfl
    unfold convertFile
    rcases tables : Catalog.load tree tablePath with e | catalog
    · exact .tables tables
    rcases data : loadRecords tree dataPath with e | records
    · exact .data tables data
    simp only [Bind.bind, Except.bind]
    rcases batch : (Batch.run catalog settings records).outcome with e | report
    · exact .batch tables data (Batch.strict_of_run batch) batch
    dsimp only
    rcases output : writeRecords tree outputPath report.records with e | tree'
    · exact .output tables data batch output
    · exact .done tables data batch output

theorem exists_put_of_writeRecords {records : List Json} {tree' : FileTree}
    (h : writeRecords tree outputPath records = .ok tree') :
    ∃ target, tree.resolve outputPath = .ok target ∧ tree.isDirectory target = false ∧
      tree.isDirectory target.dropLast ∧
      tree' = tree.put target (Json.array records).compact := by
  unfold writeRecords at h
  rcases hwrite : tree.write outputPath (Json.array records).compact with e | written
  · rw [hwrite] at h
    cases h
  · rw [hwrite] at h
    cases h
    exact FileTree.exists_put_of_write hwrite

end Convert

/-! ### Reading what was written -/

theorem Literal.fits_toJson (literal : Literal) : Json.Fits 1 literal.toJson := by
  cases literal with
  | text s => exact .string 1 s
  | number x =>
    cases x with
    | finite x => exact .number 1 (.float x)
    | infinite _ => exact .null 1
  | column use =>
    refine .array fun v hv => ?_
    simp only [List.mem_cons, List.not_mem_nil, or_false] at hv
    obtain rfl | rfl | rfl := hv
    · exact .number 0 _
    · exact .number 0 _
    · exact .bool 0 _

/-- The members that an encoding sets are nested hardly at all. -/
theorem Encoding.fits_annotated (encoding : Encoding) {depth : Nat} {members : List (String × Json)}
    (h : Json.Fits (depth + 3) (.object members)) :
    Json.Fits (depth + 3) (.object (encoding.annotated members)) := by
  cases h with
  | object sorted hmembers =>
    refine .object (encoding.sorted_annotated members sorted) fun member hmember => ?_
    have hvalues : Json.Fits (depth + 2) encoding.valuesToJson := by
      refine .array fun v hv => ?_
      obtain ⟨literal, -, rfl⟩ := List.mem_map.mp hv
      exact literal.fits_toJson.mono (Nat.le_add_left _ _)
    rcases Keyed.mem_insert hmember with rfl | hmember
    · exact hvalues
    · rcases Keyed.mem_insert hmember with rfl | hmember
      · exact .string _ _
      · exact hmembers member hmember

/-- The records of a report are nested no deeper than those of the batch. -/
theorem Batch.fits_of_mem_report {catalog : Catalog} {settings : Settings} {records : List Json}
    {report : Report} {depth : Nat} (h : (run catalog settings records).outcome = .ok report)
    (fits : ∀ raw ∈ records, raw.Fits (depth + 3)) : ∀ v ∈ report.records, v.Fits (depth + 3) := by
  intro v hv
  obtain ⟨raw, hraw, hconverted⟩ := exists_of_mem_report h hv
  obtain ⟨-, members, encoding, rfl, rfl⟩ := converted_again hconverted
  exact encoding.fits_annotated (fits _ hraw)

theorem loadRecords_eq_ok_iff {tree : FileTree} {path : String} {records : List Json} :
    loadRecords tree path = .ok records ↔
      ∃ text, tree.read path = .ok text ∧ Json.parseArray text = .ok records := by
  unfold loadRecords
  rcases tree.read path with e | text
  · simp
  · rcases hparse : Json.parseArray text with e | values
    · simp [hparse, Except.mapError]
    · simp [hparse, Except.mapError]

/-- Records are read back from a file with their compact text. -/
theorem loadRecords_of_read {tree : FileTree} {path : String} {records : List Json}
    (h : tree.read path = .ok (Json.array records).compact)
    (fits : ∀ record ∈ records, record.Fits (Json.maxDepth - 1))
    (reads : ∀ record ∈ records, record.ReadsBack) : loadRecords tree path = .ok records :=
  loadRecords_eq_ok_iff.mpr ⟨_, h, Json.parseArray_compact (.array fits) (.array reads)⟩

/-- **Converting a file is all or nothing.**  It ends in exactly one of the ways of `ConvertsFile`,
so a failure of the catalog comes before one of the records in their file, and that before the
failure of a record.

After each of these failures, and where the path of the output leads to no place for a file, every
file and directory is as it was, the output included.  If there is a report, it is that of the batch
of the loaded records with the loaded catalog, and the output holds the compact text of its records:
objects with commas between them, between brackets, and without blanks.  These are the records that
are read from the output afterwards, provided that their numbers are read back.  No other file
differs, no directory does, and every path that leads anywhere else is read as before. -/
theorem convertFile_all_or_nothing (settings : Settings) (dataPath tablePath outputPath : String)
    (tree : FileTree) :
    (∀ ending, ConvertsFile settings dataPath tablePath outputPath tree ending ↔
      convertFile settings dataPath tablePath outputPath tree = ending) ∧
    ∀ tree',
      (∀ e, convertFile settings dataPath tablePath outputPath tree = (.error e, tree') →
        tree' = tree) ∧
      ∀ report, convertFile settings dataPath tablePath outputPath tree = (.ok report, tree') →
        (∃ catalog records, Catalog.load tree tablePath = .ok catalog ∧
          loadRecords tree dataPath = .ok records ∧
          (Batch.run catalog settings records).outcome = .ok report) ∧
        (∀ record ∈ report.records, ∃ members, record = .object members ∧
          record.compact = "\x7b" ++ ",".intercalate (members.map fun member =>
            Json.quote member.1 ++ ":" ++ member.2.compact) ++ "\x7d") ∧
        ((∀ record ∈ report.records, record.ReadsBack) →
          loadRecords tree' outputPath = .ok report.records) ∧
        ∃ target, tree.resolve outputPath = .ok target ∧
          let text := "[" ++ ",".intercalate (report.records.map Json.compact) ++ "]"
          text = (Json.array report.records).compact ∧
          Keyed.find? target tree'.files = some (.ok text) ∧
          (∀ path ≠ target, Keyed.find? path tree'.files = Keyed.find? path tree.files) ∧
          { tree' with files := tree.files } = tree ∧
          (∀ path, tree'.isDirectory path = tree.isDirectory path) ∧
          tree'.read outputPath = .ok text ∧
          ∀ path p, tree.resolve path = .ok p → p ≠ target → tree'.read path = tree.read path := by
  refine ⟨fun ending => convertsFile_iff, fun tree' => ⟨fun e h => ?_, fun report h => ?_⟩⟩
  · -- no way to fail changes the tree
    cases convertsFile_iff.mpr h <;> rfl
  · cases convertsFile_iff.mpr h with
    | done tables data batch output =>
      obtain ⟨target, hresolve, hfile, hparent, rfl⟩ := exists_put_of_writeRecords output
      have hread : (tree.put target _).read outputPath = .ok (Json.array report.records).compact :=
        FileTree.read_put_self hparent hresolve hfile
      obtain ⟨dataText, -, hparse⟩ := loadRecords_eq_ok_iff.mp data
      refine ⟨⟨_, _, tables, data, batch⟩, fun record hrecord => ?_, fun reads => ?_, target,
        hresolve, ?_⟩
      · obtain ⟨raw, -, hraw⟩ := Batch.exists_of_mem_report batch hrecord
        obtain ⟨-, members, encoding, -, rfl⟩ := Batch.converted_again hraw
        exact ⟨_, rfl, Json.compact_object _⟩
      · have hfits := Batch.fits_of_mem_report batch (Json.fits_of_parseArray hparse)
        exact loadRecords_of_read hread hfits reads
      · intro text
        have htext : text = (Json.array report.records).compact := (Json.compact_array _).symm
        rw [htext]
        refine ⟨rfl, Keyed.find?_insert_self _ _ _,
          fun path hne => Keyed.find?_insert_of_ne hne _ _, rfl, FileTree.isDirectory_put hparent,
          hread, fun path p hp hne => ?_⟩
        exact FileTree.read_put_of_ne hparent hp hne

namespace Sample

/-- The text of the sample catalog. -/
def tableText : String :=
  "[[\"shop\",[\"customer\",\"sale\"],[[-1,\"*\"],[0,\"id\"],[1,\"customer\"],[1,\"id\"]]]]"

/-- The text of the layout of the sample record. -/
def layoutText : String :=
  "\x7b\"from\":\x7b\"table_units\":[[\"table_unit\",1]]\x7d," ++
    "\"select\":[false,[[0,[0,[0,2,false],null]]]]\x7d"

/-- The text of the sample record and of one that is none. -/
def dataText : String :=
  "[\x7b\"db_id\":\"shop\",\"rule_label\":true,\"sql\":" ++ layoutText ++ "\x7d,null]"

/-- The text of the converted record. -/
def outputText : String :=
  "[\x7b\"db_id\":\"shop\",\"rule_label\":\"Root1(3) Root(5) Sel(0) N(0) A(0) C(2) T(1)\"," ++
    "\"sql\":" ++ layoutText ++ ",\"values\":[]\x7d]"

/-- Files with records, a catalog, and an output of an earlier conversion. -/
def folder : FileTree where
  files := [(["d"], .ok dataText), (["o"], .ok "[1]"), (["t"], .ok tableText)]

/-- The files after a lenient conversion. -/
def convertedFolder : FileTree where
  files := [(["d"], .ok dataText), (["o"], .ok outputText), (["t"], .ok tableText)]

theorem compact_convertedRecord : (Json.array [convertedRecord]).compact = outputText := by
  decide +kernel

theorem readsBack_convertedRecord : convertedRecord.ReadsBack := by
  simp +decide [convertedRecord, customersLayout]

theorem load_folder : Catalog.load folder "t" = .ok catalog := by
  have hholds : folder.Holds "t" (.ok tableText) :=
    FileTree.holds_of_names ["t"] (by decide +kernel) (by decide) rfl
  rw [Catalog.load, hholds.read]
  rfl

theorem loadRecords_folder : loadRecords folder "d" = .ok [record, .null] := by
  have hholds : folder.Holds "d" (.ok dataText) :=
    FileTree.holds_of_names ["d"] (by decide +kernel) (by decide) rfl
  have htext : dataText = (Json.array [record, .null]).compact := by decide +kernel
  have hfits : record.Fits (Json.maxDepth - 1) := by
    simp +decide [Json.maxDepth, record, customersLayout]
  have hreads : record.ReadsBack := by simp +decide [record, customersLayout]
  refine loadRecords_of_read (hholds.read.trans (congrArg _ htext)) ?_ ?_
  · simp [hfits]
  · simp [hreads]

theorem writeRecords_folder :
    writeRecords folder "o" [convertedRecord] = .ok convertedFolder := by
  have hresolve : folder.resolve "o" = .ok ["o"] :=
    (FileTree.resolve_eq _ _).trans (by decide +kernel)
  have hslash : "o".endsWith "/" = false := by decide +kernel
  rw [writeRecords, compact_convertedRecord,
    FileTree.write_eq_put hslash hresolve (by decide)]
  rfl

theorem convertFile_folder : convertFile {} "d" "t" "o" folder =
    (.ok { records := [convertedRecord], converted := 1, skipped := 1 }, convertedFolder) :=
  convertsFile_iff.mp (.done load_folder loadRecords_folder run_record writeRecords_folder)

theorem convertFile_folder_strict : convertFile { strict := true } "d" "t" "o" folder =
    (.error (.json .wrongKind), folder) :=
  convertsFile_iff.mp (.batch load_folder loadRecords_folder rfl rfl)

end Sample

/-- In lenient settings the output is replaced by the text of the record that is converted; in
strict settings the other record fails and the output stays. -/
theorem convertFile_all_or_nothing_sample :
    Sample.convertedFolder.read "o" = .ok Sample.outputText ∧
      loadRecords Sample.convertedFolder "o" = .ok [Sample.convertedRecord] ∧
      ConvertsFile { strict := true } "d" "t" "o" Sample.folder
        (.error (.json .wrongKind), Sample.folder) := by
  obtain ⟨-, hends⟩ := convertFile_all_or_nothing {} "d" "t" "o" Sample.folder
  obtain ⟨-, -, hload, target, -, htext, -, -, -, -, hread, -⟩ :=
    (hends Sample.convertedFolder).2 _ Sample.convertFile_folder
  obtain ⟨hstrict, -⟩ := convertFile_all_or_nothing { strict := true } "d" "t" "o" Sample.folder
  refine ⟨?_, hload ?_, (hstrict _).mpr Sample.convertFile_folder_strict⟩
  · rw [hread, htext, Sample.compact_convertedRecord]
  · simpa using Sample.readsBack_convertedRecord

end QueryGrammar
