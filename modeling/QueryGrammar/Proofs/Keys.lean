/-
QueryGrammar/Proofs/Keys.lean

The key columns of a schema and what they link to.

The links of the foreign keys overwrite each other and are overwritten by those of the primary keys,
so what a column links to in the end depends on two things only: a primary key links to itself, and
any other column to the other end of the last foreign key that it is an end of
(`SchemaEntry.link?`).  Both passes are followed link by link (`Schema.find?_foldl_linkPrimary`,
`Schema.find?_foldl_linkForeign`).

The keys that are shown with an encoding are those of the columns that belong to a table of one of
its tokens.  An explanation ends with them: a blank line, a heading and one line for each of them,
or nothing at all if there are none (`Command.runExplain_of_encode`).

Main result: `Schema.keys_shown`.
-/
import Mathlib.Data.List.Basic
import Mathlib.Data.List.Induction
import QueryGrammar.CommandLine.Run
import QueryGrammar.Proofs.Discovery
import QueryGrammar.Proofs.FileConversion

namespace QueryGrammar

/-! ### What a column links to -/

namespace SchemaEntry

/-- The column is an end of the foreign key. -/
def IsEnd (column : Nat) (pair : Nat × Nat) : Prop := pair.1 = column ∨ pair.2 = column

instance (column : Nat) : DecidablePred (IsEnd column) := fun pair =>
  inferInstanceAs (Decidable (pair.1 = column ∨ pair.2 = column))

/-- The other end of a foreign key. -/
def otherEnd (column : Nat) (pair : Nat × Nat) : Nat := if pair.1 = column then pair.2 else pair.1

/-- The other end of the last foreign key that a column is an end of. -/
def lastForeign? (pairs : List (Nat × Nat)) (column : Nat) : Option Nat :=
  (pairs.reverse.find? (IsEnd column ·)).map (otherEnd column)

/-- The column that a key column links to: a primary key to itself, and any other column by the last
foreign key that it is an end of. -/
def link? (entry : SchemaEntry) (column : Nat) : Option Nat :=
  if column ∈ entry.primaryKeys then some column else lastForeign? entry.foreignKeys column

/-- The column is a primary key or an end of a foreign key. -/
def IsKey (entry : SchemaEntry) (column : Nat) : Prop :=
  column ∈ entry.primaryKeys ∨ ∃ pair ∈ entry.foreignKeys, IsEnd column pair

instance (entry : SchemaEntry) : DecidablePred entry.IsKey := fun column =>
  inferInstanceAs (Decidable (column ∈ entry.primaryKeys ∨ ∃ pair ∈ entry.foreignKeys, _))

theorem lastForeign?_concat (pairs : List (Nat × Nat)) (pair : Nat × Nat) (column : Nat) :
    lastForeign? (pairs ++ [pair]) column =
      if IsEnd column pair then some (otherEnd column pair) else lastForeign? pairs column := by
  rw [lastForeign?, List.reverse_concat', List.find?_cons]
  split_ifs with h <;> simp [h, lastForeign?]

theorem isSome_link?_iff {entry : SchemaEntry} {column : Nat} :
    (entry.link? column).isSome ↔ entry.IsKey column := by
  unfold link? IsKey
  split_ifs with h
  · simp [h]
  · simp [h, lastForeign?]

end SchemaEntry

/-! ### The two passes -/

namespace Schema

open SchemaEntry

/-- The second link of a pair is set after the first, but both say the same if the pair links a
column to itself. -/
theorem find?_linkForeign (keys : List (Nat × Nat)) (pair : Nat × Nat) (column : Nat) :
    Keyed.find? column (linkForeign keys pair) =
      if IsEnd column pair then some (otherEnd column pair) else Keyed.find? column keys := by
  obtain ⟨a, b⟩ := pair
  rw [linkForeign, Keyed.find?_insert, Keyed.find?_insert]
  by_cases hb : b = column
  · by_cases ha : a = column
    · simp [IsEnd, otherEnd, ha, hb]
    · simp [IsEnd, otherEnd, ha, hb]
  · by_cases ha : a = column
    · simp [IsEnd, otherEnd, ha, hb]
    · simp [IsEnd, ha, hb]

/-- Of the foreign keys that a column is an end of the last one stays. -/
theorem find?_foldl_linkForeign (pairs : List (Nat × Nat)) (column : Nat) :
    Keyed.find? column (pairs.foldl linkForeign []) = lastForeign? pairs column := by
  induction pairs using List.reverseRecOn with
  | nil => rfl
  | append_singleton pairs pair ih =>
    rw [List.foldl_append, lastForeign?_concat, ← ih]
    exact find?_linkForeign _ pair column

/-- Primary keys replace the links that are there. -/
theorem find?_foldl_linkPrimary (keys : List (Nat × Nat)) (ids : List Nat) (column : Nat) :
    Keyed.find? column (ids.foldl linkPrimary keys) =
      if column ∈ ids then some column else Keyed.find? column keys := by
  induction ids generalizing keys with
  | nil => rfl
  | cons id ids ih =>
    rw [List.foldl_cons, ih, linkPrimary, Keyed.find?_insert]
    by_cases hid : id = column
    · simp [hid]
    · simp [hid, Ne.symm hid]

theorem find?_keys (entry : SchemaEntry) (column : Nat) :
    Keyed.find? column (ofEntry entry).keys = entry.link? column := by
  rw [ofEntry, find?_foldl_linkPrimary, find?_foldl_linkForeign, link?]

/-- Later foreign keys replace earlier ones in both directions, and primary keys replace both. -/
example :
    let entry : SchemaEntry :=
      { name := "", tableNames := [], columns := [], primaryKeys := [3]
        foreignKeys := [(4, 1), (2, 4), (5, 5), (3, 1)] }
    [1, 2, 3, 4, 5, 6].map (fun column => Keyed.find? column (ofEntry entry).keys) =
      [some 3, some 4, some 3, some 2, some 5, none] := by
  decide

/-! ### Links of columns -/

variable {entry : SchemaEntry}

theorem keyLinks_ofEntry (columns : List Nat) : (ofEntry entry).keyLinks columns =
    columns.filterMap fun column => (entry.link? column).map fun other => (column, other) := by
  simp only [keyLinks, find?_keys]

theorem mem_keyLinks {columns : List Nat} {column other : Nat} :
    (column, other) ∈ (ofEntry entry).keyLinks columns ↔
      column ∈ columns ∧ entry.link? column = some other := by
  rw [keyLinks_ofEntry, List.mem_filterMap]
  constructor
  · rintro ⟨column', hmem, hlink⟩
    obtain ⟨other', hother, heq⟩ := Option.map_eq_some_iff.mp hlink
    obtain ⟨rfl, rfl⟩ := Prod.mk.inj heq
    exact ⟨hmem, hother⟩
  · rintro ⟨hmem, hother⟩
    exact ⟨column, hmem, by rw [hother]; rfl⟩

/-- The columns with links are the key columns, in the order and as often as they are given. -/
theorem map_fst_keyLinks (columns : List Nat) :
    ((ofEntry entry).keyLinks columns).map Prod.fst = columns.filter (entry.IsKey ·) := by
  rw [keyLinks_ofEntry]
  induction columns with
  | nil => rfl
  | cons column columns ih =>
    have hkey : (entry.link? column).isSome ↔ entry.IsKey column := isSome_link?_iff
    rw [List.filterMap_cons, List.filter_cons]
    rcases hlink : entry.link? column with _ | other
    · rw [hlink] at hkey
      simpa [← hkey] using ih
    · rw [hlink] at hkey
      simpa [← hkey] using ih

/-! ### Columns of tables -/

theorem ownerOfInt_eq_some_iff {owner : Int} {table : Nat} :
    ownerOfInt owner = some table ↔ owner = table := by
  unfold ownerOfInt
  split_ifs with h
  · rw [Option.some.injEq]
    omega
  · constructor
    · exact fun hnone => by cases hnone
    · omega

theorem owner_ofEntry_eq_some_iff {column table : Nat} :
    (ofEntry entry).owners.getD column none = some table ↔
      ∃ name, entry.columns[column]? = some ((table : Int), name) := by
  have howners : (ofEntry entry).owners = entry.columns.map fun c => ownerOfInt c.1 := rfl
  rw [howners, List.getD_eq_getElem?_getD, List.getElem?_map]
  rcases entry.columns[column]? with _ | ⟨owner, name⟩
  · simp
  · simp [ownerOfInt_eq_some_iff]

theorem mem_columnsOf {tables : List Nat} {column : Nat} :
    column ∈ (ofEntry entry).columnsOf tables ↔
      ∃ table ∈ tables, ∃ name, entry.columns[column]? = some ((table : Int), name) := by
  have hlength : (ofEntry entry).owners.length = entry.columns.length := by simp [ofEntry]
  simp only [← owner_ofEntry_eq_some_iff]
  rw [columnsOf, List.mem_filter, List.mem_range]
  rcases howner : (ofEntry entry).owners.getD column none with _ | table
  · simp
  · -- a column with an owner is one of the schema
    obtain ⟨name, hname⟩ := owner_ofEntry_eq_some_iff.mp howner
    have hlt := (List.getElem?_eq_some_iff.mp hname).1
    simp [hlength, hlt]

theorem pairwise_columnsOf (schema : Schema) (tables : List Nat) :
    (schema.columnsOf tables).Pairwise (· < ·) :=
  List.pairwise_lt_range.filter _

end Schema

/-! ### Keys of an encoding -/

namespace Explanation

theorem mem_namedTables {encoding : Encoding} {table : Nat} :
    table ∈ namedTables encoding ↔ ⟨.t, table⟩ ∈ encoding.tokens := by
  rw [namedTables, List.mem_map]
  constructor
  · rintro ⟨⟨symbol, choice⟩, htoken, rfl⟩
    obtain ⟨hmem, hsymbol⟩ := List.mem_filter.mp htoken
    obtain rfl : symbol = .t := by simpa using hsymbol
    exact hmem
  · intro h
    exact ⟨⟨.t, table⟩, List.mem_filter.mpr ⟨h, by simp⟩, rfl⟩

theorem mem_keys {entry : SchemaEntry} {encoding : Encoding} {column other : Nat} :
    (column, other) ∈ keys (.ofEntry entry) encoding ↔ entry.link? column = some other ∧
      ∃ (table : Nat) (name : String), entry.columns[column]? = some (↑table, name) ∧
        ⟨.t, table⟩ ∈ encoding.tokens := by
  rw [keys, Schema.mem_keyLinks, Schema.mem_columnsOf, and_comm]
  refine and_congr_right fun _ => exists_congr fun table => ?_
  rw [mem_namedTables, and_comm, exists_and_right]

/-- The line about a column that is marked as a primary key. -/
def primaryLine (colors : Bool) (schema : Schema) (column : Nat) : String :=
  "  " ++ (Style.colored .white).paint colors (schema.qualifiedName column) ++ " " ++
    Style.faint.paint colors "(primary)"

/-- The line about a column with an arrow to the one that it links to. -/
def arrowLine (colors : Bool) (schema : Schema) (column other : Nat) : String :=
  "  " ++ (Style.colored .white).paint colors (schema.qualifiedName column) ++ " " ++
    Style.faint.paint colors "→" ++ " " ++
    (Style.colored .cyan).paint colors (schema.qualifiedName other)

/-- A line has the mark if the column links to itself, and the arrow if not. -/
theorem keyLine_eq (colors : Bool) (schema : Schema) (column other : Nat) :
    keyLine colors schema (column, other) =
      if other = column then primaryLine colors schema column
      else arrowLine colors schema column other := by
  by_cases h : other = column
  · subst h
    rw [if_pos rfl]
    exact if_pos rfl
  · rw [if_neg h]
    exact if_neg (Ne.symm h)

/-- What a plain line says behind the name of its column tells the mark from the arrow. -/
theorem primaryLine_ne_arrowLine (schema : Schema) (column other : Nat) :
    primaryLine false schema column ≠ arrowLine false schema column other := by
  intro h
  have hlists := congrArg String.toList h
  simp [primaryLine, arrowLine, Style.paint] at hlists

/-- A section has a blank line and a heading, unless there are no lines in it. -/
theorem optionalSection_eq (colors : Bool) (heading : String) (lines : List String) :
    optionalSection colors heading lines =
      if lines = [] then [] else "" :: (Style.strong .green).paint colors heading :: lines := by
  simp only [optionalSection, List.isEmpty_iff]

/-- The lines of an explanation up to those about the keys. -/
def linesBeforeKeys (colors : Bool) (record : Record) (encoding : Encoding) : List String :=
  let heading := (Style.strong .green).paint colors
  recordLines colors record ++
    (heading "Tokens:" :: encoding.tokens.map (tokenLine colors)) ++
    ["", heading "Rule label:", "  " ++ (Style.colored .white).paint colors encoding.label] ++
    if encoding.values = [] then []
    else "" :: heading "Values:" :: encoding.values.zipIdx.map (valueLine colors)

/-- The lines about the keys come last. -/
theorem recordLines_append_encodingLines (colors : Bool) (schema : Schema) (record : Record)
    (encoding : Encoding) :
    recordLines colors record ++ encodingLines colors schema encoding =
      linesBeforeKeys colors record encoding ++
        if keys schema encoding = [] then []
        else "" :: (Style.strong .green).paint colors "Keys:" ::
          (keys schema encoding).map (keyLine colors schema) := by
  rw [encodingLines, optionalSection_eq, optionalSection_eq]
  simp only [linesBeforeKeys, List.map_eq_nil_iff, List.zipIdx_eq_nil_iff, List.append_assoc]

end Explanation

/-- An explanation of a record whose query is encoded tells about the record and the encoding. -/
theorem Command.runExplain_of_encode {surroundings : Surroundings} {tree : FileTree}
    {dataPath tablePath : String} {index : Nat} {config : Option String} {settings : Settings}
    {catalog : Catalog} {record : Record} {schema : Schema} {encoding : Encoding}
    (hload : loadRecord surroundings tree dataPath tablePath index config =
      .ok (settings, catalog, record))
    (hschema : catalog.get record.database = .ok schema)
    (hencode : (record.encode catalog settings).outcome = .ok encoding) :
    runExplain surroundings tree dataPath tablePath index config =
      { lines := Explanation.recordLines surroundings.colors record ++
          Explanation.encodingLines surroundings.colors schema encoding
        tree } := by
  unfold runExplain
  rw [hload]
  simp only [hschema, hencode]
  rfl

/-- **What the key columns link to, and which of them are shown.**  The key columns of a description
are its primary keys, which link to themselves, and the ends of its foreign keys, which link to the
other end of the last one that they are an end of.  Of a list of columns the key columns are given
with their links, in the same order.

Shown with an encoding are, in ascending order and each once, the key columns that belong to a table
of one of its tokens.  An explanation ends with a heading and one line for each of them, in this
order, and has neither if there are none.  The line of a column that links to itself has a mark, and
any other line has the column that it links to. -/
theorem Schema.keys_shown (entry : SchemaEntry) :
    let schema := ofEntry entry
    (∀ column, Keyed.find? column schema.keys = entry.link? column) ∧
      (∀ column, (entry.link? column).isSome ↔ entry.IsKey column) ∧
      (∀ columns, (schema.keyLinks columns).map Prod.fst = columns.filter (entry.IsKey ·) ∧
        ∀ column other, (column, other) ∈ schema.keyLinks columns ↔
          column ∈ columns ∧ entry.link? column = some other) ∧
      (∀ column other, Explanation.primaryLine false schema column ≠
        Explanation.arrowLine false schema column other) ∧
      ∀ encoding : Encoding,
        let shown := Explanation.keys schema encoding
        (shown.map Prod.fst).Pairwise (· < ·) ∧
          (∀ column other, (column, other) ∈ shown ↔ entry.link? column = some other ∧
            ∃ (table : Nat) (name : String), entry.columns[column]? = some (↑table, name) ∧
              ⟨.t, table⟩ ∈ encoding.tokens) ∧
          ∀ surroundings tree dataPath tablePath index config settings catalog record,
            Command.loadRecord surroundings tree dataPath tablePath index config =
              .ok (settings, catalog, record) →
            catalog.get record.database = .ok schema →
            (record.encode catalog settings).outcome = .ok encoding →
            let colors := surroundings.colors
            Command.runExplain surroundings tree dataPath tablePath index config =
              { lines := Explanation.linesBeforeKeys colors record encoding ++
                  if shown = [] then []
                  else "" :: (Style.strong .green).paint colors "Keys:" :: shown.map fun link =>
                    if link.2 = link.1 then Explanation.primaryLine colors schema link.1
                    else Explanation.arrowLine colors schema link.1 link.2
                tree } := by
  intro schema
  refine ⟨find?_keys entry, fun _ => SchemaEntry.isSome_link?_iff, fun columns =>
    ⟨map_fst_keyLinks columns, fun _ _ => mem_keyLinks⟩,
    Explanation.primaryLine_ne_arrowLine schema, fun encoding => ⟨?_, fun _ _ =>
    Explanation.mem_keys, ?_⟩⟩
  · -- the columns of the tables are in order, and the key columns are some of them
    rw [Explanation.keys, map_fst_keyLinks]
    exact (pairwise_columnsOf schema _).filter _
  · intro surroundings tree dataPath tablePath index config settings catalog record hload hschema
      hencode
    have hlines : (Explanation.keys schema encoding).map
        (Explanation.keyLine surroundings.colors schema) = _ :=
      List.map_congr_left fun link _ =>
        Explanation.keyLine_eq surroundings.colors schema link.1 link.2
    rw [Command.runExplain_of_encode hload hschema hencode,
      Explanation.recordLines_append_encodingLines, hlines]

namespace Sample

/-- The sample description with a primary key and a foreign key that links to it. -/
def keyedEntry : SchemaEntry := { entry with primaryKeys := [1], foreignKeys := [(2, 1)] }

/-- The text of that description. -/
def keyedText : String :=
  "[[\"shop\",[\"customer\",\"sale\"],[[-1,\"*\"],[0,\"id\"],[1,\"customer\"],[1,\"id\"]]," ++
    "[1],[[2,1]]]]"

/-- A record of `SELECT customer.id, sale.customer FROM customer, sale`. -/
def salesRecord : Record where
  database := "shop"
  question := "Who buys?"
  query :=
    { selectList :=
        { distinct := false
          items := [1, 2].map fun column => { aggregate := .none, term := .plain column } }
      sources := [.table 0, .table 1] }

/-- The layout of a select item of one column. -/
def itemLayout (column : Nat) : Json :=
  .array [.ofNat 0, .array [.ofNat 0, .array [.ofNat 0, .ofNat column, .bool false], .null]]

/-- The layout of that record. -/
def salesLayout : Json :=
  .object
    [("db_id", .string "shop"), ("question", .string "Who buys?"),
      ("sql", .object
        [("from", .object [("table_units", .array [.array [.string "table_unit", .ofNat 0],
            .array [.string "table_unit", .ofNat 1]])]),
          ("select", .array [.bool false, .array [itemLayout 1, itemLayout 2]])])]

/-- The encoding of that record. -/
def salesEncoding : Encoding where
  tokens := [⟨.root1, 3⟩, ⟨.root, 5⟩, ⟨.sel, 0⟩, ⟨.n, 1⟩, ⟨.a, 0⟩, ⟨.c, 1⟩, ⟨.t, 0⟩, ⟨.a, 0⟩,
    ⟨.c, 2⟩, ⟨.t, 1⟩]
  values := []

/-- Files with the record and the description. -/
def keyedFolder : FileTree where
  files := [(["d"], .ok (Json.array [salesLayout]).compact), (["t"], .ok keyedText)]

theorem discover_keyedFolder : Settings.discover keyedFolder none none = .ok {} := by
  refine Settings.discover_of_noFile fun place hplace => ?_
  obtain rfl := List.mem_singleton.mp hplace
  have hresolve : keyedFolder.resolve "semql.toml" = .ok ["semql.toml"] :=
    (FileTree.resolve_eq _ _).trans (by decide +kernel)
  exact .missing hresolve rfl

theorem load_keyedFolder : Catalog.load keyedFolder "t" = .ok (.ofEntries [keyedEntry]) := by
  have hholds : keyedFolder.Holds "t" (.ok keyedText) :=
    FileTree.holds_of_names ["t"] (by decide +kernel) (by decide) rfl
  rw [Catalog.load, hholds.read]
  rfl

theorem loadRecords_keyedFolder : loadRecords keyedFolder "d" = .ok [salesLayout] := by
  have hholds : keyedFolder.Holds "d" (.ok (Json.array [salesLayout]).compact) :=
    FileTree.holds_of_names ["d"] (by decide +kernel) (by decide) rfl
  have hfits : salesLayout.Fits (Json.maxDepth - 1) := by
    simp +decide [Json.maxDepth, salesLayout, itemLayout]
  have hreads : salesLayout.ReadsBack := by simp +decide [salesLayout, itemLayout]
  refine loadRecords_of_read hholds.read ?_ ?_
  · simpa using hfits
  · simpa using hreads

theorem loadRecord_keyedFolder : Command.loadRecord {} keyedFolder "d" "t" 0 none =
    .ok ({}, .ofEntries [keyedEntry], salesRecord) := by
  unfold Command.loadRecord Command.loadSettings
  rw [discover_keyedFolder, load_keyedFolder, loadRecords_keyedFolder]
  rfl

end Sample

/-- An explanation ends with the primary key and the column that links to it. -/
theorem Schema.keys_shown_sample : ∃ lines,
    Command.runExplain {} Sample.keyedFolder "d" "t" 0 none =
      { lines := lines ++
          ["", "Keys:", "  customer.id (primary)", "  sale.customer → customer.id"]
        tree := Sample.keyedFolder } := by
  obtain ⟨-, -, -, -, hencodings⟩ := keys_shown Sample.keyedEntry
  obtain ⟨-, -, hruns⟩ := hencodings Sample.salesEncoding
  have hrun := hruns {} Sample.keyedFolder "d" "t" 0 none {} (.ofEntries [Sample.keyedEntry])
    Sample.salesRecord Sample.loadRecord_keyedFolder rfl rfl
  exact ⟨Explanation.linesBeforeKeys false Sample.salesRecord Sample.salesEncoding, hrun.trans rfl⟩

end QueryGrammar
