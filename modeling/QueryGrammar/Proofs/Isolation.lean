/-
QueryGrammar/Proofs/Isolation.lean

What a batch depends on in a catalog.

A text is accepted as a catalog if it is an array of which every element is a description
(`SchemaEntry.Lists`).  Adding the descriptions one after the other leaves the last one of each name
(`SchemaEntry.lastNamed?`), so a catalog has as many databases as there are names
(`Catalog.size_ofEntries`), and a database has the schema of the last description of its name
(`Catalog.get_ofEntries`).

The conversion of a record looks up the database of that record and no other
(`Conversion.ofRecord_of_get_eq`).  So with another catalog every record is converted to the same
and leaves the same notices, and a batch is the same batch, if both catalogs have the same
descriptions for the databases that the records are about.

Main result: `Catalog.isolated`.
-/
import Mathlib.Data.Finset.Card
import Mathlib.Data.List.Induction
import QueryGrammar.Proofs.Annotation

namespace QueryGrammar

open Json (Document)

/-! ### Accepted texts -/

theorem exists_forall₂_iff {α β : Type} {R : α → β → Prop} {l : List α} :
    (∃ l', List.Forall₂ R l l') ↔ ∀ a ∈ l, ∃ b, R a b := by
  induction l with
  | nil => simp
  | cons a l ih =>
    rw [List.forall_mem_cons, ← ih]
    constructor
    · rintro ⟨_, h⟩
      cases h with
      | cons hab h => exact ⟨⟨_, hab⟩, _, h⟩
    · rintro ⟨⟨b, hab⟩, l', h⟩
      exact ⟨b :: l', .cons hab h⟩

theorem Json.Document.list_eq_ok_iff {α : Type} {item : Document → Except ReadError α}
    {d : Document} {values : List α} :
    d.list item = .ok values ↔
      ∃ items, d = .array items true ∧ List.Forall₂ (fun d v => item d = .ok v) items values := by
  cases d with
  | array items closed =>
    rw [Document.list, bind_eq_ok_iff]
    simp only [mapM_eq_ok_iff]
    cases closed with
    | true => simp [pure, Except.pure]
    | false => simp [throw, throwThe, MonadExceptOf.throw]
  | _ => simp [Document.list]

namespace SchemaEntry

/-- The text is an array of the descriptions. -/
def Lists (text : String) (entries : List SchemaEntry) : Prop :=
  ∃ items, Document.read text = ⟨.array items true, false⟩ ∧
    List.Forall₂ (fun d entry => ofDocument d = .ok entry) items entries

theorem listOfText_eq_ok_iff {text : String} {entries : List SchemaEntry} :
    listOfText text = .ok entries ↔ Lists text entries := by
  unfold listOfText Lists
  rw [bind_eq_ok_iff]
  rcases Document.read text with ⟨root, trailing⟩
  simp only [Document.list_eq_ok_iff, Document.Reading.mk.injEq]
  cases trailing with
  | true => simp [throw, throwThe, MonadExceptOf.throw]
  | false =>
    constructor
    · rintro ⟨entries', ⟨items, hroot, hitems⟩, hentries⟩
      obtain rfl : entries' = entries := by simpa [pure, Except.pure] using hentries
      exact ⟨items, ⟨hroot, rfl⟩, hitems⟩
    · rintro ⟨items, ⟨hroot, -⟩, hitems⟩
      exact ⟨entries, ⟨items, hroot, hitems⟩, rfl⟩

/-- The last description of a name. -/
def lastNamed? (entries : List SchemaEntry) (name : String) : Option SchemaEntry :=
  entries.reverse.find? (·.name = name)

theorem lastNamed?_concat (entries : List SchemaEntry) (entry : SchemaEntry) (name : String) :
    lastNamed? (entries ++ [entry]) name =
      if entry.name = name then some entry else lastNamed? entries name := by
  rw [lastNamed?, List.reverse_concat', List.find?_cons]
  split_ifs with h <;> simp [h, lastNamed?]

end SchemaEntry

open SchemaEntry (Lists lastNamed?)

/-! ### Catalogs -/

namespace Catalog

theorem ofText_eq_ok_iff {text : String} {catalog : Catalog} :
    ofText text = .ok catalog ↔ ∃ entries, Lists text entries ∧ catalog = ofEntries entries := by
  simp only [← SchemaEntry.listOfText_eq_ok_iff, ofText]
  rcases SchemaEntry.listOfText text with e | entries
  · simp
  · simp [eq_comm]

/-- An array is accepted if every element is a description. -/
theorem exists_ofText_iff {text : String} {items : List Document}
    (h : Document.read text = ⟨.array items true, false⟩) :
    (∃ catalog, ofText text = .ok catalog) ↔
      ∀ d ∈ items, ∃ entry, SchemaEntry.ofDocument d = .ok entry := by
  rw [← exists_forall₂_iff]
  constructor
  · rintro ⟨catalog, hcatalog⟩
    obtain ⟨entries, ⟨items', hread, hitems⟩, -⟩ := ofText_eq_ok_iff.mp hcatalog
    rw [h, Document.Reading.mk.injEq, Document.array.injEq] at hread
    exact ⟨entries, hread.1.1 ▸ hitems⟩
  · rintro ⟨entries, hitems⟩
    exact ⟨_, ofText_eq_ok_iff.mpr ⟨entries, ⟨items, h, hitems⟩, rfl⟩⟩

theorem ofEntries_concat (entries : List SchemaEntry) (entry : SchemaEntry) :
    ofEntries (entries ++ [entry]) = (ofEntries entries).add (.ofEntry entry) :=
  List.foldl_concat ..

theorem find?_ofEntries (entries : List SchemaEntry) (name : String) :
    Keyed.find? name (ofEntries entries).schemas = (lastNamed? entries name).map .ofEntry := by
  induction entries using List.reverseRecOn with
  | nil => rfl
  | append_singleton entries entry ih =>
    rw [ofEntries_concat, SchemaEntry.lastNamed?_concat, add, Keyed.find?_insert, ih]
    show (if entry.name = name then _ else _) = _
    split_ifs <;> rfl

/-- The schema of a database is that of the last description of its name. -/
theorem get_ofEntries (entries : List SchemaEntry) (name : String) :
    (ofEntries entries).get name =
      (lastNamed? entries name).elim (.error (.unknownDatabase name)) fun entry =>
        .ok (.ofEntry entry) := by
  rw [get, find?_ofEntries]
  rcases lastNamed? entries name with _ | entry <;> rfl

theorem mem_keys_ofEntries {entries : List SchemaEntry} {name : String} :
    name ∈ Keyed.keys (ofEntries entries).schemas ↔ name ∈ entries.map (·.name) := by
  induction entries using List.reverseRecOn with
  | nil => rfl
  | append_singleton entries entry ih =>
    rw [ofEntries_concat, add, Keyed.mem_keys_insert, ih, List.map_append, List.mem_append, or_comm]
    exact or_congr_right List.mem_singleton.symm

theorem sorted_ofEntries (entries : List SchemaEntry) :
    (Keyed.keys (ofEntries entries).schemas).Pairwise (· < ·) := by
  induction entries using List.reverseRecOn with
  | nil => exact .nil
  | append_singleton entries entry ih =>
    rw [ofEntries_concat]
    exact Keyed.sorted_insert ih _ _

/-- There are as many databases as names. -/
theorem size_ofEntries (entries : List SchemaEntry) :
    (ofEntries entries).size = (entries.map (·.name)).toFinset.card := by
  have hnodup : (Keyed.keys (ofEntries entries).schemas).Nodup :=
    (sorted_ofEntries entries).imp fun hlt => Std.ne_of_lt hlt
  have hkeys : (Keyed.keys (ofEntries entries).schemas).toFinset =
      (entries.map (·.name)).toFinset := by
    ext name
    rw [List.mem_toFinset, List.mem_toFinset, mem_keys_ofEntries]
  rw [← hkeys, List.toFinset_card_of_nodup hnodup, Keyed.keys, List.length_map, size]

end Catalog

/-! ### Records and batches -/

section Records

variable {catalog catalog' : Catalog} {settings : Settings}

/-- Encoding the query of a record looks up its own database. -/
theorem Record.encode_of_get_eq {record : Record}
    (h : catalog.get record.database = catalog'.get record.database) :
    record.encode catalog settings = record.encode catalog' settings := by
  rw [encode, encode, h]

theorem Conversion.ofRecord_of_get_eq {raw : Json} (h : ∀ record, Record.load raw = .ok record →
      catalog.get record.database = catalog'.get record.database) :
    ofRecord catalog settings raw = ofRecord catalog' settings raw := by
  rw [ofRecord, ofRecord]
  rcases hload : Record.load raw with e | record
  · rfl
  · simp only [Record.encode_of_get_eq (h record hload)]

/-- A batch is told by the conversions of its records. -/
theorem Batch.run_of_ofRecord_eq {records : List Json}
    (h : ∀ raw ∈ records, Conversion.ofRecord catalog settings raw =
      Conversion.ofRecord catalog' settings raw) :
    run catalog settings records = run catalog' settings records := by
  rw [run, run, List.map_congr_left h]

end Records

/-- **Databases are isolated.**  A text is accepted as a catalog exactly if it is an array of
descriptions: an array is accepted if every element is one.  The catalog has as many databases as
the descriptions have names, and the last description of a name gives the schema of that database.

Take the catalog of any other text that is accepted, and a batch such that for every record that can
be read both texts have the same last description of its database, or none.  Then every record of
the batch has the same outcome with both catalogs and the same notices are left on the way to it;
and the batch is the same, with what is noticed about each record, what is said about those that are
passed over, and how it ends. -/
theorem Catalog.isolated (text : String) :
    (∀ catalog, ofText text = .ok catalog ↔
      ∃ entries, Lists text entries ∧ catalog = ofEntries entries) ∧
    (∀ items, Document.read text = ⟨.array items true, false⟩ →
      ((∃ catalog, ofText text = .ok catalog) ↔
        ∀ d ∈ items, ∃ entry, SchemaEntry.ofDocument d = .ok entry)) ∧
    ∀ entries, Lists text entries →
      let catalog := ofEntries entries
      catalog.size = (entries.map (·.name)).toFinset.card ∧
      (∀ name, catalog.get name =
        (lastNamed? entries name).elim (.error (.unknownDatabase name)) fun entry =>
          .ok (.ofEntry entry)) ∧
      ∀ text' entries' settings records, Lists text' entries' →
        (∀ raw ∈ records, ∀ record, Record.load raw = .ok record →
          lastNamed? entries record.database = lastNamed? entries' record.database) →
        let catalog' := ofEntries entries'
        (∀ raw ∈ records, Conversion.ofRecord catalog settings raw =
          Conversion.ofRecord catalog' settings raw) ∧
        (Batch.run catalog settings records).noticed = records.map (fun raw =>
          (Conversion.ofRecord catalog' settings raw).notices) ∧
        Batch.run catalog settings records = Batch.run catalog' settings records := by
  refine ⟨fun catalog => ofText_eq_ok_iff, fun items => exists_ofText_iff, fun entries _ =>
    ⟨size_ofEntries entries, get_ofEntries entries, ?_⟩⟩
  intro text' entries' settings records _ agree
  have hrecords : ∀ raw ∈ records, Conversion.ofRecord (ofEntries entries) settings raw =
      Conversion.ofRecord (ofEntries entries') settings raw := by
    intro raw hraw
    apply Conversion.ofRecord_of_get_eq
    intro record hload
    rw [get_ofEntries, get_ofEntries, agree raw hraw record hload]
  have hrun := Batch.run_of_ofRecord_eq hrecords
  refine ⟨hrecords, ?_, hrun⟩
  rw [hrun, Batch.run_eq]

namespace Sample

/-- A text with two databases, one of which it describes twice. -/
def crowdedText : String :=
  "[[\"shop\",[],[]],[\"bank\",[],[]]," ++
    "[\"shop\",[\"customer\",\"sale\"],[[-1,\"*\"],[0,\"id\"],[0,\"customer\"]]]]"

/-- A text with the last description of the shop alone. -/
def loneText : String :=
  "[[\"shop\",[\"customer\",\"sale\"],[[-1,\"*\"],[0,\"id\"],[0,\"customer\"]]]]"

/-- The last description of the shop in both texts. -/
def shopEntry : SchemaEntry where
  name := "shop"
  tableNames := ["customer", "sale"]
  columns := [(-1, "*"), (0, "id"), (0, "customer")]

/-- The descriptions in the first text. -/
def crowded : List SchemaEntry :=
  [{ name := "shop", tableNames := [], columns := [] },
    { name := "bank", tableNames := [], columns := [] }, shopEntry]

/-- A record of `SELECT count(*) FROM customer, sale`, which leaves the table of the wildcard column
open. -/
def countingRecord : Json :=
  .object [("db_id", .string "shop"), ("sql", .object
    [("from", .object [("table_units", .array [.array [.string "table_unit", .ofNat 0],
        .array [.string "table_unit", .ofNat 1]])]),
      ("select", .array [.bool false, .array [.array [.ofNat 3,
        .array [.ofNat 0, .array [.ofNat 0, .ofNat 0, .bool false], .null]]]])])]

end Sample

/-- Another database and an earlier description of the shop change nothing for records about the
shop, nor for what is noticed about one of them. -/
theorem Catalog.isolated_sample :
    Lists Sample.crowdedText Sample.crowded ∧ Lists Sample.loneText [Sample.shopEntry] ∧
      (ofEntries Sample.crowded).size = 2 ∧
      (Batch.run (ofEntries Sample.crowded) {} [.null, Sample.countingRecord]).noticed =
        [[], [.ambiguousWildcard "" ""]] ∧
      Batch.run (ofEntries Sample.crowded) {} [.null, Sample.countingRecord] =
        Batch.run (ofEntries [Sample.shopEntry]) {} [.null, Sample.countingRecord] := by
  have hcrowded : Lists Sample.crowdedText Sample.crowded :=
    SchemaEntry.listOfText_eq_ok_iff.mp rfl
  have hlone : Lists Sample.loneText [Sample.shopEntry] := SchemaEntry.listOfText_eq_ok_iff.mp rfl
  obtain ⟨hsize, -, hrun⟩ := (Catalog.isolated Sample.crowdedText).2.2 Sample.crowded hcrowded
  have hagree : ∀ raw ∈ [Json.null, Sample.countingRecord], ∀ record,
      Record.load raw = .ok record → lastNamed? Sample.crowded record.database =
        lastNamed? [Sample.shopEntry] record.database := by
    intro raw hraw record hload
    simp only [List.mem_cons, List.not_mem_nil, or_false] at hraw
    rcases hraw with rfl | rfl
    · cases hload
    · have hdatabase : record.database = "shop" := by
        cases hload
        rfl
      rw [hdatabase]
      rfl
  obtain ⟨-, hnoticed, hsame⟩ := hrun Sample.loneText [Sample.shopEntry] {} _ hlone hagree
  exact ⟨hcrowded, hlone, hsize.trans (by decide), hnoticed.trans (by decide), hsame⟩

end QueryGrammar
