/-
QueryGrammar/Proofs/Identities.lean

The identities of columns.

The names of a description are gone through from the left, and each goes into a table unless it is
there.  `NameTable.Lists table names` says what the table is after the names: it has these names and
no others, and they stand in the order of their first appearance.  Adding a name keeps that up
(`NameTable.Lists.add`), so it holds of the table of every list (`NameTable.lists_ofList`).

Since no name stands twice in such a table, its names and the places that it looks up are inverse to
each other (`Schema.columnIdentity_ofEntry_eq_ok_iff`).  Names that are added later come after those
that are there (`NameTable.prefix_foldl_add`), so they move none.

Main result: the identities of the columns of a description number its distinct names, in the order
of their first appearance (`Schema.identities_number_names`).
-/
import Mathlib.Data.List.Induction
import Mathlib.Data.List.Nodup
import QueryGrammar.Proofs.Lookup

namespace QueryGrammar

/-! ### Places in lists -/

/-- In a list without repetitions a place is that of its entry. -/
theorem idxOf?_eq_some_iff_of_nodup {l : List String} (nodup : l.Nodup) {a : String} {i : Nat} :
    l.idxOf? a = some i ↔ l[i]? = some a := by
  rw [List.idxOf?_eq_some_iff, List.getElem?_eq_some_iff]
  constructor
  · rintro ⟨hi, ha, -⟩
    exact ⟨hi, ha⟩
  · rintro ⟨hi, ha⟩
    refine ⟨hi, ha, fun j hj hja => ?_⟩
    -- an earlier entry would be a repetition
    have hji : j = i := (nodup.getElem_inj_iff).mp (hja.trans ha.symm)
    omega

/-- What follows a list does not change the places of its entries. -/
theorem idxOf?_of_prefix {l l' : List String} (h : l <+: l') {a : String} (ha : a ∈ l) :
    l'.idxOf? a = l.idxOf? a := by
  obtain ⟨rest, rfl⟩ := h
  have hsome : (l.idxOf? a).isSome := List.isSome_idxOf?.mpr ha
  rw [List.idxOf?] at hsome ⊢
  rw [List.findIdx?_append, Option.or_of_isSome hsome]

/-! ### Tables of names -/

namespace NameTable

variable {table : NameTable} {names : List String} {name : String}

/-- The table has the names of a list, in the order of their first appearance. -/
structure Lists (table : NameTable) (names : List String) : Prop where
  mem : ∀ name, name ∈ table.names ↔ name ∈ names
  order : table.names.Pairwise fun x y => names.idxOf x < names.idxOf y

theorem lists_empty : empty.Lists [] := ⟨fun _ => Iff.rfl, .nil⟩

/-- Adding a name adds it to the list. -/
theorem Lists.add (h : table.Lists names) (name : String) :
    (table.add name).Lists (names ++ [name]) := by
  -- the names that are there first appear where they did
  have hidxOf : ∀ x ∈ table.names, (names ++ [name]).idxOf x = names.idxOf x :=
    fun x hx => List.idxOf_append_of_mem ((h.mem x).mp hx)
  have horder : table.names.Pairwise fun x y =>
      (names ++ [name]).idxOf x < (names ++ [name]).idxOf y := by
    refine h.order.imp_of_mem fun hx hy hlt => ?_
    rw [hidxOf _ hx, hidxOf _ hy]
    exact hlt
  constructor
  · intro other
    rw [mem_names_add, h.mem, List.mem_append, List.mem_singleton]
  · rw [names_add]
    split_ifs with hname
    · exact horder
    · have hnew : name ∉ names := fun hmem => hname ((h.mem name).mpr hmem)
      rw [List.pairwise_append]
      refine ⟨horder, List.pairwise_singleton _ _, fun x hx y hy => ?_⟩
      rw [List.mem_singleton.mp hy, hidxOf x hx, List.idxOf_append_of_notMem hnew,
        List.idxOf_cons_self, Nat.add_zero]
      exact List.idxOf_lt_length_of_mem ((h.mem x).mp hx)

theorem ofList_concat (names : List String) (name : String) :
    ofList (names ++ [name]) = (ofList names).add name := by
  rw [ofList, List.foldl_append]
  rfl

/-- The table of a list has its names, in the order of their first appearance. -/
theorem lists_ofList (names : List String) : (ofList names).Lists names := by
  induction names using List.reverseRecOn with
  | nil => exact lists_empty
  | append_singleton names name ih =>
    rw [ofList_concat]
    exact ih.add name

theorem Lists.nodup (h : table.Lists names) : table.names.Nodup := by
  refine h.order.imp fun hlt => ?_
  rintro rfl
  exact Nat.lt_irrefl _ hlt

theorem prefix_add (table : NameTable) (name : String) :
    table.names <+: (table.add name).names := by
  rw [names_add]
  split_ifs
  · exact List.prefix_refl _
  · exact List.prefix_append _ _

/-- Names that are added come after those that are there. -/
theorem prefix_foldl_add (table : NameTable) (names : List String) :
    table.names <+: (names.foldl add table).names := by
  induction names generalizing table with
  | nil => exact List.prefix_refl _
  | cons name names ih => exact (prefix_add table name).trans (ih _)

theorem ofList_prefix_append (names more : List String) :
    (ofList names).names <+: (ofList (names ++ more)).names := by
  rw [ofList, ofList, List.foldl_append]
  exact prefix_foldl_add _ more

theorem length_ofList_le (names : List String) : (ofList names).names.length ≤ names.length := by
  have h := lists_ofList names
  exact h.nodup.length_le_of_subset fun name hname => (h.mem name).mp hname

/-- The look-up of places is inverse to the list of names. -/
theorem Lists.lookup_eq_some_iff (h : table.Lists names) {i : Nat} :
    table.places.lookup name = some i ↔ table.names[i]? = some name := by
  rw [table.lookup_places]
  exact idxOf?_eq_some_iff_of_nodup h.nodup

end NameTable

/-! ### Identities -/

namespace Schema

variable {entry : SchemaEntry} {column i : Nat}

theorem lists_nameTable (entry : SchemaEntry) :
    (ofEntry entry).nameTable.Lists (ofEntry entry).columnNames :=
  NameTable.lists_ofList _

/-- The identities of columns and the list of identities are inverse to each other. -/
theorem columnIdentity_ofEntry_eq_ok_iff :
    (ofEntry entry).columnIdentity column = .ok i ↔
      ∃ name, (ofEntry entry).columnNames[column]? = some name ∧
        (ofEntry entry).identities[i]? = some name := by
  rw [columnIdentity_eq_ok_iff]
  refine exists_congr fun name => and_congr_right fun _ => ?_
  exact idxOf?_eq_some_iff_of_nodup (lists_nameTable entry).nodup

/-- Further columns do not change the identities of those before them. -/
theorem columnIdentity_append (more : List (Int × String)) (h : column < entry.columns.length) :
    (ofEntry { entry with columns := entry.columns ++ more }).columnIdentity column =
      (ofEntry entry).columnIdentity column := by
  obtain ⟨i, hi⟩ := exists_columnIdentity_ofEntry_iff.mpr h
  obtain ⟨name, hname, hplace⟩ := columnIdentity_eq_ok_iff.mp hi
  rw [hi, columnIdentity_eq_ok_iff]
  have hprefix : (ofEntry entry).identities <+:
      (ofEntry { entry with columns := entry.columns ++ more }).identities := by
    simp only [identities, ofEntry, List.map_append]
    exact NameTable.ofList_prefix_append _ _
  have hmem : name ∈ (ofEntry entry).identities :=
    List.isSome_idxOf?.mp (by rw [hplace]; rfl)
  have hstays := idxOf?_of_prefix hprefix hmem
  refine ⟨name, ?_, hstays.trans hplace⟩
  have hlt : column < (ofEntry entry).columnNames.length := by simpa [ofEntry] using h
  simp only [ofEntry, List.map_append] at hname ⊢
  rw [List.getElem?_append_left (by simpa using h)]
  exact hname

/-- The identity of a column is not above its number. -/
theorem columnIdentity_le (h : (ofEntry entry).columnIdentity column = .ok i) : i ≤ column := by
  have hlt : column < entry.columns.length := exists_columnIdentity_ofEntry_iff.mp ⟨i, h⟩
  -- the columns up to this one have no more names than there are of them
  let front : SchemaEntry := { entry with columns := entry.columns.take (column + 1) }
  let rest := entry.columns.drop (column + 1)
  have hsplit : entry = { front with columns := front.columns ++ rest } := by
    simp [front, rest]
  have hfront : (ofEntry front).columnIdentity column = .ok i := by
    rw [← h, hsplit]
    refine (columnIdentity_append rest ?_).symm
    simp only [front, List.length_take]
    omega
  have hle : (ofEntry front).identities.length ≤ column + 1 := by
    refine Nat.le_trans (NameTable.length_ofList_le _) ?_
    rw [List.length_map]
    exact List.length_take_le _ _
  exact Nat.lt_succ_iff.mp (Nat.lt_of_lt_of_le (columnIdentity_lt hfront) hle)

/-- **The identities number the distinct names** in the order of their first appearance.  Every
column has the place of its name, which is no higher than the column itself; so columns share their
identity exactly if they share their name, and every place is the identity of some column.  Only
columns that are not there have no identity and no owner, and columns that are added change none. -/
theorem identities_number_names (entry : SchemaEntry) :
    let schema := ofEntry entry
    let names := schema.columnNames
    names = entry.columns.map Prod.snd ∧
      schema.identities.Nodup ∧
      (∀ name, name ∈ schema.identities ↔ name ∈ names) ∧
      (schema.identities.Pairwise fun x y => names.idxOf x < names.idxOf y) ∧
      (∀ name i, schema.nameTable.places.lookup name = some i ↔
        schema.identities[i]? = some name) ∧
      (∀ a name, names[a]? = some name → ∃ i, schema.columnIdentity a = .ok i ∧
        i < schema.identities.length ∧ i ≤ a ∧ schema.identities[i]? = some name) ∧
      (∀ a b, a < names.length → b < names.length →
        (schema.columnIdentity a = schema.columnIdentity b ↔ names[a]? = names[b]?)) ∧
      (∀ i < schema.identities.length, ∃ a < names.length, schema.columnIdentity a = .ok i) ∧
      (∀ column e, schema.columnIdentity column = .error e ↔
        names.length ≤ column ∧ e = .unknownColumn column) ∧
      (∀ column e, schema.tableOf column = .error e ↔
        names.length ≤ column ∧ e = .unknownColumn column) ∧
      ∀ more, ∀ a < names.length,
        (ofEntry { entry with columns := entry.columns ++ more }).columnIdentity a =
          schema.columnIdentity a := by
  intro schema names
  have hlists : schema.nameTable.Lists names := lists_nameTable entry
  have hlength : names.length = entry.columns.length := by simp [names, schema, ofEntry]
  have hidentity : ∀ a name, names[a]? = some name → ∃ i, schema.columnIdentity a = .ok i ∧
      i < schema.identities.length ∧ i ≤ a ∧ schema.identities[i]? = some name := by
    intro a name ha
    have hlt : a < entry.columns.length := hlength ▸ (List.getElem?_eq_some_iff.mp ha).1
    obtain ⟨i, hi⟩ := exists_columnIdentity_ofEntry_iff.mpr hlt
    obtain ⟨name', ha', hname⟩ := columnIdentity_ofEntry_eq_ok_iff.mp hi
    obtain rfl : name = name' := Option.some.inj (ha.symm.trans ha')
    exact ⟨i, hi, columnIdentity_lt hi, columnIdentity_le hi, hname⟩
  refine ⟨rfl, hlists.nodup, hlists.mem, hlists.order, fun name i => hlists.lookup_eq_some_iff,
    hidentity, ?_, ?_, ?_, ?_, ?_⟩
  · intro a b ha hb
    obtain ⟨i, hi, -, -, hname⟩ := hidentity a _ (List.getElem?_eq_getElem ha)
    rw [hi, eq_comm, columnIdentity_ofEntry_eq_ok_iff]
    constructor
    · rintro ⟨name, hb, hname'⟩
      rw [hb, ← hname', hname, List.getElem?_eq_getElem ha]
    · intro h
      exact ⟨_, h.symm.trans (List.getElem?_eq_getElem ha), hname⟩
  · intro i hi
    have hmem : schema.identities[i] ∈ names := (hlists.mem _).mp (List.getElem_mem hi)
    obtain ⟨a, ha, hname⟩ := List.getElem_of_mem hmem
    refine ⟨a, ha, columnIdentity_ofEntry_eq_ok_iff.mpr ⟨schema.identities[i], ?_, ?_⟩⟩
    · exact List.getElem?_eq_some_iff.mpr ⟨ha, hname⟩
    · exact List.getElem?_eq_getElem hi
  · exact fun column e => hlength ▸ columnIdentity_ofEntry_eq_error_iff
  · exact fun column e => hlength ▸ tableOf_ofEntry_eq_error_iff
  · exact fun more a ha => columnIdentity_append more (hlength ▸ ha)

end Schema

end QueryGrammar
