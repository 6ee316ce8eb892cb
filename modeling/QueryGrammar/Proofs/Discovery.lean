/-
QueryGrammar/Proofs/Discovery.lean

Which file decides the settings, and what is told about it.

Of the places where settings are looked for, the first one that holds a file is final
(`FileTree.FirstFile`); those before it hold none, because the path leads nowhere, to a directory,
or to a name that is not taken.

A file is final together with what is wrong with it.  `Settings.Reads` has one case for each way in
which the text of a file ends: something in it is no assignment, is assigned twice or is no setting;
a limit is out of bounds; or the settings are those that it assigns.  `Settings.value?` looks at
settings as at a table from keys to values, so that this last case is one equation for every key:
assigning changes the value of one key (`Settings.assign?_eq_some_iff`), hence a list of assignments
gives the keys in it their values and leaves all others (`Settings.foldlM_assign?_eq_some_iff`).

Main result: `Settings.Finds` has one case for each way in which a search for settings ends, and
exactly one of them applies (`Settings.discover_masks_nothing`).
-/
import QueryGrammar.Proofs.Files
import QueryGrammar.Proofs.Ranges

namespace QueryGrammar

/-! ### The first file -/

namespace FileTree

variable {tree : FileTree} {path : String} {content : Except FileError String}

/-- Of some places in order, this one is the first that holds a file. -/
structure FirstFile (tree : FileTree) (places : List String) (path : String)
    (content : Except FileError String) : Prop where
  exists_split : ∃ passed others, places = passed ++ path :: others ∧
    ∀ place ∈ passed, tree.NoFile place
  holds : tree.Holds path content

/-- The search for the first file ends at the place, or passes over all of them. -/
theorem find?_hasFile_of_firstFile {places : List String}
    (h : tree.FirstFile places path content) : places.find? tree.hasFile = some path := by
  obtain ⟨⟨passed, others, hplaces, hpassed⟩, hholds⟩ := h
  refine List.find?_eq_some_iff_append.mpr
    ⟨hasFile_iff.mpr ⟨content, hholds⟩, passed, others, hplaces, fun place hplace => ?_⟩
  rw [noFile_iff.mp (hpassed place hplace)]
  rfl

theorem firstFile_or_noFile (tree : FileTree) (places : List String) :
    (∃ path content, tree.FirstFile places path content) ∨ ∀ place ∈ places, tree.NoFile place := by
  rcases hfind : places.find? tree.hasFile with - | path
  · right
    intro place hplace
    have hnone : ¬ tree.hasFile place := List.find?_eq_none.mp hfind place hplace
    exact noFile_iff.mpr (Bool.eq_false_of_not_eq_true hnone)
  · left
    obtain ⟨hfile, passed, others, hplaces, hpassed⟩ := List.find?_eq_some_iff_append.mp hfind
    obtain ⟨content, hholds⟩ := hasFile_iff.mp hfile
    refine ⟨path, content, ⟨passed, others, hplaces, fun place hplace => ?_⟩, hholds⟩
    exact noFile_iff.mpr ((Bool.not_eq_true' _).mp (hpassed place hplace))

end FileTree

namespace Settings

variable {settings settings' start : Settings} {key : String} {value : Value}
variable {assignments : List (String × Value)} {text : String}

/-! ### Settings by their keys -/

/-- The value of a key. -/
def value? (settings : Settings) : String → Option Value
  | "max_select_columns" => some (.number settings.maxSelectColumns)
  | "max_where_conditions" => some (.number settings.maxWhereConditions)
  | "strict" => some (.truth settings.strict)
  | _ => none

/-- Settings are told apart by the values of their keys. -/
theorem eq_of_value? (h : ∀ key, settings.value? key = settings'.value? key) :
    settings = settings' := by
  have hcolumns := h "max_select_columns"
  have hconditions := h "max_where_conditions"
  have hstrict := h "strict"
  cases settings
  cases settings'
  cases hcolumns
  cases hconditions
  cases hstrict
  rfl

/-- The assignment is one of a setting, to a value of its kind. -/
def Assignable (assignment : String × Value) : Prop :=
  ∃ settings : Settings, settings.value? assignment.1 = some assignment.2

/-- What can be assigned is assigned, whatever the settings are. -/
theorem exists_assign? (h : Assignable (key, value)) (start : Settings) :
    ∃ settings, start.assign? (key, value) = some settings := by
  obtain ⟨settings, hvalue⟩ := h
  change settings.value? key = some value at hvalue
  unfold value? at hvalue
  split at hvalue
  · cases hvalue
    exact ⟨_, rfl⟩
  · cases hvalue
    exact ⟨_, rfl⟩
  · cases hvalue
    exact ⟨_, rfl⟩
  · cases hvalue

theorem value?_of_assign? (h : start.assign? (key, value) = some settings) :
    settings.value? key = some value ∧
      ∀ other, other ≠ key → settings.value? other = start.value? other := by
  unfold assign? at h
  split at h
  case h_4 => cases h
  -- each key has a field of its own
  all_goals
    cases ‹(key, value) = _›
    cases h
    refine ⟨rfl, fun other hne => ?_⟩
    unfold value?
    split
    all_goals first | rfl | exact absurd rfl hne

/-- An assignment gives the key its value and leaves the others. -/
theorem assign?_eq_some_iff : start.assign? (key, value) = some settings ↔
    settings.value? key = some value ∧
      ∀ other, other ≠ key → settings.value? other = start.value? other := by
  refine ⟨value?_of_assign?, fun ⟨hvalue, hothers⟩ => ?_⟩
  obtain ⟨next, hnext⟩ := exists_assign? ⟨settings, hvalue⟩ start
  obtain ⟨hnextValue, hnextOthers⟩ := value?_of_assign? hnext
  have heq : next = settings := eq_of_value? fun other => by
    by_cases h : other = key
    · rw [h, hnextValue, hvalue]
    · rw [hnextOthers other h, hothers other h]
  rw [hnext, heq]

/-- Assignments of different keys give these keys their values and leave the others. -/
theorem foldlM_assign?_eq_some_iff (nodup : (assignments.map Prod.fst).Nodup) :
    assignments.foldlM assign? start = some settings ↔
      (∀ assignment ∈ assignments, settings.value? assignment.1 = some assignment.2) ∧
        ∀ key ∉ assignments.map Prod.fst, settings.value? key = start.value? key := by
  induction assignments generalizing start with
  | nil =>
    show some start = some settings ↔ _
    constructor
    · rintro ⟨⟩
      exact ⟨by simp, fun _ _ => rfl⟩
    · rintro ⟨-, hvalues⟩
      exact congrArg some (eq_of_value? fun key => (hvalues key (by simp)).symm)
  | cons assignment rest ih =>
    obtain ⟨key, value⟩ := assignment
    rw [List.map_cons, List.nodup_cons] at nodup
    obtain ⟨hkey, hrest⟩ := nodup
    rw [List.foldlM_cons, Option.bind_eq_bind, Option.bind_eq_some_iff]
    constructor
    · rintro ⟨next, hnext, hfold⟩
      obtain ⟨hvalue, hothers⟩ := assign?_eq_some_iff.mp hnext
      obtain ⟨hassigned, habsent⟩ := (ih hrest).mp hfold
      refine ⟨List.forall_mem_cons.mpr ⟨?_, hassigned⟩, fun other hother => ?_⟩
      · -- the key is not assigned again
        exact (habsent key hkey).trans hvalue
      · obtain ⟨hne, hother⟩ := not_or.mp (List.mem_cons.not.mp hother)
        exact (habsent other hother).trans (hothers other hne)
    · rintro ⟨hassigned, habsent⟩
      obtain ⟨hvalue, hassigned⟩ := List.forall_mem_cons.mp hassigned
      obtain ⟨next, hnext⟩ := exists_assign? ⟨settings, hvalue⟩ start
      obtain ⟨hnextValue, hnextOthers⟩ := assign?_eq_some_iff.mp hnext
      refine ⟨next, hnext, (ih hrest).mpr ⟨hassigned, fun other hother => ?_⟩⟩
      by_cases h : other = key
      · rw [h, hnextValue]
        exact hvalue
      · rw [hnextOthers other h]
        exact habsent other (List.not_mem_cons_of_ne_of_not_mem h hother)

theorem exists_foldlM_assign? (h : ∀ assignment ∈ assignments, Assignable assignment)
    (start : Settings) : ∃ settings, assignments.foldlM assign? start = some settings := by
  induction assignments generalizing start with
  | nil => exact ⟨start, rfl⟩
  | cons assignment rest ih =>
    obtain ⟨hfirst, hrest⟩ := List.forall_mem_cons.mp h
    obtain ⟨next, hnext⟩ := exists_assign? hfirst start
    obtain ⟨settings, hfold⟩ := ih hrest next
    exact ⟨settings, by rw [List.foldlM_cons, hnext]; exact hfold⟩

/-! ### The text of a file -/

/-- The assignments in a text, in order; nothing when there is something else in it. -/
def assignments? (text : String) : Option (List (String × Value)) := do
  let chars := match text.toList with
    | '\ufeff' :: rest => rest
    | chars => chars
  pure ((← (lines chars).mapM assignment?).filterMap id)

/-- The settings are those that the assignments make, each key once: what is assigned has the
assigned value, and what is not is at its default. -/
structure AssignedBy (settings : Settings) (assignments : List (String × Value)) : Prop where
  nodup : (assignments.map Prod.fst).Nodup
  assigned : ∀ assignment ∈ assignments, settings.value? assignment.1 = some assignment.2
  absent : ∀ key ∉ assignments.map Prod.fst,
    settings.value? key = ({} : Settings).value? key

/-- What the text of a file says about the settings. -/
inductive Reads (text : String) : Except Failure Settings → Prop
  /-- There is something in it that is no assignment. -/
  | malformed (lines : assignments? text = none) : Reads text (.error .toml)
  /-- A key is assigned twice. -/
  | repeated {assignments : List (String × Value)} (lines : assignments? text = some assignments)
      (twice : ¬ (assignments.map Prod.fst).Nodup) : Reads text (.error .toml)
  /-- A key is unknown, or its value is of the wrong kind. -/
  | foreign {assignments : List (String × Value)} {assignment : String × Value}
      (lines : assignments? text = some assignments) (mem : assignment ∈ assignments)
      (foreign : ¬ Assignable assignment) : Reads text (.error .toml)
  /-- The limit of the select list is out of bounds. -/
  | columns {assignments : List (String × Value)} {settings : Settings}
      (lines : assignments? text = some assignments) (assigned : settings.AssignedBy assignments)
      (range : settings.maxSelectColumns < 1 ∨ columnBound < settings.maxSelectColumns) :
      Reads text (.error (.settings (.selectColumns columnBound settings.maxSelectColumns)))
  /-- The limit of the conditions is out of bounds, and the other one is not. -/
  | conditions {assignments : List (String × Value)} {settings : Settings}
      (lines : assignments? text = some assignments) (assigned : settings.AssignedBy assignments)
      (one_le_columns : 1 ≤ settings.maxSelectColumns)
      (columns_le : settings.maxSelectColumns ≤ columnBound)
      (range : settings.maxWhereConditions < 1 ∨
        conditionBound < settings.maxWhereConditions) :
      Reads text (.error (.settings (.whereConditions conditionBound settings.maxWhereConditions)))
  /-- Both limits are within their bounds. -/
  | accepted {assignments : List (String × Value)} {settings : Settings}
      (lines : assignments? text = some assignments) (assigned : settings.AssignedBy assignments)
      (accepted : settings.Accepted) : Reads text (.ok settings)

theorem parse?_eq (text : String) : parse? text = (assignments? text).bind fun assignments =>
    if (assignments.map Prod.fst).Nodup then assignments.foldlM assign? {} else none := by
  rw [assignments?, ← Option.bind_eq_bind, bind_assoc]
  rfl

theorem parse?_eq_some_iff : parse? text = some settings ↔
    ∃ assignments, assignments? text = some assignments ∧ settings.AssignedBy assignments := by
  rw [parse?_eq, Option.bind_eq_some_iff]
  constructor
  · rintro ⟨assignments, hlines, h⟩
    by_cases nodup : (assignments.map Prod.fst).Nodup
    · rw [if_pos nodup] at h
      obtain ⟨hassigned, habsent⟩ := (foldlM_assign?_eq_some_iff nodup).mp h
      exact ⟨assignments, hlines, nodup, hassigned, habsent⟩
    · rw [if_neg nodup] at h
      cases h
  · rintro ⟨assignments, hlines, nodup, hassigned, habsent⟩
    refine ⟨assignments, hlines, ?_⟩
    rw [if_pos nodup]
    exact (foldlM_assign?_eq_some_iff nodup).mpr ⟨hassigned, habsent⟩

/-- A text from which no settings can be read has something in it that is no assignment, assigns a
key twice, or assigns something else. -/
theorem reads_of_parse?_eq_none (h : parse? text = none) : Reads text (.error .toml) := by
  rcases hlines : assignments? text with - | assignments
  · exact .malformed hlines
  rw [parse?_eq, hlines] at h
  change (if (assignments.map Prod.fst).Nodup then assignments.foldlM assign? {} else none) = none
    at h
  by_cases nodup : (assignments.map Prod.fst).Nodup
  · rw [if_pos nodup] at h
    by_contra hreads
    -- otherwise everything could be assigned
    have hall : ∀ assignment ∈ assignments, Assignable assignment := fun assignment hmem =>
      not_not.mp fun hforeign => hreads (.foreign hlines hmem hforeign)
    obtain ⟨settings, hfold⟩ := exists_foldlM_assign? hall {}
    rw [h] at hfold
    cases hfold
  · exact .repeated hlines nodup

theorem ofText_of_assigned (lines : assignments? text = some assignments)
    (assigned : settings.AssignedBy assignments) : ofText text = settings.checked := by
  rw [ofText, parse?_eq_some_iff.mpr ⟨assignments, lines, assigned⟩]

theorem ofText_of_not_assigned (lines : assignments? text = some assignments)
    (h : ∀ settings : Settings, ¬ settings.AssignedBy assignments) :
    ofText text = .error .toml := by
  have hparse : parse? text = none := Option.eq_none_iff_forall_ne_some.mpr fun settings hsome => by
    obtain ⟨assignments', hlines, assigned⟩ := parse?_eq_some_iff.mp hsome
    rw [lines] at hlines
    cases hlines
    exact h settings assigned
  rw [ofText, hparse]

/-- A text says exactly one thing about the settings. -/
theorem reads_iff {result : Except Failure Settings} :
    Reads text result ↔ ofText text = result := by
  constructor
  · intro h
    cases h with
    | malformed lines =>
      rw [ofText, parse?_eq, lines]
      rfl
    | repeated lines twice =>
      exact ofText_of_not_assigned lines fun settings assigned => twice assigned.nodup
    | foreign lines mem foreign =>
      refine ofText_of_not_assigned lines fun settings assigned => ?_
      exact foreign ⟨settings, assigned.assigned _ mem⟩
    | columns lines assigned range =>
      rw [ofText_of_assigned lines assigned, checked, if_pos]
      omega
    | conditions lines assigned one_le le range =>
      rw [ofText_of_assigned lines assigned, checked, if_neg (not_not.mpr ⟨one_le, le⟩), if_pos]
      omega
    | accepted lines assigned accepted =>
      rw [ofText_of_assigned lines assigned]
      exact checked_eq_ok_iff.mpr ⟨rfl, accepted⟩
  · rintro rfl
    rcases hparse : parse? text with - | settings
    · rw [ofText, hparse]
      exact reads_of_parse?_eq_none hparse
    · obtain ⟨assignments, lines, assigned⟩ := parse?_eq_some_iff.mp hparse
      rw [ofText_of_assigned lines assigned]
      unfold checked
      split_ifs with hcolumns hconditions
      · exact .accepted lines assigned ⟨hcolumns.1, hcolumns.2, hconditions.1, hconditions.2⟩
      · exact .conditions lines assigned hcolumns.1 hcolumns.2 (by omega)
      · exact .columns lines assigned (by omega)

/-! ### The search -/

/-- What comes of loading the settings from a file with some content. -/
inductive Loads (path : String) : Except FileError String → Except Failure Settings → Prop
  /-- The file cannot be read. -/
  | unreadable (e : FileError) : Loads path (.error e) (.error (.settings (.unreadable path e)))
  /-- It is as its text says. -/
  | text {text : String} {result : Except Failure Settings} (reads : Reads text result) :
      Loads path (.ok text) result

/-- How a search for settings ends. -/
inductive Finds (tree : FileTree) (home : Option String) :
    Option String → Except Failure Settings → Prop
  /-- The path is given, and what it leads to is loaded. -/
  | explicit {path : String} {result : Except Failure Settings}
      (loads : Loads path (tree.read path) result) : Finds tree home (some path) result
  /-- The first file among the places is loaded. -/
  | first {path : String} {content : Except FileError String} {result : Except Failure Settings}
      (first : tree.FirstFile (places home) path content) (loads : Loads path content result) :
      Finds tree home none result
  /-- No place has a file. -/
  | defaults (noFile : ∀ place ∈ places home, tree.NoFile place) : Finds tree home none (.ok {})

section Search

variable {tree : FileTree} {home explicit : Option String} {path : String}
variable {content : Except FileError String} {result : Except Failure Settings}

theorem loads_iff : Loads path (tree.read path) result ↔ load tree path = result := by
  rcases hread : tree.read path with e | text
  · rw [load, hread]
    constructor
    · rintro ⟨⟩
      rfl
    · rintro rfl
      exact .unreadable e
  · rw [load, hread]
    constructor
    · rintro ⟨⟩
      exact reads_iff.mp ‹_›
    · intro h
      exact .text (reads_iff.mpr h)

theorem discover_of_firstFile (h : tree.FirstFile (places home) path content) :
    discover tree home none = load tree path := by
  rw [discover, FileTree.find?_hasFile_of_firstFile h]

theorem discover_of_noFile (h : ∀ place ∈ places home, tree.NoFile place) :
    discover tree home none = .ok {} := by
  have hfind : (places home).find? tree.hasFile = none := by
    refine List.find?_eq_none.mpr fun place hplace => ?_
    rw [FileTree.noFile_iff.mp (h place hplace)]
    exact Bool.false_ne_true
  rw [discover, hfind]

/-- A search ends in exactly one of these ways. -/
theorem finds_iff : Finds tree home explicit result ↔ discover tree home explicit = result := by
  constructor
  · intro h
    cases h with
    | explicit loads => exact loads_iff.mp loads
    | first first loads =>
      rw [discover_of_firstFile first]
      exact loads_iff.mp (first.holds.read.symm ▸ loads)
    | defaults noFile => exact discover_of_noFile noFile
  · rintro rfl
    rcases explicit with - | path
    · rcases tree.firstFile_or_noFile (places home) with ⟨path, content, first⟩ | noFile
      · have hloads : Loads path (tree.read path) (load tree path) := loads_iff.mpr rfl
        rw [discover_of_firstFile first]
        exact .first first (first.holds.read ▸ hloads)
      · rw [discover_of_noFile noFile]
        exact .defaults noFile
    · exact .explicit (loads_iff.mpr rfl)

/-- Loading depends on what the path leads to and on nothing else. -/
theorem load_congr {tree' : FileTree} (h : tree'.read path = tree.read path) :
    load tree' path = load tree path := by
  rw [load, load, h]

end Search

/-- **A search for settings masks nothing.**  It ends in exactly one of the ways of `Finds`.

So a path that is given decides alone: the result depends on what the path leads to, and it is an
error if that cannot be read.  Otherwise the first place with a file decides, together with the
content of the file: nothing behind that place counts, whatever is wrong with the file.

Every result is within the bounds of the grammar.  If there is a file, it is made of the assignments
in the text of the file, what is not assigned being at its default; all of the defaults stand in for
a file only if no path is given and no place has a file. -/
theorem discover_masks_nothing (tree : FileTree) (home : Option String) :
    (∀ explicit result,
      Finds tree home explicit result ↔ discover tree home explicit = result) ∧
    (∀ path,
      (∀ tree' home', tree'.read path = tree.read path →
        discover tree' home' (some path) = discover tree home (some path)) ∧
      ∀ e, tree.read path = .error e →
        discover tree home (some path) = .error (.settings (.unreadable path e))) ∧
    (∀ path content, tree.FirstFile (places home) path content →
      (∀ tree' home', tree'.FirstFile (places home') path content →
        discover tree' home' none = discover tree home none) ∧
      (∀ e, content = .error e →
        discover tree home none = .error (.settings (.unreadable path e))) ∧
      ∀ text, content = .ok text → discover tree home none = ofText text) ∧
    ∀ explicit settings, discover tree home explicit = .ok settings →
      settings.Accepted ∧
      ((∃ path text assignments, tree.read path = .ok text ∧
          (explicit = some path ∨
            explicit = none ∧ tree.FirstFile (places home) path (.ok text)) ∧
          assignments? text = some assignments ∧ settings.AssignedBy assignments) ∨
        explicit = none ∧ (∀ place ∈ places home, tree.NoFile place) ∧ settings = {}) := by
  refine ⟨fun explicit result => finds_iff, fun path => ⟨fun tree' home' h => load_congr h,
    fun e h => ?_⟩, fun path content first => ⟨fun tree' home' first' => ?_, ?_, ?_⟩,
    fun explicit settings h => ⟨accepted_of_discover h, ?_⟩⟩
  · show load tree path = _
    rw [load, h]
  · rw [discover_of_firstFile first, discover_of_firstFile first']
    exact load_congr (first'.holds.read.trans first.holds.read.symm)
  · rintro e rfl
    rw [discover_of_firstFile first, load, first.holds.read]
  · rintro text rfl
    rw [discover_of_firstFile first, load, first.holds.read]
  · -- a text that is accepted makes the settings
    have hmade : ∀ {path content}, Loads path content (.ok settings) → ∃ text assignments,
        content = .ok text ∧ assignments? text = some assignments ∧
          settings.AssignedBy assignments := by
      rintro path content (- | ⟨⟨⟩⟩)
      exact ⟨_, _, rfl, ‹_›, ‹_›⟩
    cases finds_iff.mpr h with
    | explicit loads =>
      obtain ⟨text, assignments, hread, hlines, hassigned⟩ := hmade loads
      exact .inl ⟨_, text, assignments, hread, .inl rfl, hlines, hassigned⟩
    | first first loads =>
      obtain ⟨text, assignments, rfl, hlines, hassigned⟩ := hmade loads
      exact .inl ⟨_, text, assignments, first.holds.read, .inr ⟨rfl, first⟩, hlines, hassigned⟩
    | defaults noFile => exact .inr ⟨rfl, noFile, rfl⟩

namespace Sample

/-- A directory in the place of the nearer file, and a limit beyond the grammar in the other one. -/
def wideFolder : FileTree where
  files := [(["c", "semql", "semql.toml"], .ok "strict = true\nmax_select_columns = 9")]
  directories := [["semql.toml"]]

/-- The nearer file cannot be read, and the other one has nothing wrong with it. -/
def lockedFolder : FileTree where
  files := [(["c", "semql", "semql.toml"], .ok "strict = true"),
    (["semql.toml"], .error (.other "Permission denied (os error 13)"))]

theorem firstFile_wideFolder : wideFolder.FirstFile (places (some "c")) "c/semql/semql.toml"
    (.ok "strict = true\nmax_select_columns = 9") where
  exists_split := by
    refine ⟨["semql.toml"], [], by decide +kernel, fun place hplace => ?_⟩
    obtain rfl := List.mem_singleton.mp hplace
    have hresolve : wideFolder.resolve "semql.toml" = .ok ["semql.toml"] :=
      (FileTree.resolve_eq _ _).trans (by decide +kernel)
    exact .directory hresolve (by decide)
  holds := FileTree.holds_of_names ["c", "semql", "semql.toml"] (by decide +kernel) (by decide) rfl

theorem holds_lockedFolder_far :
    lockedFolder.Holds "c/semql/semql.toml" (.ok "strict = true") :=
  FileTree.holds_of_names ["c", "semql", "semql.toml"] (by decide +kernel) (by decide) rfl

theorem firstFile_lockedFolder : lockedFolder.FirstFile (places (some "c")) "semql.toml"
    (.error (.other "Permission denied (os error 13)")) where
  exists_split := ⟨[], ["c/semql/semql.toml"], by decide +kernel, nofun⟩
  holds := FileTree.holds_of_names ["semql.toml"] (by decide +kernel) (by decide) (by decide)

theorem discover_lockedFolder : discover lockedFolder (some "c") (some "c/semql/semql.toml") =
    .ok { strict := true } := by
  show load lockedFolder "c/semql/semql.toml" = _
  rw [load, holds_lockedFolder_far.read]
  decide +kernel

end Sample

/-- The limit is reported, and so is the nearer file that cannot be read; the other file is found
when it is asked for. -/
theorem discover_masks_nothing_sample :
    discover Sample.wideFolder (some "c") none = .error (.settings (.selectColumns 5 9)) ∧
      discover Sample.lockedFolder (some "c") none = .error (.settings (.unreadable "semql.toml"
        (.other "Permission denied (os error 13)"))) ∧
      ({ strict := true } : Settings).Accepted := by
  obtain ⟨-, -, hwide, -⟩ := discover_masks_nothing Sample.wideFolder (some "c")
  obtain ⟨-, -, hlocked, hok⟩ := discover_masks_nothing Sample.lockedFolder (some "c")
  obtain ⟨-, -, htext⟩ := hwide _ _ Sample.firstFile_wideFolder
  obtain ⟨-, hunreadable, -⟩ := hlocked _ _ Sample.firstFile_lockedFolder
  exact ⟨(htext _ rfl).trans (by decide +kernel), hunreadable _ rfl,
    (hok _ _ Sample.discover_lockedFolder).1⟩

end Settings

end QueryGrammar
