/-
QueryGrammar/Proofs/Files.lean

Where paths lead, and what a written file changes.

The names of a path are what its slashes separate (`FileTree.splitOn_slash`).  Walking over them
from a directory leads to a directory, or to something that lies in one
(`FileTree.isDirectory_of_resolve`).  There a file is held (`FileTree.Holds`), or there is none
(`FileTree.NoFile`).

Writing a file puts a text in its place (`FileTree.put`).  A path that can be written leads to no
directory but into one, so the directories stay as they are (`FileTree.isDirectory_put`), other
paths lead where they did (`FileTree.resolve_put`), and what they lead to is read as before
(`FileTree.read_put_of_ne`).
-/
import Mathlib.Data.String.Basic
import QueryGrammar.Proofs.Outcome

namespace QueryGrammar.FileTree

/-! ### The names of a path -/

section Names

open String (ofList splitOnAux utf8Len)

/-- Splitting at slashes from within a name: `l` is what lies before the name, `m` what there is of
the name so far, and `r` what is to come. -/
theorem splitOnAux_slash (l m r : List Char) (names : List String) :
    splitOnAux (ofList (l ++ m ++ r)) "/" ⟨utf8Len l⟩ ⟨utf8Len l + utf8Len m⟩ 0 names =
      names.reverse ++ (r.splitOnPPrepend (· == '/') m.reverse).map ofList := by
  have hname := String.extract_of_valid l m r
  induction r generalizing l m names with
  | nil =>
    have hend := (String.atEnd_of_valid (l ++ m) []).mpr rfl
    rw [String.utf8Len_append] at hend
    rw [splitOnAux, if_pos hend, hname]
    simp
  | cons c r ih =>
    have hend := mt (String.atEnd_of_valid (l ++ m) (c :: r)).mp (List.cons_ne_nil c r)
    have hget : String.Pos.Raw.get _ _ = c := String.get_of_valid (l ++ m) (c :: r)
    have hnext := String.next_of_valid (l ++ m) c r
    rw [String.utf8Len_append] at hend hget hnext
    have hslash : String.Pos.Raw.get "/" 0 = '/' := by decide
    have hpast : String.Pos.Raw.atEnd "/" (String.Pos.Raw.next "/" 0) = true := by decide
    rw [splitOnAux, if_neg hend, hget, hslash, List.splitOnPPrepend_cons_eq_if]
    by_cases hc : c = '/'
    · -- the name ends, and the next one begins after the slash
      subst hc
      have hsame : ('/' == '/') = true := rfl
      have hback : String.Pos.Raw.unoffsetBy ⟨utf8Len l + utf8Len m + Char.utf8Size '/'⟩
          (String.Pos.Raw.next "/" 0) = ⟨utf8Len l + utf8Len m⟩ := rfl
      have hrest := ih (l ++ m ++ ['/']) [] (ofList m :: names) (String.extract_of_valid _ _ _)
      rw [if_pos hsame, if_pos hpast, if_pos hsame, hnext, hback, hname]
      simpa [-String.ofList_append, Nat.add_assoc] using hrest
    · have hhere : String.Pos.Raw.unoffsetBy ⟨utf8Len l + utf8Len m⟩ 0 =
          ⟨utf8Len l + utf8Len m⟩ := rfl
      have hrest := ih l (m ++ [c]) names (String.extract_of_valid _ _ _)
      rw [if_neg (by simpa using hc), if_neg (by simpa using hc), hhere, hnext]
      simpa [-String.ofList_append, Nat.add_assoc] using hrest

/-- The names of a path are what its slashes separate. -/
theorem splitOn_slash (path : String) :
    path.splitOn "/" = (path.toList.splitOn '/').map ofList := by
  rw [String.splitOn, if_neg (by decide)]
  simpa [List.splitOn] using splitOnAux_slash [] [] path.toList []

end Names

variable {tree : FileTree} {here next target p : Path} {path name text : String}

/-- A path is walked over the names between its slashes. -/
theorem resolve_eq (tree : FileTree) (path : String) : tree.resolve path =
    tree.resolveNames path ((path.toList.splitOn '/').map String.ofList) := by
  rw [resolve, splitOn_slash]

/-! ### Directories -/

theorem isDirectory_iff : tree.isDirectory p ↔ p <+: tree.workingDirectory ∨
    (∃ d ∈ tree.directories, p <+: d) ∨ ∃ file ∈ Keyed.keys tree.files, p <+: file.dropLast := by
  simp [isDirectory, Keyed.keys, or_assoc]

/-- What leads to a directory is one. -/
theorem isDirectory_above {d : Path} (h : p <+: d) (hd : tree.isDirectory d) :
    tree.isDirectory p := by
  rw [isDirectory_iff] at hd ⊢
  rcases hd with hd | ⟨d', hd', hd⟩ | ⟨file, hfile, hd⟩
  · exact .inl (h.trans hd)
  · exact .inr (.inl ⟨d', hd', h.trans hd⟩)
  · exact .inr (.inr ⟨file, hfile, h.trans hd⟩)

theorem isDirectory_start : tree.isDirectory (tree.start path) := by
  rw [isDirectory_iff, start]
  split_ifs
  · exact .inl List.nil_prefix
  · exact .inl List.prefix_rfl

/-! ### Walking -/

theorem follow_eq_ok_iff : tree.follow here name = .ok next ↔
    tree.isDirectory here ∧ name.utf8ByteSize ≤ 255 ∧ next = step here name := by
  unfold follow
  cases tree.isDirectory here with
  | false => simp
  | true =>
    by_cases hname : 255 < name.utf8ByteSize
    · simp [hname, Nat.not_le.mpr hname]
    · simp [hname, Nat.not_lt.mp hname, eq_comm]

/-- One name further there is a directory, or something that lies in one. -/
theorem isDirectory_of_follow (h : tree.follow here name = .ok next) :
    tree.isDirectory next ∨ tree.isDirectory next.dropLast := by
  obtain ⟨hhere, -, rfl⟩ := follow_eq_ok_iff.mp h
  unfold step
  split_ifs
  · exact .inl hhere
  · exact .inl (isDirectory_above (List.dropLast_prefix here) hhere)
  · rw [List.dropLast_concat]
    exact .inr hhere

theorem isDirectory_of_walk {names : List String}
    (hhere : tree.isDirectory here ∨ tree.isDirectory here.dropLast)
    (h : names.foldlM tree.follow here = .ok target) :
    tree.isDirectory target ∨ tree.isDirectory target.dropLast := by
  induction names generalizing here with
  | nil =>
    obtain rfl : here = target := by simpa [pure, Except.pure] using h
    exact hhere
  | cons name names ih =>
    rw [List.foldlM_cons, bind_eq_ok_iff] at h
    obtain ⟨next, hnext, h⟩ := h
    exact ih (isDirectory_of_follow hnext) h

theorem resolve_eq_ok_iff : tree.resolve path = .ok target ↔
    '\x00' ∉ path.toList ∧ path ≠ "" ∧ path.utf8ByteSize < 4096 ∧
      (path.splitOn "/").foldlM tree.follow (tree.start path) = .ok target := by
  unfold resolve resolveNames
  simp only [List.contains_iff_mem]
  split_ifs with hnul hempty hlong
  · simp [hnul]
  · simp [hempty]
  · simp [Nat.not_lt.mpr hlong]
  · simp [hnul, hempty, Nat.not_le.mp hlong]

/-- A path leads to a directory, or to something that lies in one. -/
theorem isDirectory_of_resolve (h : tree.resolve path = .ok target) :
    tree.isDirectory target ∨ tree.isDirectory target.dropLast := by
  obtain ⟨-, -, -, hwalk⟩ := resolve_eq_ok_iff.mp h
  exact isDirectory_of_walk (.inl isDirectory_start) hwalk

/-! ### Files at a path -/

variable {content : Except FileError String}

/-- The path leads to a file with this content, which may be unreadable. -/
def Holds (tree : FileTree) (path : String) (content : Except FileError String) : Prop :=
  ∃ target, tree.resolve path = .ok target ∧ tree.isDirectory target = false ∧
    Keyed.find? target tree.files = some content

/-- The path leads to no file. -/
inductive NoFile (tree : FileTree) (path : String) : Prop
  /-- A name on the way is missing, or is no directory, or cannot be a name. -/
  | unresolved {e : FileError} (failure : tree.resolve path = .error e)
  /-- There is a directory. -/
  | directory {target : Path} (resolves : tree.resolve path = .ok target)
      (directory : tree.isDirectory target)
  /-- There is nothing. -/
  | missing {target : Path} (resolves : tree.resolve path = .ok target)
      (missing : Keyed.find? target tree.files = none)

theorem Holds.read (h : tree.Holds path content) : tree.read path = content := by
  obtain ⟨target, hresolve, hdirectory, hfind⟩ := h
  unfold FileTree.read
  rw [hresolve]
  show (if tree.isDirectory target then _ else _) = content
  rw [hdirectory, hfind]
  rfl

/-- A path leads to a file if the names between its slashes do. -/
theorem holds_of_names (target : Path)
    (names : tree.resolveNames path ((path.toList.splitOn '/').map String.ofList) = .ok target)
    (file : tree.isDirectory target = false)
    (find : Keyed.find? target tree.files = some content) : tree.Holds path content :=
  ⟨target, (resolve_eq tree path).trans names, file, find⟩

theorem hasFile_iff : tree.hasFile path ↔ ∃ content, tree.Holds path content := by
  unfold hasFile
  constructor
  · intro h
    rcases hresolve : tree.resolve path with e | target
    · rw [hresolve] at h
      cases h
    · rw [hresolve] at h
      obtain ⟨hfile, hdirectory⟩ := (Bool.and_eq_true _ _).mp h
      obtain ⟨content, hfind⟩ := Option.isSome_iff_exists.mp hfile
      exact ⟨content, target, hresolve, (Bool.not_eq_true' _).mp hdirectory, hfind⟩
  · rintro ⟨content, target, hresolve, hdirectory, hfind⟩
    rw [hresolve]
    show (tree.isFile target && !tree.isDirectory target) = true
    rw [hdirectory, isFile, hfind]
    rfl

theorem noFile_iff : tree.NoFile path ↔ tree.hasFile path = false := by
  unfold hasFile
  constructor
  · rintro (failure | ⟨hresolve, hdirectory⟩ | ⟨hresolve, hfind⟩)
    · rw [failure]
    · rw [hresolve]
      show (tree.isFile _ && !tree.isDirectory _) = false
      rw [hdirectory, Bool.not_true, Bool.and_false]
    · rw [hresolve]
      show (tree.isFile _ && !tree.isDirectory _) = false
      rw [isFile, hfind, Option.isSome_none, Bool.false_and]
  · intro h
    rcases hresolve : tree.resolve path with e | target
    · exact .unresolved hresolve
    · rw [hresolve] at h
      rcases Bool.and_eq_false_iff.mp h with hfile | hdirectory
      · exact .missing hresolve
          (Option.isNone_iff_eq_none.mp (Option.isSome_eq_false_iff.mp hfile))
      · exact .directory hresolve (by simpa using hdirectory)

/-! ### Putting a text in its place -/

/-- The tree with a text in the place of a file. -/
def put (tree : FileTree) (target : Path) (text : String) : FileTree :=
  { tree with files := Keyed.insert target (.ok text) tree.files }

/-- Writing puts the text where the path leads, which is no directory but lies in one. -/
theorem exists_put_of_write {tree' : FileTree} (h : tree.write path text = .ok tree') :
    ∃ target, tree.resolve path = .ok target ∧ tree.isDirectory target = false ∧
      tree.isDirectory target.dropLast ∧ tree' = tree.put target text := by
  unfold write at h
  by_cases hslash : path.endsWith "/"
  · rw [if_pos hslash, bind_eq_ok_iff] at h
    obtain ⟨_, _, h⟩ := h
    cases h
  · rw [if_neg hslash, bind_eq_ok_iff] at h
    obtain ⟨target, hresolve, h⟩ := h
    cases hfile : tree.isDirectory target with
    | true =>
      rw [hfile] at h
      cases h
    | false =>
      rw [hfile] at h
      cases h
      exact ⟨target, hresolve, hfile,
        (isDirectory_of_resolve hresolve).resolve_left (by simp [hfile]), rfl⟩

theorem write_eq_put (slash : path.endsWith "/" = false) (h : tree.resolve path = .ok target)
    (file : tree.isDirectory target = false) :
    tree.write path text = .ok (tree.put target text) := by
  unfold write
  rw [slash, h]
  show (if tree.isDirectory target then _ else _) = _
  rw [file]
  rfl

section Put

variable (parent : tree.isDirectory target.dropLast)

include parent

theorem isDirectory_put (p : Path) : (tree.put target text).isDirectory p = tree.isDirectory p := by
  rw [Bool.eq_iff_iff]
  constructor
  · intro hput
    rcases isDirectory_iff.mp hput with h | h | ⟨file, hfile, h⟩
    · exact isDirectory_iff.mpr (.inl h)
    · exact isDirectory_iff.mpr (.inr (.inl h))
    · -- only the new file could make a directory of the path
      rcases (Keyed.mem_keys_insert _ _).mp hfile with rfl | hfile
      · exact isDirectory_above h parent
      · exact isDirectory_iff.mpr (.inr (.inr ⟨file, hfile, h⟩))
  · intro h
    rw [isDirectory_iff] at h ⊢
    refine h.imp_right (Or.imp_right ?_)
    rintro ⟨file, hfile, h⟩
    exact ⟨file, (Keyed.mem_keys_insert _ _).mpr (.inr hfile), h⟩

theorem walk_put {names : List String} : names.foldlM (tree.put target text).follow here = .ok p ↔
    names.foldlM tree.follow here = .ok p := by
  induction names generalizing here with
  | nil => rfl
  | cons name names ih =>
    simp only [List.foldlM_cons, bind_eq_ok_iff, follow_eq_ok_iff, isDirectory_put parent, ih]

/-- Paths lead where they did. -/
theorem resolve_put : (tree.put target text).resolve path = .ok p ↔ tree.resolve path = .ok p := by
  rw [resolve_eq_ok_iff, resolve_eq_ok_iff, walk_put parent]
  rfl

theorem read_put_self (h : tree.resolve path = .ok target)
    (file : tree.isDirectory target = false) : (tree.put target text).read path = .ok text := by
  rw [read, (resolve_put parent).mpr h]
  show (if (tree.put target text).isDirectory target then _ else _) = _
  rw [isDirectory_put parent, file, put, Keyed.find?_insert_self]
  rfl

/-- What a path leads to elsewhere is read as before. -/
theorem read_put_of_ne (h : tree.resolve path = .ok p) (hne : p ≠ target) :
    (tree.put target text).read path = tree.read path := by
  have hfind : Keyed.find? p (tree.put target text).files = Keyed.find? p tree.files :=
    Keyed.find?_insert_of_ne hne _ _
  simp only [read, (resolve_put parent).mpr h, h, Bind.bind, Except.bind, isDirectory_put parent,
    hfind]

end Put

end QueryGrammar.FileTree
