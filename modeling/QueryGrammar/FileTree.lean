/-
QueryGrammar/FileTree.lean

Files and directories as a value.

A path is the list of names from the root.  The text of a path is walked name by name, from the
root if it begins with a slash and from the working directory otherwise; every name but the last
has to lead to a directory, and the last one may lead to nothing.  Reading and writing fail in the
way and with the wording of the operating system.  A file that can be opened for writing is written
as a whole: a disk that gives out in the middle of a text is not described here.
-/
import QueryGrammar.Keyed

namespace QueryGrammar

/-- Why a file could not be read or written. -/
inductive FileError where
  | notFound
  | notDirectory
  | isDirectory
  | nameTooLong
  | nulInName
  /-- Some other reason, in the words of the system. -/
  | other (reason : String)
  deriving DecidableEq

/-- The wording of the operating system. -/
def FileError.message : FileError → String
  | .notFound => "No such file or directory (os error 2)"
  | .notDirectory => "Not a directory (os error 20)"
  | .isDirectory => "Is a directory (os error 21)"
  | .nameTooLong => "File name too long (os error 36)"
  | .nulInName => "file name contained an unexpected NUL byte"
  | .other reason => reason

/-- The names from the root to a file or directory. -/
abbrev Path := List String

/-- The files of a machine with their contents, and the directories that exist besides those
that files lie in. -/
structure FileTree where
  files : List (Path × Except FileError String) := []
  directories : List Path := []
  workingDirectory : Path := []

namespace FileTree

/-! ### Walking -/

/-- One name further from a directory. -/
def step (here : Path) (name : String) : Path :=
  if name = "" ∨ name = "." then here
  else if name = ".." then here.dropLast
  else here ++ [name]

/-- Where a walk over some names comes by, from its start to its end. -/
def trail (here : Path) : List String → List Path
  | [] => [here]
  | name :: rest => here :: trail (step here name) rest

/-- Where the walk over the text of a path starts. -/
def start (tree : FileTree) (path : String) : Path :=
  if path.startsWith "/" then [] else tree.workingDirectory

/-! ### Looking up -/

/-- Whether a path leads to a directory. -/
def isDirectory (tree : FileTree) (path : Path) : Bool :=
  path.isPrefixOf tree.workingDirectory
    || tree.directories.any path.isPrefixOf
    || tree.files.any fun file => path.isPrefixOf file.1.dropLast

/-- Whether a path leads to a file. -/
def isFile (tree : FileTree) (path : Path) : Bool := (Keyed.find? path tree.files).isSome

/-- Follow one name of the text of a path. -/
def follow (tree : FileTree) (here : Path) (name : String) : Except FileError Path :=
  if !tree.isDirectory here then
    .error (if tree.isFile here then .notDirectory else .notFound)
  else if 255 < name.utf8ByteSize then .error .nameTooLong
  else .ok (step here name)

/-- Where some names lead that the text of a path consists of. -/
def resolveNames (tree : FileTree) (path : String) (names : List String) : Except FileError Path :=
  if path.toList.contains '\x00' then .error .nulInName
  else if path = "" then .error .notFound
  else if 4096 ≤ path.utf8ByteSize then .error .nameTooLong
  else names.foldlM tree.follow (tree.start path)

/-- Where the text of a path leads. -/
def resolve (tree : FileTree) (path : String) : Except FileError Path :=
  tree.resolveNames path (path.splitOn "/")

/-! ### Reading and writing -/

/-- The content of a file. -/
def read (tree : FileTree) (path : String) : Except FileError String := do
  let path ← tree.resolve path
  if tree.isDirectory path then throw .isDirectory
  match Keyed.find? path tree.files with
  | some content => content
  | none => throw .notFound

/-- Whether the text of a path leads to a file. -/
def hasFile (tree : FileTree) (path : String) : Bool :=
  match tree.resolve path with
  | .ok path => tree.isFile path && !tree.isDirectory path
  | .error _ => false

/-- Replace or add a file; the directory that it lies in has to exist.  A slash at the end of the
path asks for a directory, which cannot be written whatever its last name is. -/
def write (tree : FileTree) (path content : String) : Except FileError FileTree := do
  if path.endsWith "/" then
    let _ ← tree.resolveNames path (((path.splitOn "/").filter (· ≠ "")).dropLast ++ ["."])
    throw .isDirectory
  let target ← tree.resolve path
  if tree.isDirectory target then throw .isDirectory
  pure { tree with files := Keyed.insert target (.ok content) tree.files }

/-- Add a directory together with all those on the way to it. -/
def placeDirectory (tree : FileTree) (path : String) : FileTree :=
  { tree with directories := trail (tree.start path) (path.splitOn "/") ++ tree.directories }

/-- Add a file together with all the directories on the way to it. -/
def place (tree : FileTree) (path : String) (content : Except FileError String) : FileTree :=
  let names := path.splitOn "/"
  let target := names.foldl step (tree.start path)
  { tree with
    files := Keyed.insert target content tree.files
    directories := trail (tree.start path) names.dropLast ++ tree.directories }

end FileTree

end QueryGrammar
