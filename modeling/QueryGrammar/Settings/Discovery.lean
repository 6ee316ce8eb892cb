/-
QueryGrammar/Settings/Discovery.lean

Finding the settings.

A path that is given explicitly is the only place that counts.  Otherwise the settings are in the
first regular file among the working directory's own file and the user's file; without any of
them the defaults hold.  A file that was picked is final: whatever is wrong with it is reported,
and no other place is tried.
-/
import QueryGrammar.Settings.Text

namespace QueryGrammar.Settings

/-- The name of a settings file. -/
def fileName : String := "semql.toml"

/-- The places where settings are looked for, the most specific one first; `home` is the directory
of the user's settings. -/
def places (home : Option String) : List String :=
  fileName :: home.toList.map fun directory => directory ++ "/semql/" ++ fileName

/-- The settings in a file. -/
def load (tree : FileTree) (path : String) : Except Failure Settings :=
  match tree.read path with
  | .ok text => ofText text
  | .error e => .error (.settings (.unreadable path e))

/-- The settings at an explicit path, or at the first place that has a file, or the defaults. -/
def discover (tree : FileTree) (home explicit : Option String) : Except Failure Settings :=
  match explicit with
  | some path => load tree path
  | none =>
    match (places home).find? tree.hasFile with
    | some path => load tree path
    | none => .ok {}

end QueryGrammar.Settings
