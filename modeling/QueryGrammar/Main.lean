/-
QueryGrammar/Main.lean

The program: it collects the arguments, the surroundings and the files that a command may touch,
runs the command on them, and carries out what the run asks for.
-/
import QueryGrammar.CommandLine.Run

namespace QueryGrammar.Program

/-- Read what a path leads to. -/
def readPath (path : String) : IO (Except FileError String) := do
  try
    return .ok (← IO.FS.readFile path)
  catch e =>
    return .error <| match e with
      | .noFileOrDirectory _ _ _ => .notFound
      | .inappropriateType _ _ _ => .isDirectory
      | e => .other (toString e)

/-- Add what a path and the directories before it lead to, up to the first name that leads to no
directory. -/
def observe (tree : FileTree) (path : String) : IO FileTree := do
  let mut tree := tree
  let mut text := ""
  for name in path.splitOn "/" do
    text := text ++ name
    unless text.isEmpty do
      match ← readPath text with
      | .error .isDirectory => tree := tree.placeDirectory text
      | .error .notFound => return tree
      | content => return tree.place text content
    text := text ++ "/"
  return tree

/-- The surroundings of the program. -/
def observeSurroundings : IO Surroundings := do
  let terminal ← (← IO.getStdout).isTty
  return {
    config := ← IO.getEnv "SEMQL_CONFIG"
    home := Surroundings.settingsHome (← IO.getEnv "XDG_CONFIG_HOME") (← IO.getEnv "HOME")
    colors := Surroundings.wantsColors (← IO.getEnv "CLICOLOR_FORCE") (← IO.getEnv "NO_COLOR")
      (← IO.getEnv "CLICOLOR") terminal }

/-- Run the command that the arguments ask for, and carry out what the run asks for. -/
def runArguments (arguments : List String) : IO UInt32 := do
  let surroundings ← observeSurroundings
  match Command.parse surroundings arguments with
  | .error e =>
    IO.eprintln ("error: " ++ e.message)
    return 2
  | .ok command =>
    let workingDirectory := ((← IO.currentDir).toString.splitOn "/").filter (· ≠ "")
    let tree ← (command.inputs surroundings ++ command.output?.toList).foldlM observe
      { workingDirectory }
    let run := command.run surroundings tree
    if run.problem.isNone then
      if let some path := command.output? then
        if let .ok content := run.tree.read path then IO.FS.writeFile path content
    IO.print run.output
    IO.eprint (run.report surroundings.colors)
    return run.status.toUInt32

end QueryGrammar.Program

/-- The program; its result is the status with which it ends. -/
def main (arguments : List String) : IO UInt32 := QueryGrammar.Program.runArguments arguments
