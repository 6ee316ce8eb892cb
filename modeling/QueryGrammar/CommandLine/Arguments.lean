/-
QueryGrammar/CommandLine/Arguments.lean

Commands and the arguments that ask for them.

    convert --data-path FILE --table-path FILE --output FILE [--config FILE]
    explain --data-path FILE --table-path FILE [--index N] [--config FILE]
    grammar
    --version

A long option takes its value from the next argument or after an equals sign; a short one also
takes what stands directly behind its letter.  The surroundings may name a settings file, which
the option outweighs.  The flag `-v` or `--verbose` may stand anywhere and changes no output.
-/
import QueryGrammar.Number.Decimal

namespace QueryGrammar

/-! ### Commands -/

/-- What the user asks for. -/
inductive Command where
  | convert (dataPath tablePath outputPath : String) (config : Option String)
  | explain (dataPath tablePath : String) (index : Nat) (config : Option String)
  | grammar
  | version
  deriving DecidableEq

/-- What the surroundings contribute: the settings file that they name, the directory of the
user's settings, and whether colours are wanted. -/
structure Surroundings where
  config : Option String := none
  home : Option String := none
  colors : Bool := false

/-- Why arguments are not a command. -/
inductive UsageError where
  | noCommand
  | unknownCommand (name : String)
  | unexpectedArgument (argument : String)
  | missingValue (option : String)
  | repeatedOption (option : String)
  | invalidValue (option value : String)
  | missingOption (option : String)
  deriving DecidableEq

/-- The text of a usage error. -/
def UsageError.message : UsageError → String
  | .noCommand => "a command is required: convert, explain or grammar"
  | .unknownCommand name => "unrecognized command '" ++ name ++ "'"
  | .unexpectedArgument argument => "unexpected argument '" ++ argument ++ "'"
  | .missingValue option => "a value is required for '" ++ option ++ "'"
  | .repeatedOption option => "the argument '" ++ option ++ "' cannot be used multiple times"
  | .invalidValue option value => "invalid value '" ++ value ++ "' for '" ++ option ++ "'"
  | .missingOption option => "the required argument '" ++ option ++ "' was not provided"

/-! ### Options -/

/-- An option that takes a value: its long name and its letter. -/
structure CommandOption where
  name : String
  letter : Option Char := none

namespace CommandOption

/-- The file with the records. -/
def dataPath : CommandOption := { name := "--data-path" }

/-- The file with the catalog. -/
def tablePath : CommandOption := { name := "--table-path" }

/-- The file to write. -/
def output : CommandOption := { name := "--output", letter := some 'o' }

/-- The place of a record. -/
def index : CommandOption := { name := "--index", letter := some 'i' }

/-- The file with the settings. -/
def config : CommandOption := { name := "--config", letter := some 'c' }

/-- The options of a command. -/
def ofCommand : String → Option (List CommandOption)
  | "convert" => some [dataPath, tablePath, output, config]
  | "explain" => some [dataPath, tablePath, index, config]
  | "grammar" => some []
  | _ => none

/-- The rest of a text after its beginning. -/
def restAfter? : List Char → List Char → Option (List Char)
  | [], rest => some rest
  | _ :: _, [] => none
  | x :: xs, c :: rest => if x = c then restAfter? xs rest else none

/-- What an argument says that begins with the given spelling of an option: nothing about another
option, or the value behind the spelling if there is one; `joined` tells whether a value may
follow without an equals sign. -/
def valueAfter? (spelling : String) (joined : Bool) (argument : String) :
    Option (Option String) :=
  match restAfter? spelling.toList argument.toList with
  | none => none
  | some [] => some none
  | some ('=' :: value) => some (some (String.ofList value))
  | some value => if joined then some (some (String.ofList value)) else none

/-- Whether an argument names this option, and the value that it holds. -/
def match? (option : CommandOption) (argument : String) : Option (CommandOption × Option String) :=
  let long := valueAfter? option.name false argument
  let short := option.letter.bind fun letter => valueAfter? ("-" ++ letter.toString) true argument
  (long.or short).map fun value => (option, value)

end CommandOption

/-- The values of options, by their long names. -/
abbrev OptionValues := List (String × String)

namespace OptionValues

/-- Add the value of an option, which may be given only once and not be empty. -/
def add (values : OptionValues) (option : CommandOption) (value : String) :
    Except UsageError OptionValues :=
  if (values.lookup option.name).isSome then .error (.repeatedOption option.name)
  else if value = "" then .error (.missingValue option.name)
  else .ok (values ++ [(option.name, value)])

/-- The value of an option that may be missing. -/
def get? (values : OptionValues) (option : CommandOption) : Option String :=
  values.lookup option.name

/-- The value of an option that is required. -/
def require (values : OptionValues) (option : CommandOption) : Except UsageError String :=
  match values.get? option with
  | some value => .ok value
  | none => .error (.missingOption option.name)

end OptionValues

/-! ### Arguments -/

namespace Command

/-- Whether an argument is the flag that asks for more messages. -/
def isVerbosity (argument : String) : Bool := argument = "--verbose" || argument = "-v"

/-- An argument without the verbosity flag that may stand before the letter of an option. -/
def dropVerbosity (argument : String) : String :=
  match argument.toList with
  | '-' :: 'v' :: c :: rest => if c = '=' then argument else String.ofList ('-' :: c :: rest)
  | _ => argument

/-- Whether an argument may be the value of the option before it. -/
def isValue (argument : String) : Bool := argument = "-" || !argument.startsWith "-"

/-- Read the arguments behind the name of a command. -/
def readOptions (known : List CommandOption) (values : OptionValues) :
    List String → Except UsageError OptionValues
  | [] => .ok values
  | ["--"] => .ok values
  | argument :: rest =>
    if isVerbosity argument then readOptions known values rest
    else
      match known.findSome? (·.match? (dropVerbosity argument)), rest with
      | none, _ => .error (.unexpectedArgument argument)
      | some (option, some value), rest => do
        let values ← values.add option value
        readOptions known values rest
      | some (option, none), [] => .error (.missingValue option.name)
      | some (option, none), value :: rest =>
        if isValue value then do
          let values ← values.add option value
          readOptions known values rest
        else .error (.missingValue option.name)

/-- The place of a record: a number below `2⁶⁴`, with an optional plus sign. -/
def readIndex (text : String) : Except UsageError Nat :=
  let digits := match text.toList with
    | '+' :: rest => rest
    | digits => digits
  match digits.mapM digit? with
  | some (d :: ds) =>
    let value := ofDigits 10 (d :: ds)
    if value < wordBound then .ok value
    else .error (.invalidValue CommandOption.index.name text)
  | _ => .error (.invalidValue CommandOption.index.name text)

/-- The settings file that an option or the surroundings name. -/
def settingsPath (surroundings : Surroundings) (values : OptionValues) :
    Except UsageError (Option String) :=
  match (values.get? .config).or surroundings.config with
  | some "" => .error (.missingValue CommandOption.config.name)
  | path => .ok path

/-- The command of the given name with the values of its options. -/
def ofValues (surroundings : Surroundings) (name : String) (values : OptionValues) :
    Except UsageError Command :=
  match name with
  | "convert" => do
    let config ← settingsPath surroundings values
    let dataPath ← values.require .dataPath
    let tablePath ← values.require .tablePath
    let outputPath ← values.require .output
    pure (.convert dataPath tablePath outputPath config)
  | "explain" => do
    let config ← settingsPath surroundings values
    let dataPath ← values.require .dataPath
    let tablePath ← values.require .tablePath
    let index ← match values.get? .index with
      | some text => readIndex text
      | none => pure 0
    pure (.explain dataPath tablePath index config)
  | _ => .ok .grammar

/-- Whether an argument in the place of a command asks for the version; what follows it does not
matter. -/
def asksForVersion (argument : String) : Bool :=
  argument = "--version" || (dropVerbosity argument).startsWith "-V"

/-- The command that some arguments ask for. -/
def parse (surroundings : Surroundings) (arguments : List String) : Except UsageError Command :=
  match arguments.dropWhile isVerbosity with
  | [] => .error .noCommand
  | name :: rest =>
    if asksForVersion name then .ok .version
    else
      match CommandOption.ofCommand name with
      | none => .error (.unknownCommand name)
      | some known => do
        let values ← readOptions known [] rest
        ofValues surroundings name values

end Command

end QueryGrammar
