/-
QueryGrammar/Settings/Text.lean

Reading settings from the text of a settings file.

The file is in TOML and may assign the three settings, each once at most, at its top level.
Whatever else the format knows (tables, arrays, texts, dates, fractions) is no setting, so every
line is blank, a comment, or one assignment of an integer or a truth value:

    line     blanks [key blanks = blanks value blanks] [comment]
    key      letters, digits, _ and -, or a quoted name with or without escapes
    value    true, false, or an integer: decimal with an optional sign and no leading zero, or
             hexadecimal, octal or binary after 0x, 0o, 0b; underscores between digits

Integers are signed 64-bit numbers in the format, and a negative one is no setting.  Lines end with
a line feed, which a carriage return may precede.  One byte order mark may open the text.
-/
import QueryGrammar.Number.Decimal
import QueryGrammar.Settings

namespace QueryGrammar.Settings

/-- The value of an assignment. -/
inductive Value where
  | number (value : Nat)
  | truth (value : Bool)
  deriving DecidableEq

/-! ### Characters -/

/-- A blank within a line. -/
def isBlank (c : Char) : Bool := c = ' ' || c = '\t'

/-- A character of a name that needs no quotation marks. -/
def isBare (c : Char) : Bool :=
  ('a' ≤ c && c ≤ 'z') || ('A' ≤ c && c ≤ 'Z') || ('0' ≤ c && c ≤ '9') || c = '_' || c = '-'

/-- A character that may stand in comments and quoted names: no control character but the tab. -/
def isPlain (c : Char) : Bool := c = '\t' || (32 ≤ c.toNat && c.toNat ≠ 127)

/-- A line from its first character that is no blank. -/
def skipBlanks (line : List Char) : List Char := line.dropWhile isBlank

/-! ### Integers -/

/-- The value of a digit in a base up to sixteen. -/
def digitOfBase? (base : Nat) (c : Char) : Option Nat :=
  match hexDigit? c with
  | some d => if d < base then some d else none
  | none => none

/-- The digits that follow a digit, with single underscores between them. -/
def moreDigits (base : Nat) : List Char → Option (List Nat × List Char)
  | [] => some ([], [])
  | ['_'] => none
  | '_' :: c :: rest =>
    match digitOfBase? base c with
    | some d => (moreDigits base rest).map fun (ds, rest) => (d :: ds, rest)
    | none => none
  | c :: rest =>
    match digitOfBase? base c with
    | some d => (moreDigits base rest).map fun (ds, rest) => (d :: ds, rest)
    | none => some ([], c :: rest)

/-- A numeral of a base: at least one digit. -/
def numeral (base : Nat) : List Char → Option (Nat × List Char)
  | [] => none
  | c :: rest =>
    match digitOfBase? base c with
    | some d => (moreDigits base rest).map fun (ds, rest) => (ofDigits base (d :: ds), rest)
    | none => none

/-- A decimal numeral without a leading zero. -/
def decimal : List Char → Option (Nat × List Char)
  | '0' :: rest => some (0, rest)
  | line => numeral 10 line

/-- An integer that is not negative. -/
def integer (line : List Char) : Option (Nat × List Char) := do
  let (value, rest) ←
    match line with
    | '0' :: 'x' :: rest => numeral 16 rest
    | '0' :: 'o' :: rest => numeral 8 rest
    | '0' :: 'b' :: rest => numeral 2 rest
    | '+' :: rest => decimal rest
    | '-' :: rest => (decimal rest).filter fun (value, _) => value = 0
    | line => decimal line
  if value < signedBound then some (value, rest) else none

/-- A value. -/
def value : List Char → Option (Value × List Char)
  | 't' :: 'r' :: 'u' :: 'e' :: rest => some (.truth true, rest)
  | 'f' :: 'a' :: 'l' :: 's' :: 'e' :: rest => some (.truth false, rest)
  | line => (integer line).map fun (n, rest) => (.number n, rest)

/-! ### Keys -/

/-- The character with the code that some hexadecimal digits write down, if there is one. -/
def charOfDigits? (digits : List Char) : Option Char := do
  let code := ofDigits 16 (← digits.mapM hexDigit?)
  if code.isValidChar then some (Char.ofNat code) else none

/-- The rest of a name in double quotation marks, in which a backslash begins an escape. -/
def escapedName : List Char → Option (List Char × List Char)
  | [] => none
  | '"' :: rest => some ([], rest)
  | '\\' :: 'u' :: a :: b :: c :: d :: rest => do
    let x ← charOfDigits? [a, b, c, d]
    let (xs, rest) ← escapedName rest
    pure (x :: xs, rest)
  | '\\' :: 'U' :: a :: b :: c :: d :: e :: f :: g :: h :: rest => do
    let x ← charOfDigits? [a, b, c, d, e, f, g, h]
    let (xs, rest) ← escapedName rest
    pure (x :: xs, rest)
  | '\\' :: c :: rest => do
    let x ←
      match c with
      | 'b' => some '\x08'
      | 't' => some '\t'
      | 'n' => some '\n'
      | 'f' => some '\x0c'
      | 'r' => some '\r'
      | '"' => some '"'
      | '\\' => some '\\'
      | _ => none
    let (xs, rest) ← escapedName rest
    pure (x :: xs, rest)
  | ['\\'] => none
  | c :: rest =>
    if isPlain c then (escapedName rest).map fun (xs, rest) => (c :: xs, rest) else none

/-- The rest of a name in single quotation marks, which is taken as it is. -/
def literalName (line : List Char) : Option (List Char × List Char) :=
  let name := line.takeWhile (· ≠ '\x27')
  match line.dropWhile (· ≠ '\x27') with
  | _ :: rest => if name.all isPlain then some (name, rest) else none
  | [] => none

/-- A key. -/
def key : List Char → Option (String × List Char)
  | '"' :: rest => (escapedName rest).map fun (name, rest) => (String.ofList name, rest)
  | '\x27' :: rest => (literalName rest).map fun (name, rest) => (String.ofList name, rest)
  | line =>
    let name := line.takeWhile isBare
    if name.isEmpty then none else some (String.ofList name, line.dropWhile isBare)

/-! ### Lines -/

/-- Whether nothing but a comment is left of a line. -/
def isOver : List Char → Bool
  | [] => true
  | '#' :: comment => comment.all isPlain
  | _ => false

/-- The assignment in a line, if there is one; nothing at all when the line is malformed. -/
def assignment? (line : List Char) : Option (Option (String × Value)) :=
  let line := skipBlanks line
  if isOver line then some none
  else do
    let (name, rest) ← key line
    let rest ← match skipBlanks rest with
      | '=' :: rest => some rest
      | _ => none
    let (v, rest) ← value (skipBlanks rest)
    if isOver (skipBlanks rest) then some (some (name, v)) else none

/-- The lines of a text without their ends. -/
def lines (text : List Char) : List (List Char) :=
  let dropReturn := fun (line : List Char) =>
    if line.getLast? = some '\r' then line.dropLast else line
  let parts := text.splitOn '\n'
  parts.dropLast.map dropReturn ++ parts.getLast?.toList

/-! ### Settings -/

/-- Assign a setting; nothing when there is no such setting of that kind. -/
def assign? (settings : Settings) (assignment : String × Value) : Option Settings :=
  match assignment with
  | ("max_select_columns", .number n) => some { settings with maxSelectColumns := n }
  | ("max_where_conditions", .number n) => some { settings with maxWhereConditions := n }
  | ("strict", .truth b) => some { settings with strict := b }
  | _ => none

/-- The settings that a text assigns, all others being at their defaults; nothing when the text is
malformed or assigns something else. -/
def parse? (text : String) : Option Settings := do
  let chars := match text.toList with
    | '\ufeff' :: rest => rest
    | chars => chars
  let assignments := (← (lines chars).mapM assignment?).filterMap id
  if (assignments.map Prod.fst).Nodup then assignments.foldlM assign? {} else none

/-- The settings in a text, within the bounds of the grammar. -/
def ofText (text : String) : Except Failure Settings :=
  match parse? text with
  | some settings => settings.checked
  | none => .error .toml

end QueryGrammar.Settings
