/-
QueryGrammar/CommandLine/Explanation.lean

The lines that explain a record and its encoding, and those of the grammar reference.

The keys shown with an encoding are the key columns of the tables that its tokens name, in the
order of their numbers.
-/
import QueryGrammar.Dataset.Record
import QueryGrammar.Json.Printer
import QueryGrammar.StyledText

namespace QueryGrammar.Explanation

/-! ### Records and encodings -/

/-- The line of a named field. -/
def fieldLine (colors : Bool) (name : String) (color : Color) (text : String) : String :=
  Style.faint.paint colors name ++ " " ++ (Style.colored color).paint colors text

/-- The lines about a record; an empty query text has none. -/
def recordLines (colors : Bool) (record : Record) : List String :=
  [(Style.strong .cyan).paint colors "SemQL Derivation", "",
      fieldLine colors "Database:" .white record.database,
      fieldLine colors "Question:" .yellow record.question] ++
    (if record.queryText.isEmpty then []
      else [fieldLine colors "Query:" .white record.queryText]) ++ [""]

/-- The line about a token. -/
def tokenLine (colors : Bool) (token : Token) : String :=
  "  " ++ (Style.colored .cyan).paint colors (padRight 8 token.symbol.label) ++ " " ++
    padLeft 4 (toString token.choice) ++ "  " ++
    Style.faint.paint colors token.symbol.description

/-- The line about a literal and its place. -/
def valueLine (colors : Bool) (literal : Literal × Nat) : String :=
  "  V(" ++ toString literal.2 ++ ") = " ++
    (Style.colored .yellow).paint colors literal.1.toJson.compact

/-- The tables that the tokens of an encoding name. -/
def namedTables (encoding : Encoding) : List Nat :=
  (encoding.tokens.filter (·.symbol = .t)).map (·.choice)

/-- The key columns of the tables that an encoding names, each with the column it links to. -/
def keys (schema : Schema) (encoding : Encoding) : List (Nat × Nat) :=
  schema.keyLinks (schema.columnsOf (namedTables encoding))

/-- The line about a key column; one that links to itself is a primary key. -/
def keyLine (colors : Bool) (schema : Schema) (link : Nat × Nat) : String :=
  let name := (Style.colored .white).paint colors (schema.qualifiedName link.1)
  if link.1 = link.2 then "  " ++ name ++ " " ++ Style.faint.paint colors "(primary)"
  else
    "  " ++ name ++ " " ++ Style.faint.paint colors "→" ++ " " ++
      (Style.colored .cyan).paint colors (schema.qualifiedName link.2)

/-- A section of lines under a heading, after a blank line; nothing without lines. -/
def optionalSection (colors : Bool) (heading : String) (lines : List String) : List String :=
  if lines.isEmpty then [] else "" :: (Style.strong .green).paint colors heading :: lines

/-- The lines about an encoding. -/
def encodingLines (colors : Bool) (schema : Schema) (encoding : Encoding) : List String :=
  let heading := (Style.strong .green).paint colors
  heading "Tokens:" :: encoding.tokens.map (tokenLine colors) ++
    ["", heading "Rule label:", "  " ++ (Style.colored .white).paint colors encoding.label] ++
    optionalSection colors "Values:" (encoding.values.zipIdx.map (valueLine colors)) ++
    optionalSection colors "Keys:" ((keys schema encoding).map (keyLine colors schema))

/-! ### The grammar -/

/-- The line about a symbol. -/
def symbolLine (colors : Bool) (symbol : Symbol) : String :=
  let choices :=
    match symbol.productions? with
    | some n => "0.." ++ toString n
    | none => "index"
  (Style.strong .cyan).paint colors (padRight 8 symbol.label) ++ " " ++
    (Style.colored .yellow).paint colors (padRight 12 choices) ++ " " ++
    (Style.colored .white).paint colors symbol.description

/-- The reference of the grammar. -/
def grammarLines (colors : Bool) : List String :=
  let heading := (Style.strong .white).paint colors
  [(Style.strong .cyan).paint colors "SemQL Grammar Reference", "",
      heading (padRight 8 "Symbol") ++ " " ++ heading (padRight 12 "Choices") ++ " " ++
        heading "Meaning",
      Style.faint.paint colors (String.ofList (List.replicate 72 '─'))] ++
    Symbol.all.map (symbolLine colors)

end QueryGrammar.Explanation
