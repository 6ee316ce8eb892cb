/-
QueryGrammar/Json/Lexeme.lean

The lexemes of a JSON text.

The text is read character by character by a small machine, so that scanning is structural on the
text.  The lexemes of a text end with `malformed` where the text can no longer be JSON; what
follows is not looked at.

Two defects do not stop the scan, because they matter only where the value is wanted: a number
beyond the largest one, and a quoted text with an escape that denotes no character (a surrogate
without its partner).  Such lexemes carry no value.
-/
import QueryGrammar.Number.Decimal

namespace QueryGrammar.Json

/-- A lexeme of a JSON text. -/
inductive Lexeme where
  | openArray
  | closeArray
  | openObject
  | closeObject
  | comma
  | colon
  | null
  | bool (value : Bool)
  | number (value : Option Number)
  | string (value : Option String)
  | malformed
  deriving DecidableEq

/-! ### Numbers -/

/-- How far a numeral has been read. -/
inductive NumberStage where
  | minus
  | zero
  | whole
  | point
  | fraction
  | mark
  | sign
  | exponent
  deriving DecidableEq

namespace NumberStage

/-- Whether a numeral may end here. -/
def complete : NumberStage → Bool
  | .zero | .whole | .fraction | .exponent => true
  | .minus | .point | .mark | .sign => false

/-- Begin the fraction or the exponent after the digits before it. -/
def afterDigits? (n : Numeral) (c : Char) : Option (NumberStage × Numeral) :=
  if c = '.' ∧ n.fraction.isNone then some (.point, { n with fraction := some [] })
  else if c = 'e' ∨ c = 'E' then some (.mark, { n with exponent := some (false, []) })
  else none

/-- Read one more character of a numeral, if it belongs to it. -/
def next? (stage : NumberStage) (n : Numeral) (c : Char) : Option (NumberStage × Numeral) :=
  match stage, digit? c with
  | .minus, some d => some (if d = 0 then .zero else .whole, { n with whole := [d] })
  | .whole, some d => some (.whole, { n with whole := n.whole ++ [d] })
  | .point, some d | .fraction, some d =>
    some (.fraction, { n with fraction := some (n.fraction.getD [] ++ [d]) })
  | .mark, some d | .sign, some d | .exponent, some d =>
    let (below, digits) := n.exponent.getD (false, [])
    some (.exponent, { n with exponent := some (below, digits ++ [d]) })
  | .mark, none =>
    if c = '+' then some (.sign, n)
    else if c = '-' then some (.sign, { n with exponent := some (true, []) })
    else none
  | .zero, none | .whole, none | .fraction, none => afterDigits? n c
  | _, _ => none

/-- Whether a character that does not belong to the numeral may not follow it either: a leading
zero takes no further digit, and an unfinished numeral nothing at all. -/
def rejects (stage : NumberStage) (c : Char) : Bool :=
  !stage.complete || (stage = .zero && (digit? c).isSome)

end NumberStage

/-! ### Quoted texts -/

/-- A quoted text as far as it has been read, its last character first; a high surrogate may be
waiting for its partner. -/
structure Quoted where
  chars : List Char := []
  waiting : Option Nat := none
  valid : Bool := true

namespace Quoted

/-- Add a character. -/
def push (q : Quoted) (c : Char) : Quoted :=
  { chars := c :: q.chars, valid := q.valid && q.waiting.isNone }

/-- Add a 16-bit unit written as an escape. -/
def pushUnit (q : Quoted) (unit : Nat) : Quoted :=
  match q.waiting with
  | some high =>
    if 0xDC00 ≤ unit ∧ unit < 0xE000 then
      { q with
        chars := Char.ofNat (0x10000 + (high - 0xD800) * 0x400 + (unit - 0xDC00)) :: q.chars
        waiting := none }
    else { q with waiting := none, valid := false }
  | none =>
    if 0xD800 ≤ unit ∧ unit < 0xDC00 then { q with waiting := some unit }
    else if 0xDC00 ≤ unit ∧ unit < 0xE000 then { q with valid := false }
    else { q with chars := Char.ofNat unit :: q.chars }

/-- The text, if every escape denotes a character. -/
def text? (q : Quoted) : Option String :=
  if q.valid && q.waiting.isNone then some (String.ofList q.chars.reverse) else none

end Quoted

/-- The character that a one-letter escape denotes. -/
def escape? : Char → Option Char
  | '"' => some '"'
  | '\\' => some '\\'
  | '/' => some '/'
  | 'b' => some '\x08'
  | 'f' => some '\x0c'
  | 'n' => some '\n'
  | 'r' => some '\r'
  | 't' => some '\t'
  | _ => none

/-! ### The machine -/

/-- What the machine is in the middle of. -/
inductive Scan where
  | gap
  | word (lexeme : Lexeme) (rest : List Char)
  | number (stage : NumberStage) (numeral : Numeral)
  | quoted (q : Quoted)
  | escape (q : Quoted)
  | unit (q : Quoted) (missing value : Nat)

/-- What a character outside of a lexeme begins. -/
inductive Start where
  | blank
  | whole (lexeme : Lexeme)
  | scan (scan : Scan)
  | nothing

/-- Whether a character may stand between lexemes. -/
def isBlank (c : Char) : Bool := c = ' ' || c = '\t' || c = '\n' || c = '\r'

/-- What a character between lexemes begins. -/
def start (c : Char) : Start :=
  match c with
  | '[' => .whole .openArray
  | ']' => .whole .closeArray
  | '\x7b' => .whole .openObject
  | '\x7d' => .whole .closeObject
  | ',' => .whole .comma
  | ':' => .whole .colon
  | '"' => .scan (.quoted {})
  | 'n' => .scan (.word .null ['u', 'l', 'l'])
  | 't' => .scan (.word (.bool true) ['r', 'u', 'e'])
  | 'f' => .scan (.word (.bool false) ['a', 'l', 's', 'e'])
  | '-' => .scan (.number .minus { negative := true })
  | c =>
    if isBlank c then .blank
    else match NumberStage.next? .minus {} c with
      | some (stage, n) => .scan (.number stage n)
      | none => .nothing

/-- The lexemes of the rest of a text. -/
def scanFrom : Scan → List Char → List Lexeme
  | .gap, [] => []
  | .number stage n, [] => if stage.complete then [.number n.toNumber?] else [.malformed]
  | _, [] => [.malformed]
  | .gap, c :: rest =>
    match start c with
    | .blank => scanFrom .gap rest
    | .whole lexeme => lexeme :: scanFrom .gap rest
    | .scan scan => scanFrom scan rest
    | .nothing => [.malformed]
  | .word lexeme letters, c :: rest =>
    match letters with
    | [] => [.malformed]
    | [x] => if c = x then lexeme :: scanFrom .gap rest else [.malformed]
    | x :: more => if c = x then scanFrom (.word lexeme more) rest else [.malformed]
  | .number stage n, c :: rest =>
    match stage.next? n c with
    | some (stage, n) => scanFrom (.number stage n) rest
    | none =>
      if stage.rejects c then [.malformed]
      else .number n.toNumber? ::
        match start c with
        | .blank => scanFrom .gap rest
        | .whole lexeme => lexeme :: scanFrom .gap rest
        | .scan scan => scanFrom scan rest
        | .nothing => [.malformed]
  | .quoted q, c :: rest =>
    if c = '"' then .string q.text? :: scanFrom .gap rest
    else if c = '\\' then scanFrom (.escape q) rest
    else if c.toNat < 32 then [.malformed]
    else scanFrom (.quoted (q.push c)) rest
  | .escape q, c :: rest =>
    if c = 'u' then scanFrom (.unit q 4 0) rest
    else match escape? c with
      | some c => scanFrom (.quoted (q.push c)) rest
      | none => [.malformed]
  | .unit q missing value, c :: rest =>
    match hexDigit? c with
    | none => [.malformed]
    | some d =>
      if missing ≤ 1 then scanFrom (.quoted (q.pushUnit (value * 16 + d))) rest
      else scanFrom (.unit q (missing - 1) (value * 16 + d)) rest

/-- The lexemes of a text. -/
def lexemes (text : String) : List Lexeme := scanFrom .gap text.toList

end QueryGrammar.Json
