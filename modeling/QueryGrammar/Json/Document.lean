/-
QueryGrammar/Json/Document.lean

JSON texts as trees, malformed ones included.

Who reads a text front to back and stops at the first error may find an error of content before
the place where the text stops being JSON.  So a text is read into a `Document` that holds
everything up to that place, in the order of the text: containers that the text does not close
are marked, and a value that is missing is `broken`.

The reader is a machine with one step per lexeme.  Its state holds the containers that are still
open, the innermost first, each with what it holds so far, the latest first.

`Document.toJson?` is the strict view: it gives a value for well-formed texts of limited depth
only.
-/
import QueryGrammar.Json.Basic
import QueryGrammar.Json.Lexeme
import QueryGrammar.ReadError

namespace QueryGrammar.Json

/-- A JSON text as far as it goes. -/
inductive Document where
  | null
  | bool (value : Bool)
  | number (value : Option Number)
  | string (value : Option String)
  | array (items : List Document) (closed : Bool)
  | object (members : List (Option String × Document)) (closed : Bool)
  | broken

namespace Document

instance : Inhabited Document := ⟨.broken⟩

/-! ### The machine -/

/-- A container that waits for the value that is being read. -/
inductive Frame where
  | array (items : List Document)
  | member (members : List (Option String × Document)) (key : Option String)

/-- A container between two of its values. -/
inductive Open where
  | array (items : List Document)
  | object (members : List (Option String × Document))

/-- The tree of a container, closed by the text or not. -/
def Open.toDocument (closed : Bool) : Open → Document
  | .array items => .array items.reverse closed
  | .object members => .object members.reverse closed

/-- What the text has to go on with. -/
inductive State where
  /-- A value. -/
  | value (frames : List Frame)
  /-- The first element of an array, or its end. -/
  | firstItem (frames : List Frame)
  /-- The first key of an object, or its end. -/
  | firstKey (frames : List Frame)
  | key (members : List (Option String × Document)) (frames : List Frame)
  | colon (members : List (Option String × Document)) (key : Option String) (frames : List Frame)
  /-- A comma or the end of the container. -/
  | separator (container : Open) (frames : List Frame)
  /-- Nothing but blanks. -/
  | finished (root : Document)

/-- A value is complete: hand it to the innermost container. -/
def deliver (d : Document) : List Frame → State
  | [] => .finished d
  | .array items :: frames => .separator (.array (d :: items)) frames
  | .member members key :: frames => .separator (.object ((key, d) :: members)) frames

/-- Begin a value. -/
def beginValue? (frames : List Frame) : Lexeme → Option State
  | .null => some (deliver .null frames)
  | .bool b => some (deliver (.bool b) frames)
  | .number n => some (deliver (.number n) frames)
  | .string s => some (deliver (.string s) frames)
  | .openArray => some (.firstItem frames)
  | .openObject => some (.firstKey frames)
  | _ => none

/-- One step of the machine; nothing when the text stops being JSON here. -/
def State.step? (state : State) (lexeme : Lexeme) : Option State :=
  match state, lexeme with
  | .value frames, lexeme => beginValue? frames lexeme
  | .firstItem frames, .closeArray => some (deliver (.array [] true) frames)
  | .firstItem frames, lexeme => beginValue? (.array [] :: frames) lexeme
  | .firstKey frames, .closeObject => some (deliver (.object [] true) frames)
  | .firstKey frames, .string k => some (.colon [] k frames)
  | .key members frames, .string k => some (.colon members k frames)
  | .colon members k frames, .colon => some (.value (.member members k :: frames))
  | .separator (.array items) frames, .comma => some (.value (.array items :: frames))
  | .separator (.object members) frames, .comma => some (.key members frames)
  | .separator (.array items) frames, .closeArray =>
    some (deliver ((Open.array items).toDocument true) frames)
  | .separator (.object members) frames, .closeObject =>
    some (deliver ((Open.object members).toDocument true) frames)
  | _, _ => none

/-- Leave all containers open around a tree. -/
def enclose (d : Document) : List Frame → Document
  | [] => d
  | .array items :: frames => enclose (.array (d :: items).reverse false) frames
  | .member members key :: frames => enclose (.object ((key, d) :: members).reverse false) frames

/-- The tree of a text that goes no further. -/
def State.abandon : State → Document
  | .value frames => enclose .broken frames
  | .firstItem frames => enclose (.array [] false) frames
  | .firstKey frames => enclose (.object [] false) frames
  | .key members frames => enclose ((Open.object members).toDocument false) frames
  | .colon members k frames => enclose (.object ((k, .broken) :: members).reverse false) frames
  | .separator container frames => enclose (container.toDocument false) frames
  | .finished root => root

/-- The tree of a text, and whether anything follows it. -/
structure Reading where
  root : Document
  trailing : Bool

/-- Run the machine. -/
def State.run : State → List Lexeme → Reading
  | .finished root, _ :: _ => ⟨root, true⟩
  | state, [] => ⟨state.abandon, false⟩
  | state, lexeme :: rest =>
    match state.step? lexeme with
    | some next => next.run rest
    | none => ⟨state.abandon, false⟩

/-- The tree of a text. -/
def read (text : String) : Reading := (State.value []).run (lexemes text)

/-! ### The strict view -/

mutual
/-- The value of a well-formed tree with at most `depth` containers inside each other. -/
def toJson? (depth : Nat) : Document → Option Json
  | .null => some .null
  | .bool b => some (.bool b)
  | .number n => n.map .number
  | .string s => s.map .string
  | .array items closed =>
    if closed ∧ 0 < depth then (toItems? (depth - 1) items).map .array else none
  | .object members closed =>
    if closed ∧ 0 < depth then
      (toMembers? (depth - 1) members).map fun pairs => .object (Keyed.ofList pairs)
    else none
  | .broken => none

/-- The values of the elements of an array. -/
def toItems? (depth : Nat) : List Document → Option (List Json)
  | [] => some []
  | d :: rest => do
    let v ← toJson? depth d
    let vs ← toItems? depth rest
    pure (v :: vs)

/-- The keys and values of the members of an object, in the order of the text. -/
def toMembers? (depth : Nat) : List (Option String × Document) → Option (List (String × Json))
  | [] => some []
  | (k, d) :: rest => do
    let k ← k
    let v ← toJson? depth d
    let vs ← toMembers? depth rest
    pure ((k, v) :: vs)
end

mutual
/-- Whether a part of the text that nobody looks into is well-formed. -/
def wellFormed : Document → Bool
  | .array items closed => closed && wellFormedItems items
  | .object members closed => closed && wellFormedMembers members
  | .broken => false
  | _ => true

/-- Whether all elements of an array are well-formed. -/
def wellFormedItems : List Document → Bool
  | [] => true
  | d :: rest => wellFormed d && wellFormedItems rest

/-- Whether the values of all members of an object are well-formed. -/
def wellFormedMembers : List (Option String × Document) → Bool
  | [] => true
  | (_, d) :: rest => wellFormed d && wellFormedMembers rest
end

/-! ### Reading content in the order of the text -/

/-- The error of a value that is of another kind than the wanted one. -/
def kindError : Document → ReadError
  | .broken | .number none | .string none => .malformed
  | _ => .wrongKind

/-- The error of an array or object that ends before the wanted element. -/
def endError (closed : Bool) : ReadError := if closed then .wrongLength else .malformed

/-- A text. -/
def text : Document → Except ReadError String
  | .string (some s) => .ok s
  | d => .error d.kindError

/-- A signed 64-bit integer. -/
def signed : Document → Except ReadError Int
  | .number (some (.int (.ofNat n))) => if n < signedBound then .ok n else .error .outOfRange
  | .number (some (.int (.negSucc n))) =>
    if n < signedBound then .ok (.negSucc n) else .error .outOfRange
  | d => .error d.kindError

/-- An unsigned 64-bit integer. -/
def nat : Document → Except ReadError Nat
  | .number (some (.int (.ofNat n))) => if n < wordBound then .ok n else .error .outOfRange
  | .number (some (.int (.negSucc _))) => .error .outOfRange
  | d => .error d.kindError

/-- A list, its elements read by `item`. -/
def list {α : Type} (item : Document → Except ReadError α) : Document → Except ReadError (List α)
  | .array items closed => do
    let values ← items.mapM item
    if closed then pure values else throw .malformed
  | d => .error d.kindError

/-- A pair, written as an array of two elements; an array that is too long counts as
malformed. -/
def pair {α β : Type} (first : Document → Except ReadError α)
    (second : Document → Except ReadError β) : Document → Except ReadError (α × β)
  | .array [] closed => .error (endError closed)
  | .array [a] closed => do
    let _ ← first a
    throw (endError closed)
  | .array (a :: b :: rest) closed => do
    let a ← first a
    let b ← second b
    if rest.isEmpty ∧ closed then pure (a, b) else throw .malformed
  | d => .error d.kindError

end Document

/-! ### Reading whole texts -/

/-- The deepest nesting of containers that a text may have. -/
def maxDepth : Nat := 127

/-- The value of a text. -/
def parse? (text : String) : Option Json :=
  let reading := Document.read text
  if reading.trailing then none else reading.root.toJson? maxDepth

/-- The elements of a text that holds an array. -/
def parseArray (text : String) : Except ReadError (List Json) :=
  let reading := Document.read text
  match reading.root with
  | .array items closed =>
    match Document.toItems? (maxDepth - 1) items with
    | some values => if closed && !reading.trailing then .ok values else .error .malformed
    | none => .error .malformed
  | d => .error d.kindError

end QueryGrammar.Json
