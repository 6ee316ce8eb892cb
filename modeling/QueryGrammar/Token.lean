/-
QueryGrammar/Token.lean

Tokens: one production choice of one symbol.

A derivation is written as the sequence of its tokens in preorder, each as `Label(choice)`, with
one space between two of them.
-/
import QueryGrammar.Failure
import QueryGrammar.Symbol

namespace QueryGrammar

/-- A choice of a production of a symbol. -/
structure Token where
  symbol : Symbol
  choice : Nat
  deriving DecidableEq

namespace Token

/-- The token itself if its choice is one of the productions of its symbol. -/
def checked (token : Token) : Except Failure Token :=
  match token.symbol.productions? with
  | some limit =>
    if token.choice < limit then .ok token
    else .error (.choiceOutOfRange token.symbol token.choice limit)
  | none => .ok token

/-- The text of a token. -/
def text (token : Token) : String :=
  token.symbol.label ++ "(" ++ toString token.choice ++ ")"

/-- The text of a sequence of tokens. -/
def render (tokens : List Token) : String := " ".intercalate (tokens.map text)

end Token

end QueryGrammar
