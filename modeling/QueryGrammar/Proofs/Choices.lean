/-
QueryGrammar/Proofs/Choices.lean

What the tokens of a derivation choose.

Of a sequence of tokens, the choices for one symbol can be read off alone (`Token.choices`).  Those
for `V` are the values of the derivation, in order (`Derivation.choices_v`), and those for `A`, `C`
and `T` are what its columns have for these symbols (`Derivation.choices_tokens`).
-/
import QueryGrammar.Proofs.Parts

namespace QueryGrammar

/-! ### Choices for a symbol -/

namespace Token

/-- The choices that tokens make for a symbol, in order. -/
def choices (symbol : Symbol) (tokens : List Token) : List Nat :=
  (tokens.filter fun token => token.symbol = symbol).map choice

variable {symbol : Symbol}

@[simp] theorem choices_nil : choices symbol [] = [] := rfl

@[simp] theorem choices_cons (token : Token) (tokens : List Token) :
    choices symbol (token :: tokens) =
      if token.symbol = symbol then token.choice :: choices symbol tokens
      else choices symbol tokens := by
  by_cases h : token.symbol = symbol <;> simp [choices, h]

@[simp] theorem choices_append (ts us : List Token) :
    choices symbol (ts ++ us) = choices symbol ts ++ choices symbol us := by
  simp [choices]

@[simp] theorem choices_flatMap {γ : Type} (f : γ → List Token) (l : List γ) :
    choices symbol (l.flatMap f) = l.flatMap fun a => choices symbol (f a) := by
  simp [choices, List.filter_flatMap, List.map_flatMap]

end Token

/-! ### Values -/

@[simp] theorem SelectNode.choices_v (select : SelectNode) :
    Token.choices .v select.tokens = [] := by
  simp [tokens, Column.tokens]

@[simp] theorem SortNode.choices_v (sort : SortNode) {symbol : Symbol} (h : symbol ≠ .v) :
    Token.choices .v (sort.tokens symbol) = [] := by
  simp [tokens, Column.tokens, h]

mutual

@[simp] theorem Root.choices_v : (r : Root Nat) → Token.choices .v r.tokens = r.values
  | .superlativeFilter _ _ f | .filterOrder _ f _ | .filter _ f => by
    simp [Root.tokens, Root.values, Filter.choices_v f]
  | .superlative .. | .order .. | .plain .. => by simp [Root.tokens, Root.values]

@[simp] theorem Filter.choices_v : (f : Filter Nat) → Token.choices .v f.tokens = f.values
  | .both f g | .either f g => by
    simp [Filter.tokens, Filter.values, Filter.choices_v f, Filter.choices_v g]
  | .query _ _ r | .memberOf _ _ r => by
    simp [Filter.tokens, Filter.values, Column.tokens, Root.choices_v r]
  | .value .. | .between .. | .member .. => by
    simp [Filter.tokens, Filter.values, Column.tokens]

end

/-- The values of a numbered derivation are the choices for `V`. -/
theorem Derivation.choices_v (d : Derivation Nat) : Token.choices .v d.tokens = d.values := by
  cases d <;> simp [tokens, values]

/-! ### Columns -/

/-- What a column chooses for the symbols of its tokens. -/
def Column.choice (column : Column) : Symbol → Nat
  | .a => column.aggregate.code
  | .c => column.identity
  | _ => column.table

section ColumnSymbols

variable {symbol : Symbol} (h : symbol ∈ [Symbol.a, .c, .t])

include h

theorem Column.choices_tokens (column : Column) :
    Token.choices symbol column.tokens = [column.choice symbol] := by
  simp only [List.mem_cons, List.not_mem_nil, or_false] at h
  rcases h with rfl | rfl | rfl <;> rfl

theorem Token.choices_cons_of_column {s : Symbol} (choice : Nat) (tokens : List Token)
    (hs : s ∉ [Symbol.a, .c, .t]) :
    choices symbol (⟨s, choice⟩ :: tokens) = choices symbol tokens := by
  rw [choices_cons, if_neg]
  rintro rfl
  exact hs h

theorem SelectNode.choices_tokens (select : SelectNode) :
    Token.choices symbol select.tokens = select.columns.map fun c => c.choice symbol := by
  rw [tokens, Token.choices_cons_of_column h _ _ (by simp),
    Token.choices_cons_of_column h _ _ (by simp), Token.choices_flatMap, List.map_eq_flatMap]
  simp only [Column.choices_tokens h]

theorem SortNode.choices_tokens (sort : SortNode) {s : Symbol} (hs : s ∉ [Symbol.a, .c, .t]) :
    Token.choices symbol (sort.tokens s) = [sort.column.choice symbol] := by
  rw [tokens, Token.choices_cons_of_column h _ _ hs, Column.choices_tokens h]

end ColumnSymbols

mutual

/-- The choices for the symbols of columns are those of the columns, in order. -/
theorem Root.choices_tokens {symbol : Symbol} (h : symbol ∈ [Symbol.a, .c, .t]) :
    (r : Root Nat) → Token.choices symbol r.tokens = r.deepColumns.map fun c => c.choice symbol
  | .superlativeFilter s k f | .filterOrder s f k | .filter s f => by
    rw [Root.tokens, Token.choices_cons_of_column h _ _ (by simp), Root.deepColumns]
    simp [SelectNode.choices_tokens h, SortNode.choices_tokens h, Filter.choices_tokens h f]
  | .superlative s k | .order s k | .plain s => by
    rw [Root.tokens, Token.choices_cons_of_column h _ _ (by simp), Root.deepColumns]
    simp [SelectNode.choices_tokens h, SortNode.choices_tokens h]

/-- The choices for the symbols of columns are those of the columns, in order. -/
theorem Filter.choices_tokens {symbol : Symbol} (h : symbol ∈ [Symbol.a, .c, .t]) :
    (f : Filter Nat) → Token.choices symbol f.tokens = f.deepColumns.map fun c => c.choice symbol
  | .both f g | .either f g => by
    rw [Filter.tokens, Token.choices_cons_of_column h _ _ (by simp), Filter.deepColumns]
    simp [Filter.choices_tokens h f, Filter.choices_tokens h g]
  | .query _ _ r | .memberOf _ _ r => by
    rw [Filter.tokens, Token.choices_cons_of_column h _ _ (by simp), Filter.deepColumns]
    simp [Column.choices_tokens h, Root.choices_tokens h r]
  | .value .. | .between .. | .member .. => by
    rw [Filter.tokens, Token.choices_cons_of_column h _ _ (by simp), Filter.deepColumns]
    simp [Column.choices_tokens h, Token.choices_cons_of_column h]

end

/-- The choices for the symbols of columns are those of the columns, in order. -/
theorem Derivation.choices_tokens {symbol : Symbol} (h : symbol ∈ [Symbol.a, .c, .t])
    (d : Derivation Nat) :
    Token.choices symbol d.tokens = d.deepColumns.map fun c => c.choice symbol := by
  cases d <;> rw [tokens, Token.choices_cons_of_column h _ _ (by simp), deepColumns] <;>
    simp [Root.choices_tokens h]

end QueryGrammar
