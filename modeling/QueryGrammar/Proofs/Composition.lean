/-
QueryGrammar/Proofs/Composition.lean

Encodings of set operations.

A set operation derives its two queries one after the other, and both store their literals in one
list.  The second query meets a list that is not empty, so it is not encoded as it is alone; but
what it stores is what it would store alone, less what is there already (`Literal.merge`), and its
tokens are those that it has alone, with the places of its literals moved accordingly
(`Literal.relocate`).

Main result: the encoding of `q operation b` is put together from those of `q` and `b` alone
(`Encoding.combine`), and fails as the first of them that fails (`Query.encode_combine`).
-/
import QueryGrammar.Proofs.Values

namespace QueryGrammar

/-! ### A query alone, and two queries joined -/

namespace Query

/-- The query without its set operations. -/
def alone (q : Query) : Query := { q with intersect := none, union := none, except := none }

/-- The query with one set operation, of which the other query is the branch. -/
def combine (operation : SetOperation) (q branch : Query) : Query :=
  match operation with
  | .intersect => { q.alone with intersect := some branch }
  | .union => { q.alone with union := some branch }
  | .except => { q.alone with except := some branch }

variable {context : Context} {operation : SetOperation} {q branch : Query}

@[simp] theorem setOperations_alone : q.alone.setOperations = [] := rfl

@[simp] theorem setOperations_combine :
    (combine operation q branch).setOperations = [(operation, branch)] := by
  cases operation <;> rfl

@[simp] theorem derive_alone : q.alone.derive context = q.derive context :=
  derive_congr rfl rfl rfl rfl rfl rfl rfl

@[simp] theorem derive_combine :
    (combine operation q branch).derive context = q.derive context := by
  cases operation <;> exact derive_congr rfl rfl rfl rfl rfl rfl rfl

theorem derivation_alone : q.alone.derivation context =
    q.derive context >>= fun root => pure (.single root) := by
  rw [derivation, setOperations_alone, derive_alone]

theorem derivation_combine : (combine operation q branch).derivation context =
    q.derive context >>= fun left => branch.derive context >>= fun right =>
      pure (.combined operation left right) := by
  rw [derivation, setOperations_combine, derive_combine]

end Query

/-! ### Merging lists of literals -/

namespace Literal

variable {l : Literal} {left right : List Literal}

/-- The entries of one list, and then those of another that are equal to none of them. -/
def merge (left right : List Literal) : List Literal :=
  left ++ right.filter fun l => !left.any (·.same l)

theorem prefix_merge (left right : List Literal) : left <+: merge left right :=
  List.prefix_append _ _

/-- A literal is among the merged ones exactly if it is in one of the lists. -/
theorem any_merge (left right : List Literal) (l : Literal) :
    (merge left right).any (·.same l) = (left.any (·.same l) || right.any (·.same l)) := by
  rw [merge, List.any_append, List.any_filter]
  rcases hleft : left.any (·.same l)
  · -- an entry equal to the literal is not left out
    rw [Bool.false_or, Bool.false_or]
    congr 1
    funext k
    rcases hsame : k.same l
    · rw [Bool.and_false]
    · rw [any_congr hsame, hleft, Bool.not_false, Bool.and_true]
  · rw [Bool.true_or, Bool.true_or]

/-- What is stored of two sequences is what is stored of each, merged. -/
theorem stored_append (ls ms : List Literal) :
    stored (ls ++ ms) = merge (stored ls) (stored ms) := by
  induction ms using List.reverseRecOn with
  | nil => simp [stored, merge]
  | append_singleton ms m ih =>
    rw [← List.append_assoc, stored_concat, ih, stored_concat]
    rcases hm : (stored ms).any (·.same m)
    · have hmerge : merge (stored ls) (stored ms ++ [m]) =
          merge (stored ls) (stored ms) ++ [m].filter fun l => !(stored ls).any (·.same l) := by
        rw [merge, merge, List.filter_append, List.append_assoc]
      rw [store_of_not_any hm, hmerge]
      -- the last literal is new to the second sequence, so it depends on the first
      rcases hl : (stored ls).any (·.same m)
      · rw [store_of_not_any (by rw [any_merge, hl, hm, Bool.or_false])]
        simp [hl]
      · rw [store_of_any (by rw [any_merge, hl, Bool.true_or])]
        simp [hl]
    · rw [store_of_any hm, store_of_any (by rw [any_merge, hm, Bool.or_true])]

/-- Where the entry at a place of the second of two lists is found when they are merged. -/
def relocate (left right : List Literal) (i : Nat) : Nat :=
  (right[i]?.map (place (merge left right))).getD i

theorem relocate_place (h : right.any (·.same l)) :
    relocate left right (place right l) = place (merge left right) l := by
  obtain ⟨k, hk, hsame⟩ := getElem?_place h
  rw [relocate, hk, Option.map_some, Option.getD_some, place_congr hsame]

/-- If no two merged entries are equal, an entry moves to the only place with an entry equal to
it. -/
theorem relocate_eq_iff (distinct : (merge left right).Pairwise fun k l => k.same l = false)
    {i j : Nat} (hi : right[i]? = some l) :
    relocate left right i = j ↔ ∃ k, (merge left right)[j]? = some k ∧ k.same l := by
  have hany : (merge left right).any (·.same l) := by
    rw [any_merge, Bool.or_eq_true]
    exact .inr (List.any_eq_true.mpr ⟨l, List.mem_of_getElem? hi, same_self l⟩)
  rw [relocate, hi, Option.map_some, Option.getD_some]
  constructor
  · rintro rfl
    exact getElem?_place hany
  · rintro ⟨k, hk, hsame⟩
    exact place_of_getElem? distinct hk hsame

end Literal

/-! ### Moving the places in tokens -/

/-- Apply a function to the place that a token for `V` chooses. -/
def Token.mapPlace (g : Nat → Nat) (token : Token) : Token :=
  if token.symbol = .v then ⟨.v, g token.choice⟩ else token

theorem Token.mapPlace_of_ne {g : Nat → Nat} {symbol : Symbol} (h : symbol ≠ .v) (choice : Nat) :
    mapPlace g ⟨symbol, choice⟩ = ⟨symbol, choice⟩ := if_neg h

theorem Token.mapPlace_v {g : Nat → Nat} (i : Nat) : mapPlace g ⟨.v, i⟩ = ⟨.v, g i⟩ := rfl

@[simp] theorem Column.map_mapPlace (g : Nat → Nat) (column : Column) :
    column.tokens.map (Token.mapPlace g) = column.tokens := rfl

@[simp] theorem SelectNode.map_mapPlace (g : Nat → Nat) (select : SelectNode) :
    select.tokens.map (Token.mapPlace g) = select.tokens := by
  simp [tokens, Token.mapPlace_of_ne, List.map_flatMap]

theorem SortNode.map_mapPlace (g : Nat → Nat) (sort : SortNode) {symbol : Symbol}
    (h : symbol ≠ .v) : (sort.tokens symbol).map (Token.mapPlace g) = sort.tokens symbol := by
  simp [tokens, Token.mapPlace_of_ne h]

mutual

/-- Changing the places of a derivation changes its tokens for `V` alone. -/
theorem Root.tokens_map (g : Nat → Nat) :
    (r : Root Nat) → (r.map g).tokens = r.tokens.map (Token.mapPlace g)
  | .superlativeFilter _ _ f | .filterOrder _ f _ | .filter _ f => by
    simp [Root.map, Root.tokens, Token.mapPlace_of_ne, SortNode.map_mapPlace,
      Filter.tokens_map g f]
  | .superlative .. | .order .. | .plain .. => by
    simp [Root.map, Root.tokens, Token.mapPlace_of_ne, SortNode.map_mapPlace]

/-- Changing the places of a filter changes its tokens for `V` alone. -/
theorem Filter.tokens_map (g : Nat → Nat) :
    (f : Filter Nat) → (f.map g).tokens = f.tokens.map (Token.mapPlace g)
  | .both f f' | .either f f' => by
    simp [Filter.map, Filter.tokens, Token.mapPlace_of_ne, Filter.tokens_map g f,
      Filter.tokens_map g f']
  | .query _ _ r | .memberOf _ _ r => by
    simp [Filter.map, Filter.tokens, Token.mapPlace_of_ne, Root.tokens_map g r]
  | .value .. | .between .. | .member .. => by
    simp [Filter.map, Filter.tokens, Token.mapPlace_of_ne, Token.mapPlace_v]

end

/-! ### Putting encodings together -/

namespace Encoding

/-- The encoding of a set operation, put together from those of the two queries alone. -/
def combine (operation : SetOperation) (left right : Encoding) : Encoding where
  tokens := ⟨.root1, operation.choice⟩ :: (left.tokens.tail ++
    right.tokens.tail.map (Token.mapPlace (Literal.relocate left.values right.values)))
  values := Literal.merge left.values right.values

theorem ofDerivation_single (r : Root Literal) :
    ofDerivation (.single r) =
      { tokens := ⟨.root1, noSetOperationChoice⟩ ::
          (r.map (Literal.place (Literal.stored r.values))).tokens
        values := Literal.stored r.values } := by
  rw [ofDerivation_eq]
  rfl

open Literal in
/-- The encoding of two derivations is put together from those of each. -/
theorem ofDerivation_combined (operation : SetOperation) (l r : Root Literal) :
    ofDerivation (.combined operation l r) =
      combine operation (ofDerivation (.single l)) (ofDerivation (.single r)) := by
  -- the literals of the right derivation do not move those of the left one
  have hleft : l.map (place (merge (stored l.values) (stored r.values))) =
      l.map (place (stored l.values)) := by
    apply Root.map_congr
    intro v hv
    exact place_of_prefix (prefix_merge _ _) (any_stored hv)
  have hright : r.map (place (merge (stored l.values) (stored r.values))) =
      (r.map (place (stored r.values))).map (relocate (stored l.values) (stored r.values)) := by
    rw [Root.map_map]
    apply Root.map_congr
    intro v hv
    exact (relocate_place (any_stored hv)).symm
  rw [ofDerivation_single, ofDerivation_single, ofDerivation_eq, combine]
  simp only [Derivation.values, Derivation.map, Derivation.tokens, stored_append, hleft, hright,
    Root.tokens_map, List.tail_cons]

end Encoding

/-- The places that the tokens of an encoding refer to are in its list. -/
theorem Query.exists_getElem?_of_choices {context : Context} {q : Query} {e : Encoding}
    (h : (q.encode context).outcome = .ok e) {i : Nat} (hi : i ∈ Token.choices .v e.tokens) :
    ∃ l, e.values[i]? = some l := by
  obtain ⟨d, -, rfl⟩ := encode_eq_ok_iff.mp h
  rw [Encoding.ofDerivation_eq] at hi ⊢
  rw [Derivation.choices_v, Derivation.values_map, List.mem_map] at hi
  obtain ⟨v, hv, rfl⟩ := hi
  obtain ⟨l, hl, -⟩ := Literal.getElem?_place (Literal.any_stored hv)
  exact ⟨l, hl⟩

/-- **The encoding of a set operation.**  It is put together from the encodings of the two queries
alone, and fails as the first of them that fails.  Every place that the tokens of the branch refer
to is moved to that of the equal literal in the joint list, of which there is only one. -/
theorem Query.encode_combine (context : Context) (operation : SetOperation) (q branch : Query) :
    (combine operation q branch).encode context = (do
        let left ← q.alone.encode context
        let right ← branch.alone.encode context
        pure (Encoding.combine operation left right)) ∧
      ∀ left right, (q.alone.encode context).outcome = .ok left →
        (branch.alone.encode context).outcome = .ok right →
        ∀ i ∈ Token.choices .v right.tokens, ∃ l, right.values[i]? = some l ∧
          ∀ j, Literal.relocate left.values right.values i = j ↔
            ∃ k, (Literal.merge left.values right.values)[j]? = some k ∧ k.same l := by
  constructor
  · simp only [encode, derivation_alone, derivation_combine, bind_assoc, pure_bind,
      Encoding.ofDerivation_combined]
  · intro left right hleft hright i hi
    obtain ⟨l, hl⟩ := exists_getElem?_of_choices hright hi
    refine ⟨l, hl, fun j => Literal.relocate_eq_iff ?_ hl⟩
    -- the joint list is stored, too, so it has no repetitions
    obtain ⟨d, -, rfl⟩ := encode_eq_ok_iff.mp hleft
    obtain ⟨d', -, rfl⟩ := encode_eq_ok_iff.mp hright
    rw [Encoding.ofDerivation_eq, Encoding.ofDerivation_eq, ← Literal.stored_append]
    exact Literal.pairwise_stored _

namespace Sample

/-- `SELECT customer FROM sale WHERE id = 'x'` -/
def single : Query where
  selectList := .single 2
  sources := [.table 1]
  restriction := some (.last
    { negated := false, operator := .equal, left := .plain 3, value := some (.text "'x'"),
      upper := none })

/-- The encoding of that query. -/
def singleEncoding : Encoding where
  tokens := [⟨.root1, 3⟩, ⟨.root, 3⟩, ⟨.sel, 0⟩, ⟨.n, 0⟩, ⟨.a, 0⟩, ⟨.c, 2⟩, ⟨.t, 1⟩, ⟨.filter, 2⟩,
    ⟨.a, 0⟩, ⟨.c, 1⟩, ⟨.t, 1⟩, ⟨.v, 0⟩]
  values := [.text "x"]

/-- The encoding of the inner query alone. -/
def innerEncoding : Encoding where
  tokens := ⟨.root1, 3⟩ :: innerTokens
  values := [.text "7", .text "x"]

end Sample

/-- Joined to a query that compares with the second of its literals, the inner query has both of
them at other places. -/
theorem Query.encode_combine_sample :
    (Sample.single.alone.encode Sample.shop).outcome = .ok Sample.singleEncoding ∧
      (Sample.inner.alone.encode Sample.shop).outcome = .ok Sample.innerEncoding ∧
      ((combine .union Sample.single Sample.inner).encode Sample.shop).outcome =
        .ok (Encoding.combine .union Sample.singleEncoding Sample.innerEncoding) ∧
      (Encoding.combine .union Sample.singleEncoding Sample.innerEncoding).values =
        [.text "x", .text "7"] ∧
      ∀ i ∈ Token.choices .v Sample.innerEncoding.tokens,
        ∃ l, Sample.innerEncoding.values[i]? = some l ∧
          ∀ j, Literal.relocate Sample.singleEncoding.values Sample.innerEncoding.values i = j ↔
            ∃ k, (Literal.merge Sample.singleEncoding.values
              Sample.innerEncoding.values)[j]? = some k ∧ k.same l := by
  have hsingle : (Sample.single.alone.encode Sample.shop).outcome =
      .ok Sample.singleEncoding := by decide
  have hinner : (Sample.inner.alone.encode Sample.shop).outcome =
      .ok Sample.innerEncoding := by decide
  refine ⟨hsingle, hinner, ?_, by decide,
    (Query.encode_combine Sample.shop .union Sample.single Sample.inner).2 _ _ hsingle hinner⟩
  rw [(Query.encode_combine Sample.shop .union Sample.single Sample.inner).1,
    Logged.outcome_bind_eq_ok_iff]
  exact ⟨_, hsingle, Logged.outcome_bind_eq_ok_iff.mpr ⟨_, hinner, rfl⟩⟩

end QueryGrammar
