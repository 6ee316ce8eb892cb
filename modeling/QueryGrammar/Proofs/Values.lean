/-
QueryGrammar/Proofs/Values.lean

The literals of an encoding.

The conditions that compare with values, in the order of their tokens, use up a sequence of
literals (`Query.literals`).  The list of an encoding holds that sequence without repetitions
(`Literal.stored_eq_eraseDupsBy`), in which no two literals are equal (`Literal.pairwise_stored`)
and new places come in order (`Literal.eraseDups_map_place`).
-/
import Mathlib.Data.List.Induction
import QueryGrammar.Proofs.Choices
import QueryGrammar.Proofs.Mirror

namespace QueryGrammar

variable {context : Context} {q : Query}

/-! ### Lists without repetitions -/

theorem eraseDups_concat (l : List Nat) (a : Nat) :
    (l ++ [a]).eraseDups = if a ∈ l then l.eraseDups else l.eraseDups ++ [a] := by
  rw [List.eraseDups_append]
  split_ifs with h <;> simp [List.removeAll, h, List.eraseDups_cons]

namespace Literal

variable {literals : List Literal} {l : Literal}

theorem store_of_any {values : List Literal} (h : values.any (·.same l)) :
    store values l = values := by
  simp [store, h]

theorem store_of_not_any {values : List Literal} (h : values.any (·.same l) = false) :
    store values l = values ++ [l] := by
  simp [store, h]

/-- What is stored is the sequence without repetitions, by the equality of values. -/
theorem stored_eq_eraseDupsBy (literals : List Literal) :
    stored literals = literals.eraseDupsBy same := by
  -- the loop of the right-hand side keeps its list in reverse
  have hloop : ∀ acc,
      literals.foldl store acc.reverse = List.eraseDupsBy.loop same literals acc := by
    induction literals with
    | nil => exact fun acc => rfl
    | cons l literals ih =>
      intro acc
      have hany : acc.reverse.any (·.same l) = acc.any l.same := by
        rw [List.any_reverse]
        congr 1
        funext k
        exact same_comm k l
      rw [List.foldl_cons, List.eraseDupsBy.loop]
      rcases h : acc.any l.same
      · rw [store_of_not_any (hany.trans h), ← List.reverse_cons, ih]
      · rw [store_of_any (hany.trans h), ih]
  exact hloop []

/-- No two stored literals are equal. -/
theorem pairwise_stored (literals : List Literal) :
    (stored literals).Pairwise fun k l => k.same l = false := by
  induction literals using List.reverseRecOn with
  | nil => exact .nil
  | append_singleton literals l ih =>
    rw [stored_concat]
    rcases h : (stored literals).any (·.same l)
    · rw [store_of_not_any h, List.pairwise_append]
      refine ⟨ih, List.pairwise_singleton _ _, fun k hk l' hl' => ?_⟩
      rw [List.mem_singleton.mp hl']
      simpa using List.any_eq_false.mp h k hk
    · rw [store_of_any h]
      exact ih

/-- In a list without repetitions every entry is at the place of the literals equal to it. -/
theorem place_of_getElem? {values : List Literal} {k : Literal}
    (distinct : values.Pairwise fun k l => k.same l = false) {j : Nat}
    (hj : values[j]? = some k) (hsame : k.same l) : place values l = j := by
  obtain ⟨hlt, rfl⟩ := List.getElem?_eq_some_iff.mp hj
  rw [place, List.findIdx_eq hlt]
  refine ⟨hsame, fun i hi => ?_⟩
  -- an earlier equal entry would be equal to this one
  have hne : values[i].same values[j] = false :=
    List.pairwise_iff_getElem.mp distinct i j (by omega) hlt hi
  rw [← hne]
  exact (same_congr hsame _).symm

/-- The places of literals come up for the first time in their order. -/
theorem eraseDups_map_place (literals : List Literal) :
    (literals.map (place (stored literals))).eraseDups = List.range (stored literals).length := by
  induction literals using List.reverseRecOn with
  | nil => rfl
  | append_singleton literals l ih =>
    -- the places of the earlier literals stay, so only the last one matters
    have hplaces := map_place_append literals [l]
    have hmem : ∀ i, i ∈ literals.map (place (stored literals)) ↔ i < (stored literals).length := by
      intro i
      rw [← List.mem_eraseDups, ih, List.mem_range]
    rw [List.map_append, hplaces, List.map_singleton, eraseDups_concat, ih, stored_concat]
    rcases h : (stored literals).any (·.same l)
    · have hplace : place (stored literals ++ [l]) l = (stored literals).length := by
        have hnone : (stored literals).findIdx (·.same l) = (stored literals).length :=
          List.findIdx_eq_length.mpr (by simpa using h)
        rw [place, List.findIdx_append, hnone]
        simp [same_self]
      rw [store_of_not_any h, hplace, if_neg (by simp [hmem]), List.length_append,
        List.length_singleton, List.range_succ]
    · have hlt : place (stored literals) l < (stored literals).length :=
        place_lt_length_iff.mpr h
      rw [store_of_any h, if_pos ((hmem _).mpr hlt)]

end Literal

/-! ### The literals of a query -/

/-- The literals that a condition compares with, in the order of their tokens.  A condition over a
query has none of its own, nor has a membership test. -/
def Condition.literals (c : Condition) : List Literal :=
  if c.nested?.isSome ∨ c.operator = .member then []
  else if c.operator = .between then
    (Operand.literal? c.value).toList ++ (Operand.literal? c.upper).toList
  else (Operand.literal? c.value).toList

/-- The conditions that the encoding of a query writes, also those of nested queries and of the
branch of a set operation. -/
def Query.writtenConditions (q : Query) : List Condition :=
  q.deepConditions ++ q.setOperations.flatMap fun branch => branch.2.deepConditions

/-- The literals that the encoding of a query refers to, in the order of their tokens. -/
def Query.literals (q : Query) : List Literal := q.writtenConditions.flatMap Condition.literals

/-- The values of the leaf of a direct condition are its literals. -/
theorem Condition.DerivesTo.values_of_direct {c : Condition} {f : Filter Literal}
    (h : c.DerivesTo context q f) (direct : c.nested? = none) : f.values = c.literals := by
  cases h with
  | value _ operator _ operand =>
    obtain ⟨hmember, hbetween⟩ := DirectTest.ofOperator_value operator
    simp [Filter.values, literals, direct, hmember, hbetween, operand]
  | between _ operator _ operand upper =>
    have hbetween := DirectTest.ofOperator_between operator
    simp [Filter.values, literals, direct, hbetween, operand, upper]
  | member _ operator =>
    have hmember := DirectTest.ofOperator_member operator
    simp [Filter.values, literals, direct, hmember]
  | query nested | memberOf nested => simp [direct] at nested

/-- The values of the leaf of a condition over a query are those of that query. -/
theorem Condition.DerivesTo.values_of_nested {c : Condition} {f : Filter Literal} {n : Query}
    (h : c.DerivesTo context q f) (nested : c.nested? = some n) :
    ∃ root, (n.derive context).outcome = .ok root ∧ f.values = root.values := by
  cases h with
  | value direct | between direct | member direct => simp [nested] at direct
  | query nested' _ _ derivation | memberOf nested' _ _ derivation =>
    rw [nested, Option.some.injEq] at nested'
    subst nested'
    exact ⟨_, derivation, by rw [Filter.values]⟩

/-- The values of the derivation of a query are the literals of its conditions, in order. -/
theorem Query.values_of_derive (q : Query) {r : Root Literal}
    (h : (q.derive context).outcome = .ok r) :
    r.values = q.deepConditions.flatMap Condition.literals := by
  induction q using nestedInduction generalizing r with
  | step q ih =>
    have hr := derivesTo_of_derive h
    rw [Root.values_eq, deepConditions_eq, List.flatMap_assoc, eq_comm]
    -- a leaf has the literals of its condition or those of the nested query, never both
    refine flatMap_eq_of_forall₂ ((List.forall₂_and_left _ _).mpr ⟨ih, hr.leaves⟩) ?_
    rintro c f ⟨ihc, hf⟩
    rw [List.flatMap_cons]
    rcases hnested : c.nested? with _ | n
    · simp [hf.values_of_direct hnested]
    · obtain ⟨root, hroot, hvalues⟩ := hf.values_of_nested hnested
      have hliterals : c.literals = [] := by
        simp [Condition.literals, hnested]
      rw [hliterals, hvalues, ihc n hnested hroot]
      rfl

theorem Query.DerivedAs.values {d : Derivation Literal} (h : q.DerivedAs context d) :
    d.values = q.literals := by
  cases h with
  | single operations root =>
    simp [Derivation.values, Query.literals, Query.writtenConditions, operations,
      q.values_of_derive root]
  | combined operations left right =>
    simp [Derivation.values, Query.literals, Query.writtenConditions, operations,
      q.values_of_derive left, Query.values_of_derive _ right]

/-! ### The list of an encoding -/

/-- **The list of an encoding is that of its literals without repetitions.**  Looked up in it, the
choices for `V` give the literals in order; no two of its entries are equal; and its places come
up for the first time in their order, each of them and no others. -/
theorem Query.encode_values {e : Encoding} (h : (q.encode context).outcome = .ok e) :
    List.Forall₂ (fun i l => ∃ k, e.values[i]? = some k ∧ k.same l)
        (Token.choices .v e.tokens) q.literals ∧
      (e.values.Pairwise fun k l => k.same l = false) ∧
      (∀ i, i ∈ Token.choices .v e.tokens ↔ i < e.values.length) ∧
      (Token.choices .v e.tokens).eraseDups = List.range e.values.length ∧
      e.values = q.literals.eraseDupsBy Literal.same := by
  obtain ⟨d, hd, rfl⟩ := encode_eq_ok_iff.mp h
  rw [Encoding.ofDerivation_eq, hd.values]
  -- the tokens refer to the literals by their places in the list
  have hchoices : Token.choices .v (d.map (Literal.place (Literal.stored q.literals))).tokens =
      q.literals.map (Literal.place (Literal.stored q.literals)) := by
    rw [Derivation.choices_v, Derivation.values_map, hd.values]
  have herase := Literal.eraseDups_map_place q.literals
  simp only [hchoices]
  refine ⟨?_, Literal.pairwise_stored _, fun i => ?_, herase, Literal.stored_eq_eraseDupsBy _⟩
  · rw [List.forall₂_map_left_iff, List.forall₂_same]
    exact fun l hl => Literal.getElem?_place (Literal.any_stored hl)
  · rw [← List.mem_eraseDups, herase, List.mem_range]

theorem Query.encode_values_sample :
    List.Forall₂ (fun i l => ∃ k, Sample.encoding.values[i]? = some k ∧ k.same l)
        (Token.choices .v Sample.encoding.tokens) Sample.outer.literals ∧
      (Sample.encoding.values.Pairwise fun k l => k.same l = false) ∧
      (∀ i, i ∈ Token.choices .v Sample.encoding.tokens ↔ i < Sample.encoding.values.length) ∧
      (Token.choices .v Sample.encoding.tokens).eraseDups =
        List.range Sample.encoding.values.length ∧
      Sample.encoding.values = Sample.outer.literals.eraseDupsBy Literal.same :=
  Query.encode_values (show (Sample.outer.encode Sample.shop).outcome = .ok Sample.encoding by
    decide)

end QueryGrammar
