/-
QueryGrammar/Proofs/Acceptance.lean

Which queries have an encoding.

A query is well shaped if the grammar has its clauses and conditions (`Query.WellShaped`).  Over a
description it is acceptable if besides every column that is encoded is listed and stands for a
table (`Query.Acceptable`).  A query has an encoding exactly if it has at most one set operation
and every expanded query is acceptable (`Query.encode_succeeds_iff`), in whatever order the
encoding comes upon them.

One direction reads the parts of a derivation.  The other goes by failures: a well-shaped query is
not refused (`Query.WellShaped.not_refusal`), so it fails only as the derivations of its columns do.
-/
import QueryGrammar.Proofs.Refusal

namespace QueryGrammar

variable {context : Context} {q : Query}

/-! ### What is accepted -/

/-- Whether the grammar has the operator, negated or not. -/
def Operator.Allowed (negated : Bool) (operator : Operator) : Prop :=
  if negated then operator = .like ∨ operator = .member
  else operator ≠ .not ∧ operator ≠ .is ∧ operator ≠ .existence

/-- The condition is one of the grammar and has the operands that its operator needs. -/
structure Condition.Supported (c : Condition) : Prop where
  operator : c.operator.Allowed c.negated
  pattern : c.operator = .like → c.nested? = none
  value : c.nested? = none → c.operator ≠ .member → ∃ operand, c.value = some operand
  upper : c.nested? = none → c.operator = .between →
    ∃ operand, c.upper = some operand ∧ ∀ n, operand ≠ .query n

/-- The grammar has the clauses and conditions of the query. -/
structure Query.WellShaped (maxConditions : Nat) (q : Query) : Prop where
  one_le_width : 1 ≤ q.selectList.items.length
  width_le : q.selectList.items.length ≤ 5
  count : (Conditions.items q.restriction).length ≤ min maxConditions 3
  order : q.limit.isSome ∨ q.sortOrder.isSome →
    ∃ direction key rest, q.sortOrder = some { direction, keys := key :: rest }
  conditions : ∀ c ∈ q.conditions, c.Supported

/-- The query is well shaped, and the columns that are encoded are listed in the description and
stand for tables. -/
structure Query.Acceptable (entry : SchemaEntry) (maxConditions : Nat) (q : Query) : Prop
    extends q.WellShaped maxConditions where
  columns : ∀ use ∈ q.encodedColumns, use.column < entry.columns.length ∧
    ∃ table, q.TableOf (.ofEntry entry) use table

/-! ### Operators and operands -/

theorem DirectTest.exists_ofOperator_iff {negated : Bool} {operator : Operator} :
    (∃ test, ofOperator negated operator = .ok test) ↔ operator.Allowed negated := by
  cases negated <;> cases operator <;> simp [ofOperator, Operator.Allowed]

theorem NestedTest.exists_ofOperator_iff {negated : Bool} {operator : Operator} :
    (∃ test, ofOperator negated operator = .ok test) ↔ operator.Allowed negated := by
  cases negated <;> cases operator <;> simp [ofOperator, Operator.Allowed]

theorem NestedTest.ofOperator_like {negated : Bool} {test : NestedTest}
    (h : ofOperator negated .like = .ok test) : test = .pattern negated := by
  cases negated <;> simpa [ofOperator, eq_comm] using h

theorem Operand.exists_literal?_iff {operand : Option Operand} :
    (∃ l, literal? operand = some l) ↔ ∃ o, operand = some o ∧ ∀ n, o ≠ .query n := by
  rcases operand with _ | (n | x | s | use) <;>
    simp [literal?, Literal.ofOperand, Except.toOption]

theorem Condition.exists_literal?_iff {c : Condition} (direct : c.nested? = none) :
    (∃ l, Operand.literal? c.value = some l) ↔ ∃ o, c.value = some o := by
  rw [Operand.exists_literal?_iff]
  refine exists_congr fun o => and_iff_left_of_imp ?_
  rintro hvalue n rfl
  simp [nested?, hvalue] at direct

/-! ### A derivation is only of an acceptable query -/

theorem Condition.DerivesTo.supported {c : Condition} {f : Filter Literal}
    (h : c.DerivesTo context q f) : c.Supported := by
  cases h with
  | value direct operator _ operand =>
    obtain ⟨-, hbetween⟩ := DirectTest.ofOperator_value operator
    exact {
      operator := DirectTest.exists_ofOperator_iff.mp ⟨_, operator⟩
      pattern := fun _ => direct
      value := fun _ _ => (exists_literal?_iff direct).mp ⟨_, operand⟩
      upper := fun _ h => absurd h hbetween }
  | between direct operator _ operand upper =>
    exact {
      operator := DirectTest.exists_ofOperator_iff.mp ⟨_, operator⟩
      pattern := fun _ => direct
      value := fun _ _ => (exists_literal?_iff direct).mp ⟨_, operand⟩
      upper := fun _ _ => Operand.exists_literal?_iff.mp ⟨_, upper⟩ }
  | member direct operator _ =>
    have hmember := DirectTest.ofOperator_member operator
    exact {
      operator := DirectTest.exists_ofOperator_iff.mp ⟨_, operator⟩
      pattern := fun _ => direct
      value := fun _ h => absurd hmember h
      upper := fun _ h => by simp [hmember] at h }
  | query nested operator | memberOf nested operator =>
    exact {
      operator := NestedTest.exists_ofOperator_iff.mp ⟨_, operator⟩
      pattern := fun h => by
        -- a pattern is never matched against a query
        rw [h] at operator
        cases NestedTest.ofOperator_like operator
      value := fun h => by simp [nested] at h
      upper := fun h => by simp [nested] at h }

theorem Query.DerivesTo.wellShaped {r : Root Literal} (h : q.DerivesTo context r) :
    q.WellShaped context.maxConditions where
  one_le_width := h.select.one_le_width
  width_le := h.select.width_le
  count := h.count
  order := by
    intro hany
    have hsort : r.sort?.isSome := by
      rw [Root.isSome_sort?, h.shape, hasSort_shape, Bool.or_eq_true]
      exact hany
    obtain ⟨k, hk⟩ := Option.isSome_iff_exists.mp hsort
    cases h.sort k hk with
    | first order => exact ⟨_, _, _, order⟩
  conditions := fun c hc => by
    obtain ⟨f, -, hf⟩ := exists_right_of_forall₂ h.leaves hc
    exact hf.supported

/-! ### A well-shaped query is not refused -/

theorem Condition.Supported.not_refusal {c : Condition} {e : Failure} (h : c.Supported) :
    ¬ c.Refusal e := by
  intro refusal
  cases refusal with
  | negation negated pattern member =>
    have hallowed : c.operator = .like ∨ c.operator = .member := by
      simpa [Operator.Allowed, negated] using h.operator
    exact hallowed.elim pattern member
  | operator plain none =>
    obtain ⟨hnot, his, hexistence⟩ : c.operator ≠ .not ∧ c.operator ≠ .is ∧
        c.operator ≠ .existence := by simpa [Operator.Allowed, plain] using h.operator
    exact none.elim hnot fun none => none.elim his hexistence
  | nesting nested pattern => simp [h.pattern pattern] at nested
  | value direct member missing =>
    obtain ⟨operand, hvalue⟩ := h.value direct member
    simp [hvalue] at missing
  | upper direct between missing =>
    obtain ⟨operand, hupper, -⟩ := h.upper direct between
    simp [hupper] at missing
  | upperQuery direct between query =>
    obtain ⟨operand, hupper, hliteral⟩ := h.upper direct between
    exact hliteral _ (Option.some.inj (hupper.symm.trans query))

theorem Query.WellShaped.not_refusal {maxConditions : Nat} {e : Failure}
    (h : q.WellShaped maxConditions) : ¬ q.Refusal maxConditions e := by
  have hcount (chain : Chain Condition) (hchain : q.restriction = some chain) :
      chain.length ≤ min maxConditions 3 := by
    simpa [Conditions.items, hchain, Chain.length] using h.count
  intro refusal
  cases refusal with
  | empty items => simpa [items] using h.one_le_width
  | width wide => exact absurd h.width_le (by omega)
  | tooMany restriction many => exact absurd (hcount _ restriction) (by omega)
  | count restriction many => exact absurd (hcount _ restriction) (by omega)
  | limit limit order =>
    obtain ⟨direction, key, rest, horder⟩ := h.order (.inl limit)
    simp [order] at horder
  | sortKey order =>
    obtain ⟨direction, key, rest, horder⟩ := h.order (.inr (by simp [order]))
    simp [order] at horder
  | condition written refusal => exact (h.conditions _ written).not_refusal refusal

/-! ### Acceptance -/

theorem Query.derive_succeeds_iff (q : Query) :
    (∃ r, (q.derive context).outcome = .ok r) ↔ ∀ n ∈ q.expansion,
      n.WellShaped context.maxConditions ∧
        ∀ use ∈ n.encodedColumns,
          (∃ identity, context.schema.columnIdentity use.column = .ok identity) ∧
            ∃ table, n.TableOf context.schema use table := by
  constructor
  · rintro ⟨r, h⟩ n hn
    obtain ⟨root, -, hroot⟩ := exists_right_of_forall₂ (q.derivesTo_expansion h) hn
    refine ⟨hroot.wellShaped, fun use huse => ?_⟩
    obtain ⟨leaf, -, aggregate, hleaf⟩ := exists_right_of_forall₂ hroot.columns huse
    exact ⟨⟨_, hleaf.identity⟩, _, hleaf.table⟩
  · intro h
    -- a query that fails only in an impossible way succeeds
    rw [← Logged.failsOnly_false_iff]
    apply q.derive_failsOnly
    · exact fun n hn e he => (h n hn).1.not_refusal he
    · intro n hn use huse aggregate
      obtain ⟨⟨identity, hidentity⟩, table, htable⟩ := (h n hn).2 use huse
      have hrepresents : Column.Represents context.schema n aggregate use
          { aggregate, identity, table } := ⟨rfl, hidentity, htable⟩
      rw [Logged.failsOnly_false_iff]
      exact ⟨_, Context.deriveColumn_eq_ok_iff.mpr hrepresents⟩

/-- A query has a derivation exactly if it has at most one set operation and so do the query and
the branch. -/
theorem Query.derivation_succeeds_iff (q : Query) :
    (∃ d, (q.derivation context).outcome = .ok d) ↔ q.setOperations.length ≤ 1 ∧
      (∃ r, (q.derive context).outcome = .ok r) ∧
      ∀ branch ∈ q.setOperations, ∃ r, (branch.2.derive context).outcome = .ok r := by
  simp only [derivation_eq_ok_iff]
  constructor
  · rintro ⟨d, hd⟩
    cases hd with
    | single operations root => simpa [operations] using ⟨_, root⟩
    | combined operations left right => simpa [operations] using ⟨⟨_, left⟩, ⟨_, right⟩⟩
  · rintro ⟨hlength, ⟨l, hl⟩, hbranches⟩
    rcases hoperations : q.setOperations with _ | ⟨⟨operation, branch⟩, rest⟩
    · exact ⟨_, .single hoperations hl⟩
    · rw [hoperations] at hlength hbranches
      obtain rfl : rest = [] := by simpa using hlength
      obtain ⟨r, hr⟩ := hbranches _ List.mem_cons_self
      exact ⟨_, .combined hoperations hl hr⟩

/-- **Which queries have an encoding**: those with at most one set operation of which every
expanded query is acceptable. -/
theorem Query.encode_succeeds_iff (entry : SchemaEntry) (question query : String)
    (maxConditions : Nat) (q : Query) :
    (∃ e, (q.encode { schema := .ofEntry entry, question, query, maxConditions }).outcome =
        .ok e) ↔
      q.setOperations.length ≤ 1 ∧ ∀ n ∈ q.expanded, n.Acceptable entry maxConditions := by
  have hacceptable (n : Query) : n.Acceptable entry maxConditions ↔
      n.WellShaped maxConditions ∧ ∀ use ∈ n.encodedColumns,
        (∃ identity, (Schema.ofEntry entry).columnIdentity use.column = .ok identity) ∧
          ∃ table, n.TableOf (.ofEntry entry) use table := by
    simp only [Schema.exists_columnIdentity_ofEntry_iff]
    exact ⟨fun h => ⟨h.toWellShaped, h.columns⟩, fun h => ⟨h.1, h.2⟩⟩
  -- once there is a derivation, numbering its literals cannot fail
  have hencode : (∃ e, (q.encode
      { schema := .ofEntry entry, question, query, maxConditions }).outcome = .ok e) ↔
      ∃ d, (q.derivation
        { schema := .ofEntry entry, question, query, maxConditions }).outcome = .ok d := by
    simp only [encode_eq_ok_iff, derivation_eq_ok_iff]
    exact ⟨fun ⟨_, d, hd, _⟩ => ⟨d, hd⟩, fun ⟨d, hd⟩ => ⟨_, d, hd, rfl⟩⟩
  rw [hencode, derivation_succeeds_iff]
  simp only [derive_succeeds_iff, expanded, List.forall_mem_append, List.forall_mem_flatMap,
    hacceptable]

end QueryGrammar
