/-
QueryGrammar/Proofs/Refusal.lean

Why a query has no encoding.

A condition is refused for its operator, or because an operand that the operator needs is missing
or a query (`Condition.Refusal`).  A query is refused for its select list, for the number of its
conditions, for want of a sort key, or for one of the conditions that are written
(`Query.Refusal`).  Each reason comes with its failure.

Whatever else stops a derivation is a look-up of a column (`Context.ColumnFailsOnly`), so what is
said of these two kinds of failures holds of every failure of a query and of those nested in it
(`Query.derive_failsOnly`, `Query.encode_failsOnly`).

Main result: a query that has no encoding has several set operations, or some expanded query is
refused, or a column or table is not there (`Query.reason_of_encode`).
-/
import QueryGrammar.Proofs.Derive

namespace QueryGrammar

variable {context : Context} {q : Query}

/-! ### Reasons -/

/-- Why a condition is refused, with the failure that it causes. -/
inductive Condition.Refusal (c : Condition) : Failure → Prop
  | negation (negated : c.negated = true) (pattern : c.operator ≠ .like)
      (member : c.operator ≠ .member) : Refusal c (.unsupportedNegation c.operator)
  | operator (plain : c.negated = false)
      (none : c.operator = .not ∨ c.operator = .is ∨ c.operator = .existence) :
      Refusal c (.unsupportedOperator c.operator)
  | nesting {n : Query} (nested : c.nested? = some n) (pattern : c.operator = .like) :
      Refusal c (.unsupportedNesting c.operator)
  | value (direct : c.nested? = none) (member : c.operator ≠ .member) (missing : c.value = none) :
      Refusal c (.malformed (.missingValue c.operator))
  | upper (direct : c.nested? = none) (between : c.operator = .between)
      (missing : c.upper = none) : Refusal c (.malformed (.missingValue c.operator))
  | upperQuery {n : Query} (direct : c.nested? = none) (between : c.operator = .between)
      (query : c.upper = some (.query n)) : Refusal c (.malformed .nestedLiteral)

/-- Why a query is refused, with the failure that it causes. -/
inductive Query.Refusal (maxConditions : Nat) (q : Query) : Failure → Prop
  | empty (items : q.selectList.items = []) : Refusal maxConditions q (.malformed .emptySelectList)
  | width (wide : 5 < q.selectList.items.length) :
      Refusal maxConditions q (.choiceOutOfRange .n (q.selectList.items.length - 1) 5)
  | tooMany {chain : Chain Condition} (restriction : q.restriction = some chain)
      (many : maxConditions < chain.length) :
      Refusal maxConditions q (.tooManyConditions chain.length maxConditions)
  | count {chain : Chain Condition} (restriction : q.restriction = some chain)
      (many : 3 < chain.length) (accepted : chain.length ≤ maxConditions) :
      Refusal maxConditions q
        (.malformed (.conditionCount chain.length chain.connectives.length))
  | limit (limit : q.limit.isSome) (order : q.sortOrder = none) :
      Refusal maxConditions q (.malformed .limitWithoutSortOrder)
  | sortKey {direction : Direction} (order : q.sortOrder = some { direction, keys := [] }) :
      Refusal maxConditions q (.malformed .sortOrderWithoutKey)
  | condition {c : Condition} {e : Failure} (written : c ∈ q.conditions) (refusal : c.Refusal e) :
      Refusal maxConditions q e

/-! ### Operators and operands -/

theorem DirectTest.ofOperator_eq_error {negated : Bool} {operator : Operator} {e : Failure}
    (h : ofOperator negated operator = .error e) :
    negated = true ∧ operator ≠ .like ∧ operator ≠ .member ∧ e = .unsupportedNegation operator ∨
      negated = false ∧ (operator = .not ∨ operator = .is ∨ operator = .existence) ∧
        e = .unsupportedOperator operator := by
  cases negated <;> cases operator <;> simp [ofOperator] at h ⊢ <;> exact h.symm

/-- An operator that cannot be asked of a value cannot be asked of a query. -/
theorem NestedTest.ofOperator_eq_error_iff {negated : Bool} {operator : Operator} {e : Failure} :
    ofOperator negated operator = .error e ↔ DirectTest.ofOperator negated operator = .error e := by
  cases negated <;> cases operator <;> simp [ofOperator, DirectTest.ofOperator]

theorem NestedTest.operator_of_pattern {negated pattern : Bool} {operator : Operator}
    (h : ofOperator negated operator = .ok (.pattern pattern)) : operator = .like := by
  cases negated <;> cases operator <;> simp [ofOperator] at h ⊢

namespace Condition

variable {c : Condition} {e : Failure}

theorem refusal_of_directTest (h : DirectTest.ofOperator c.negated c.operator = .error e) :
    c.Refusal e := by
  rcases DirectTest.ofOperator_eq_error h with ⟨negated, pattern, member, rfl⟩ | ⟨plain, none, rfl⟩
  · exact .negation negated pattern member
  · exact .operator plain none

theorem refusal_of_nestedTest (h : NestedTest.ofOperator c.negated c.operator = .error e) :
    c.Refusal e :=
  refusal_of_directTest (NestedTest.ofOperator_eq_error_iff.mp h)

theorem refusal_of_value (direct : c.nested? = none) (member : c.operator ≠ .member)
    (h : Context.deriveLiteral c.operator c.value = .error e) : c.Refusal e := by
  rcases hvalue : c.value with _ | (n | x | s | use) <;> rw [hvalue] at h <;> cases h
  · exact .value direct member hvalue
  · simp [nested?, hvalue] at direct

theorem refusal_of_upper (direct : c.nested? = none) (between : c.operator = .between)
    (h : Context.deriveLiteral c.operator c.upper = .error e) : c.Refusal e := by
  rcases hupper : c.upper with _ | (n | x | s | use) <;> rw [hupper] at h <;> cases h
  · exact .upper direct between hupper
  · exact .upperQuery direct between hupper

end Condition

/-! ### Derivations -/

section Failure

variable {Bad : Failure → Prop} {wildcard : Logged Nat}

/-- Whatever stops the derivation of a column is bad. -/
def Context.ColumnFailsOnly (context : Context) (wildcard : Logged Nat) (Bad : Failure → Prop)
    (use : ColumnUse) : Prop :=
  ∀ aggregate, (context.deriveColumn wildcard aggregate use).FailsOnly Bad

theorem Query.deriveSelect_failsOnly
    (refused : ∀ e, q.Refusal context.maxConditions e → Bad e)
    (columns : ∀ item ∈ q.selectList.items,
      context.ColumnFailsOnly wildcard Bad item.term.left) :
    (context.deriveSelect wildcard q.selectList).FailsOnly Bad := by
  by_cases hempty : q.selectList.items = []
  · constructor
    intro e he
    rw [Context.deriveSelect_of_empty hempty] at he
    cases he
    exact refused _ (.empty hempty)
  · rw [Context.deriveSelect_of_ne hempty]
    apply Logged.FailsOnly.bind
    · apply Logged.failsOnly_liftM
      intro e he
      obtain ⟨hwide, rfl⟩ := checked_n_eq_error_iff.mp he
      exact refused _ (.width (by omega))
    · intro token _
      apply Logged.FailsOnly.bind
      · exact Logged.failsOnly_mapM fun item hitem => columns item hitem _
      · exact fun leaves _ => Logged.failsOnly_pure _

theorem Query.deriveSort_failsOnly
    (refused : ∀ e, q.Refusal context.maxConditions e → Bad e)
    (sorted : q.limit.isSome ∨ q.sortOrder.isSome)
    (column : ∀ direction key rest, q.sortOrder = some { direction, keys := key :: rest } →
      context.ColumnFailsOnly wildcard Bad key.left) :
    (context.deriveSort wildcard q.sortOrder).FailsOnly Bad := by
  rcases horder : q.sortOrder with _ | ⟨direction, _ | ⟨key, rest⟩⟩
  · have hlimit : q.limit.isSome := sorted.resolve_right (by simp [horder])
    constructor
    intro e he
    cases he
    exact refused _ (.limit hlimit horder)
  · constructor
    intro e he
    cases he
    exact refused _ (.sortKey horder)
  · apply Logged.FailsOnly.bind (column direction key rest horder _)
    exact fun leaf _ => Logged.failsOnly_pure _

theorem Condition.deriveDirect_failsOnly {c : Condition} (direct : c.nested? = none)
    (refused : ∀ e, c.Refusal e → Bad e)
    (column : context.ColumnFailsOnly wildcard Bad c.left.left) :
    (context.deriveDirect wildcard c).FailsOnly Bad := by
  apply Logged.FailsOnly.bind
  · exact Logged.failsOnly_liftM fun e he => refused e (refusal_of_directTest he)
  intro test htest
  apply (column _).bind
  intro leaf _
  -- the test reads one literal, two, or none
  rcases test with test | _ | negated
  · have hmember : c.operator ≠ .member := (DirectTest.ofOperator_value htest).1
    apply Logged.FailsOnly.bind
    · exact Logged.failsOnly_liftM fun e he => refused e (refusal_of_value direct hmember he)
    · exact fun literal _ => Logged.failsOnly_pure _
  · have hbetween : c.operator = .between := DirectTest.ofOperator_between htest
    have hmember : c.operator ≠ .member := by simp [hbetween]
    apply Logged.FailsOnly.bind
    · exact Logged.failsOnly_liftM fun e he => refused e (refusal_of_value direct hmember he)
    intro low _
    apply Logged.FailsOnly.bind
    · exact Logged.failsOnly_liftM fun e he => refused e (refusal_of_upper direct hbetween he)
    · exact fun high _ => Logged.failsOnly_pure _
  · exact Logged.failsOnly_pure _

theorem Condition.deriveNested_failsOnly {c : Condition} {n : Query}
    {root : Logged (Root Literal)} (nested : c.nested? = some n)
    (refused : ∀ e, c.Refusal e → Bad e)
    (column : context.ColumnFailsOnly wildcard Bad c.left.left) (hroot : root.FailsOnly Bad) :
    (context.deriveNested wildcard c root).FailsOnly Bad := by
  apply Logged.FailsOnly.bind
  · exact Logged.failsOnly_liftM fun e he => refused e (refusal_of_nestedTest he)
  intro test htest
  apply (column _).bind
  intro leaf _
  rcases test with test | negated | negated
  · exact hroot.bind fun _ _ => Logged.failsOnly_pure _
  · exact hroot.bind fun _ _ => Logged.failsOnly_pure _
  · have hpattern : c.operator = .like := NestedTest.operator_of_pattern htest
    constructor
    intro e he
    cases he
    exact refused _ (.nesting nested hpattern)

section Joining

variable {ι : Type} {derive : ι → Logged (Filter Literal)}

theorem Junction.join_failsOnly {tree : Junction ι}
    (h : ∀ i ∈ tree.leaves, (derive i).FailsOnly Bad) : (tree.join derive).FailsOnly Bad := by
  induction tree with
  | leaf i => exact h i (List.mem_singleton_self i)
  | and l r hl hr | or l r hl hr =>
    rw [leaves, List.forall_mem_append] at h
    exact (hl h.1).bind fun _ _ => (hr h.2).bind fun _ _ => Logged.failsOnly_pure _

theorem Context.joinConditions_failsOnly {chain : Chain ι}
    (count : 3 < chain.length →
      Bad (.malformed (.conditionCount chain.length chain.connectives.length)))
    (h : ∀ i ∈ chain.items, (derive i).FailsOnly Bad) :
    (joinConditions (chain.map derive)).FailsOnly Bad := by
  rw [joinConditions_eq]
  rcases htree : chain.junction? with _ | tree
  · have hmany : ¬ chain.length ≤ 3 := by
      rw [← chain.isSome_junction?, htree]
      simp
    constructor
    intro e he
    cases he
    exact count (by omega)
  · apply Junction.join_failsOnly
    intro i hi
    rw [Chain.leaves_junction? htree, Chain.mem_written] at hi
    exact h i hi

theorem Context.deriveRestriction_failsOnly {chain : Chain ι}
    (tooMany : context.maxConditions < chain.length →
      Bad (.tooManyConditions chain.length context.maxConditions))
    (count : 3 < chain.length → chain.length ≤ context.maxConditions →
      Bad (.malformed (.conditionCount chain.length chain.connectives.length)))
    (h : ∀ i ∈ chain.items, (derive i).FailsOnly Bad) :
    (context.deriveRestriction (chain.map derive)).FailsOnly Bad := by
  by_cases hmany : context.maxConditions < chain.length
  · constructor
    intro e he
    rw [outcome_deriveRestriction, Chain.length_map, if_pos hmany] at he
    cases he
    exact tooMany hmany
  · apply (joinConditions_failsOnly (fun h3 => count h3 (by omega)) h).of_outcome_eq
    rw [outcome_deriveRestriction, Chain.length_map, if_neg hmany]

end Joining

theorem Context.deriveHaving_failsOnly {chain : Chain (Logged (Filter Literal))}
    (h : chain.head.FailsOnly Bad) : (context.deriveHaving chain).FailsOnly Bad := by
  apply h.of_outcome_eq
  rw [outcome_deriveHaving]

theorem Query.deriveFilter_failsOnly (refused : ∀ e, q.Refusal context.maxConditions e → Bad e)
    (conditions : ∀ c ∈ q.conditions, (Condition.derive context wildcard c).FailsOnly Bad)
    (hfilter : q.restriction.isSome ∨ q.having.isSome) :
    (context.deriveFilter (q.restriction.map (Chain.map (Condition.derive context wildcard)))
      (q.having.map (Chain.map (Condition.derive context wildcard)))).FailsOnly Bad := by
  have hrestriction (chain : Chain Condition) (hchain : q.restriction = some chain) :
      (context.deriveRestriction (chain.map (Condition.derive context wildcard))).FailsOnly
        Bad := by
    apply Context.deriveRestriction_failsOnly
    · exact fun hmany => refused _ (.tooMany hchain hmany)
    · exact fun hmany haccepted => refused _ (.count hchain hmany haccepted)
    · intro c hc
      exact conditions c (mem_conditions.mpr (.inl (by rw [hchain]; exact hc)))
  have hhaving (chain : Chain Condition) (hchain : q.having = some chain) :
      (context.deriveHaving (chain.map (Condition.derive context wildcard))).FailsOnly Bad := by
    apply Context.deriveHaving_failsOnly
    rw [Chain.head_map]
    exact conditions _ (mem_conditions.mpr (.inr ⟨chain, hchain, rfl⟩))
  rcases hwhere : q.restriction with _ | first <;> rcases hgroup : q.having with _ | second
  · simp [hwhere, hgroup] at hfilter
  · exact hhaving second hgroup
  · exact hrestriction first hwhere
  · apply (hrestriction first hwhere).bind
    intro _ _
    apply (hhaving second hgroup).bind
    exact fun _ _ => Logged.failsOnly_pure _

theorem Query.deriveClauses_failsOnly
    {restriction having : Option (Chain (Logged (Filter Literal)))}
    (hselect : (context.deriveSelect (context.wildcardTable q) q.selectList).FailsOnly Bad)
    (hsort : q.shape.hasSort →
      (context.deriveSort (context.wildcardTable q) q.sortOrder).FailsOnly Bad)
    (hfilter : q.shape.hasFilter → (context.deriveFilter restriction having).FailsOnly Bad) :
    (q.deriveClauses context restriction having).FailsOnly Bad := by
  apply hselect.bind
  intro select _
  rcases hshape : q.shape <;> rw [hshape] at hsort hfilter
  case superlativeFilter =>
    exact (hsort rfl).bind fun _ _ => (hfilter rfl).bind fun _ _ => Logged.failsOnly_pure _
  case filterOrder =>
    exact (hfilter rfl).bind fun _ _ => (hsort rfl).bind fun _ _ => Logged.failsOnly_pure _
  case superlative | order => exact (hsort rfl).bind fun _ _ => Logged.failsOnly_pure _
  case filter => exact (hfilter rfl).bind fun _ _ => Logged.failsOnly_pure _
  case plain => exact Logged.failsOnly_pure _

/-- A query fails only for what it or a query nested in it is refused for, and as the columns of
these queries do. -/
theorem Query.derive_failsOnly (q : Query)
    (refused : ∀ n ∈ q.expansion, ∀ e, n.Refusal context.maxConditions e → Bad e)
    (columns : ∀ n ∈ q.expansion, ∀ use ∈ n.encodedColumns,
      context.ColumnFailsOnly (context.wildcardTable n) Bad use) :
    (q.derive context).FailsOnly Bad := by
  induction q using nestedInduction with
  | step q ih =>
    have hrefused := refused q q.mem_expansion_self
    have hcolumns := columns q q.mem_expansion_self
    have hconditions (c : Condition) (hc : c ∈ q.conditions) :
        (Condition.derive context (context.wildcardTable q) c).FailsOnly Bad := by
      have hleft : c.left.left ∈ q.encodedColumns :=
        List.mem_append_right _ (List.mem_map_of_mem hc)
      have hreason (e : Failure) (he : c.Refusal e) : Bad e := hrefused e (.condition hc he)
      rcases hnested : c.nested? with _ | n
      · rw [Condition.derive_of_direct hnested]
        exact Condition.deriveDirect_failsOnly hnested hreason (hcolumns _ hleft)
      · rw [Condition.derive_of_nested hnested]
        apply Condition.deriveNested_failsOnly hnested hreason (hcolumns _ hleft)
        -- what is nested in the nested query is nested in the query
        have hmem {m : Query} (hm : m ∈ n.expansion) : m ∈ q.expansion :=
          mem_expansion.mpr (.inr ⟨c, hc, n, hnested, hm⟩)
        exact ih c hc n hnested (fun m hm => refused m (hmem hm)) fun m hm => columns m (hmem hm)
    rw [derive_eq]
    -- the columns of the clauses that the shape asks for are encoded
    apply deriveClauses_failsOnly
    · apply deriveSelect_failsOnly hrefused
      intro item hitem
      exact hcolumns _ (List.mem_append_left _ (List.mem_append_left _ (List.mem_map_of_mem hitem)))
    · intro hsort
      rw [hasSort_shape, Bool.or_eq_true] at hsort
      apply deriveSort_failsOnly hrefused hsort
      intro direction key rest horder
      exact hcolumns _ (List.mem_append_left _ (List.mem_append_right _ (by simp [horder])))
    · intro hfilter
      rw [hasFilter_shape, Bool.or_eq_true] at hfilter
      exact deriveFilter_failsOnly hrefused hconditions hfilter

/-- With its branch, a query fails only for several set operations, or as the derivations do. -/
theorem Query.encode_failsOnly
    (operations : 1 < q.setOperations.length →
      Bad (.conflictingSetOperations (q.setOperations.map Prod.fst)))
    (refused : ∀ n ∈ q.expanded, ∀ e, n.Refusal context.maxConditions e → Bad e)
    (columns : ∀ n ∈ q.expanded, ∀ use ∈ n.encodedColumns,
      context.ColumnFailsOnly (context.wildcardTable n) Bad use) :
    (q.encode context).FailsOnly Bad := by
  have hderive (n : Query) (hn : n.expansion ⊆ q.expanded) : (n.derive context).FailsOnly Bad :=
    n.derive_failsOnly (fun m hm => refused m (hn hm)) fun m hm => columns m (hn hm)
  have hleft := hderive q (List.subset_append_left _ _)
  have hbranch (branch : SetOperation × Query) (h : branch ∈ q.setOperations) :
      (branch.2.derive context).FailsOnly Bad :=
    hderive _ fun _ hm => List.mem_append_right _ (List.mem_flatMap.mpr ⟨branch, h, hm⟩)
  apply Logged.FailsOnly.bind
  · unfold derivation
    -- no set operation, one, or several
    rcases hoperations : q.setOperations with _ | ⟨⟨operation, branch⟩, _ | ⟨second, rest⟩⟩
    · exact hleft.bind fun _ _ => Logged.failsOnly_pure _
    · apply hleft.bind
      intro _ _
      apply (hbranch (operation, branch) (by simp [hoperations])).bind
      exact fun _ _ => Logged.failsOnly_pure _
    · constructor
      intro e he
      cases he
      rw [hoperations] at operations
      exact operations (by simp)
  · exact fun _ _ => Logged.failsOnly_pure _

/-! ### Columns -/

/-- Whatever a look-up in the schema fails with is bad, and so is the want of a table. -/
structure Schema.FailsOnly (schema : Schema) (Bad : Failure → Prop) : Prop where
  identity : ∀ column e, schema.columnIdentity column = .error e → Bad e
  owner : ∀ column e, schema.tableOf column = .error e → Bad e
  unowned : ∀ column, schema.tableOf column = .ok none → Bad (.unownedColumn column)
  table : ∀ table e, schema.checkTable table = .error e → Bad e
  noTable : Bad (.malformed .noTable)

namespace Schema.FailsOnly

variable {schema : Schema}

theorem owningTable (h : schema.FailsOnly Bad) (column : Nat) :
    (liftM (schema.owningTable column) : Logged Nat).FailsOnly Bad := by
  apply (Logged.failsOnly_liftM (h.owner column)).liftM_bind
  intro owner howner
  apply Logged.failsOnly_liftM
  intro e he
  rcases owner with _ | table
  · cases he
    exact h.unowned column howner
  · cases he

theorem firstTable (h : schema.FailsOnly Bad) (q : Query) :
    (liftM q.firstTable : Logged Nat).FailsOnly Bad := by
  apply Logged.failsOnly_liftM
  intro e he
  unfold Query.firstTable at he
  split at he
  · cases he
  · cases he
    exact h.noTable

theorem remainingTables (h : schema.FailsOnly Bad) (q : Query) :
    (liftM (q.remainingTables schema) : Logged (List Nat)).FailsOnly Bad := by
  apply Logged.FailsOnly.liftM_bind
  · exact Logged.failsOnly_liftM_mapM fun column _ => Logged.failsOnly_liftM (h.owner column)
  · exact fun owners _ => Logged.failsOnly_pure _

theorem groupingTable? (h : schema.FailsOnly Bad) (q : Query) :
    (liftM (q.groupingTable? schema) : Logged (Option Nat)).FailsOnly Bad := by
  unfold Query.groupingTable?
  split
  · exact Logged.failsOnly_pure _
  · exact Logged.failsOnly_liftM (h.owner _)

theorem guessTable (h : schema.FailsOnly Bad) (q : Query) :
    (context.guessTable q).FailsOnly Bad :=
  (h.firstTable q).of_outcome_eq Context.outcome_guessTable

theorem candidateTable (h : context.schema.FailsOnly Bad) (q : Query) :
    (context.candidateTable q).FailsOnly Bad := by
  unfold Context.candidateTable
  split
  · exact h.firstTable q
  · apply (h.remainingTables q).bind
    intro tables _
    split
    · exact Logged.failsOnly_pure _
    · apply (h.groupingTable? q).bind
      intro owner _
      split
      · exact Logged.failsOnly_pure _
      · exact h.guessTable q
    · exact h.guessTable q

/-- A column fails only as look-ups do. -/
theorem column (h : context.schema.FailsOnly Bad) (q : Query) (use : ColumnUse) :
    context.ColumnFailsOnly (context.wildcardTable q) Bad use := by
  intro aggregate
  rw [Context.deriveColumn_eq, Context.lookUpTable, Context.wildcardTable]
  apply (Logged.failsOnly_liftM (h.identity use.column)).bind
  intro identity _
  apply Logged.FailsOnly.bind
  · split_ifs
    · apply (h.candidateTable q).bind
      exact fun table _ => Logged.failsOnly_liftM (h.table table)
    · exact h.owningTable use.column
  · exact fun table _ => Logged.failsOnly_pure _

end Schema.FailsOnly

end Failure

/-! ### All failures -/

/-- The failure is that of a look-up. -/
inductive Failure.OfLookUp : Failure → Prop
  | column (id : Nat) : OfLookUp (.unknownColumn id)
  | table (id : Nat) : OfLookUp (.unknownTable id)
  | unowned (id : Nat) : OfLookUp (.unownedColumn id)
  | noTable : OfLookUp (.malformed .noTable)

theorem Schema.failsOnly_ofLookUp (schema : Schema) : schema.FailsOnly Failure.OfLookUp where
  identity column e h := by
    unfold columnIdentity at h
    split at h <;> cases h
    exact .column column
  owner column e h := by
    unfold tableOf at h
    split at h <;> cases h
    exact .column column
  unowned column _ := .unowned column
  table table e h := by
    obtain ⟨-, rfl⟩ := checkTable_eq_error_iff.mp h
    exact .table table
  noTable := .noTable

/-- Why a query has no encoding. -/
inductive Query.Reason (maxConditions : Nat) (q : Query) : Failure → Prop
  | operations (several : 1 < q.setOperations.length) :
      Reason maxConditions q (.conflictingSetOperations (q.setOperations.map Prod.fst))
  | refused {n : Query} {e : Failure} (expanded : n ∈ q.expanded)
      (refusal : n.Refusal maxConditions e) : Reason maxConditions q e
  | lookUp {e : Failure} (lookUp : e.OfLookUp) : Reason maxConditions q e

/-- **Every failure has its reason in the query**: its set operations, a query that is expanded and
refused, or a look-up. -/
theorem Query.reason_of_encode {e : Failure} (h : (q.encode context).outcome = .error e) :
    q.Reason context.maxConditions e := by
  have hreason : (q.encode context).FailsOnly (q.Reason context.maxConditions) := by
    apply encode_failsOnly
    · exact .operations
    · exact fun n hn e he => .refused hn he
    · intro n _ use _ aggregate
      have hcolumn := context.schema.failsOnly_ofLookUp.column n use aggregate
      exact ⟨fun e he => .lookUp (hcolumn.of_error e he)⟩
  exact hreason.of_error e h

end QueryGrammar
