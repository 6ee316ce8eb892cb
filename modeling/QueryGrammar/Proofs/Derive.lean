/-
QueryGrammar/Proofs/Derive.lean

What the derivation of a query is made of.

Each clause is derived to a part of which a relation says what it stands for: `Represents` for
select lists and sort keys, `Condition.DerivesTo` with one case for each form of a condition, and
`Query.DerivesTo` for a whole query, whose filter has one leaf for each written condition, in
order, and joins them as the query does.  A derivation that succeeds stands in these relations
(`Query.derivesTo_of_derive`), and proofs about derivations read them instead of the functions.
-/
import QueryGrammar.Proofs.Junction
import QueryGrammar.Proofs.Lookup
import QueryGrammar.Proofs.Parts

namespace QueryGrammar

variable {context : Context} {q : Query}

/-! ### Related lists -/

section Lists

variable {α β γ : Type} {R : α → β → Prop} {l : List α} {l' : List β}

theorem exists_right_of_forall₂ {a : α} (h : List.Forall₂ R l l') (ha : a ∈ l) :
    ∃ b ∈ l', R a b := by
  induction h with
  | nil => simp at ha
  | @cons a' b l l' hab _ ih =>
    rcases List.mem_cons.mp ha with rfl | ha
    · exact ⟨b, List.mem_cons_self, hab⟩
    · obtain ⟨b', hb', hab'⟩ := ih ha
      exact ⟨b', List.mem_cons_of_mem _ hb', hab'⟩

theorem exists_left_of_forall₂ {b : β} (h : List.Forall₂ R l l') (hb : b ∈ l') :
    ∃ a ∈ l, R a b :=
  exists_right_of_forall₂ h.flip hb

theorem forall₂_append_of_length_eq {l₁ l₂ : List α} {u₁ u₂ : List β}
    (hlength : l₁.length = u₁.length) (h : List.Forall₂ R (l₁ ++ l₂) (u₁ ++ u₂)) :
    List.Forall₂ R l₁ u₁ ∧ List.Forall₂ R l₂ u₂ := by
  induction l₁ generalizing u₁ with
  | nil =>
    rw [List.length_eq_zero_iff.mp hlength.symm] at h ⊢
    exact ⟨.nil, h⟩
  | cons a l₁ ih =>
    rcases u₁ with _ | ⟨b, u₁⟩
    · simp at hlength
    · rw [List.cons_append, List.cons_append, List.forall₂_cons] at h
      obtain ⟨h₁, h₂⟩ := ih (Nat.succ.inj hlength) h.2
      exact ⟨.cons h.1 h₁, h₂⟩

theorem flatMap_eq_of_forall₂ {f : α → List γ} {g : β → List γ} (h : List.Forall₂ R l l')
    (hfg : ∀ a b, R a b → f a = g b) : l.flatMap f = l'.flatMap g := by
  induction h with
  | nil => rfl
  | cons hab _ ih => rw [List.flatMap_cons, List.flatMap_cons, hfg _ _ hab, ih]

end Lists

/-! ### Equations of the recursion -/

theorem deriveChain_eq_map (wildcard : Logged Nat) (chain : Chain Condition) :
    deriveChain context wildcard chain = chain.map (Condition.derive context wildcard) := by
  induction chain with
  | last c => rw [deriveChain, Chain.map]
  | link c connective rest ih => rw [deriveChain, Chain.map, ih]

theorem deriveConditions_eq_map (wildcard : Logged Nat) (body : Option (Chain Condition)) :
    deriveConditions context wildcard body =
      body.map (Chain.map (Condition.derive context wildcard)) := by
  rcases body with _ | chain
  · rw [deriveConditions, Option.map_none]
  · rw [deriveConditions, Option.map_some, deriveChain_eq_map]

theorem Query.derive_eq (context : Context) (q : Query) : q.derive context =
    q.deriveClauses context
      (q.restriction.map (Chain.map (Condition.derive context (context.wildcardTable q))))
      (q.having.map (Chain.map (Condition.derive context (context.wildcardTable q)))) := by
  rcases q with ⟨⟩
  rw [Query.derive]
  simp only [deriveConditions_eq_map]

/-- The derivation of a query depends on its clauses, not on its set operations. -/
theorem Query.derive_congr {q q' : Query} (selectList : q.selectList = q'.selectList)
    (sources : q.sources = q'.sources) (restriction : q.restriction = q'.restriction)
    (having : q.having = q'.having) (groupBy : q.groupBy = q'.groupBy)
    (sortOrder : q.sortOrder = q'.sortOrder) (limit : q.limit = q'.limit) :
    q.derive context = q'.derive context := by
  have hwildcard : context.wildcardTable q = context.wildcardTable q' := by
    apply Context.wildcardTable_congr
    · rw [sources]
    · rw [tables, tables, sources]
    · exact firstTable?_congr sources
    · rw [telltaleColumns, telltaleColumns, selectList, restriction]
    · rw [groupBy]
  rw [derive_eq, derive_eq, deriveClauses, deriveClauses, shape, shape, hwildcard, selectList,
    restriction, having, sortOrder, limit]

theorem Condition.derive_of_nested {wildcard : Logged Nat} {c : Condition} {n : Query}
    (h : c.nested? = some n) : Condition.derive context wildcard c =
      context.deriveNested wildcard c (n.derive context) := by
  rcases c with ⟨negated, operator, left, _ | (q | x | s | use), upper⟩ <;>
    simp only [nested?, Option.some.injEq, reduceCtorEq] at h
  subst h
  rw [Condition.derive]

theorem Condition.derive_of_direct {wildcard : Logged Nat} {c : Condition}
    (h : c.nested? = none) : Condition.derive context wildcard c =
      context.deriveDirect wildcard c := by
  rcases c with ⟨negated, operator, left, _ | (q | x | s | use), upper⟩ <;>
    simp only [nested?, reduceCtorEq] at h <;> rw [Condition.derive] <;> simp

/-! ### Select lists and sort keys -/

/-- The part stands for the select list of the query. -/
structure SelectNode.Represents (schema : Schema) (q : Query) (select : SelectNode) : Prop where
  one_le_width : 1 ≤ q.selectList.items.length
  width_le : q.selectList.items.length ≤ 5
  distinct : select.distinct =
    (q.selectList.distinct || q.selectList.items.any (·.term.left.distinct))
  columns : List.Forall₂
    (fun item leaf => leaf.Represents schema q item.aggregate item.term.left)
    q.selectList.items select.columns

/-- The part stands for the first sort key of the query. -/
inductive SortNode.Represents (schema : Schema) (q : Query) : SortNode → Prop
  | first {direction : Direction} {key : Term} {rest : List Term} {leaf : Column}
      (order : q.sortOrder = some { direction, keys := key :: rest })
      (column : leaf.Represents schema q key.left.aggregate key.left) :
      Represents schema q { direction, column := leaf }

theorem checked_n_eq_ok_iff {width : Nat} {token : Token} :
    (Token.mk .n width).checked = .ok token ↔ token = ⟨.n, width⟩ ∧ width < 5 := by
  simp only [Token.checked, Symbol.productions?]
  split_ifs with h <;> simp [h, eq_comm]

theorem checked_n_eq_error_iff {width : Nat} {e : Failure} :
    (Token.mk .n width).checked = .error e ↔ 5 ≤ width ∧ e = .choiceOutOfRange .n width 5 := by
  simp only [Token.checked, Symbol.productions?]
  split_ifs with h
  · simp [Nat.not_le.mpr h]
  · simp [Nat.not_lt.mp h, eq_comm]

theorem Context.deriveSelect_of_empty {wildcard : Logged Nat} {list : SelectList}
    (h : list.items = []) :
    (context.deriveSelect wildcard list).outcome = .error (.malformed .emptySelectList) := by
  simp only [deriveSelect, h, List.isEmpty_nil, if_true]
  rfl

theorem Context.deriveSelect_of_ne {wildcard : Logged Nat} {list : SelectList}
    (h : list.items ≠ []) : context.deriveSelect wildcard list =
      (liftM (Token.mk .n (list.items.length - 1)).checked >>= fun _ =>
        (list.items.mapM fun item =>
          context.deriveColumn wildcard item.aggregate item.term.left) >>= fun columns =>
        pure { distinct := list.distinct || list.items.any (·.term.left.distinct), columns }) := by
  have hempty : list.items.isEmpty = false := by simpa using h
  simp only [deriveSelect, hempty, Bool.false_eq_true, if_false]

theorem deriveSelect_eq_ok_iff {select : SelectNode} :
    (context.deriveSelect (context.wildcardTable q) q.selectList).outcome = .ok select ↔
      select.Represents context.schema q := by
  by_cases hempty : q.selectList.items = []
  · rw [Context.deriveSelect_of_empty hempty]
    constructor
    · intro h
      cases h
    · intro h
      simpa [hempty] using h.one_le_width
  · have hpos : 0 < q.selectList.items.length := List.length_pos_iff.mpr hempty
    simp only [Context.deriveSelect_of_ne hempty, Logged.outcome_bind_eq_ok_iff,
      Logged.outcome_liftM, checked_n_eq_ok_iff, Logged.outcome_mapM_eq_ok_iff,
      Context.deriveColumn_eq_ok_iff, Logged.outcome_pure, Except.ok.injEq]
    constructor
    · rintro ⟨token, ⟨rfl, hwidth⟩, columns, hcolumns, rfl⟩
      exact ⟨hpos, by omega, rfl, hcolumns⟩
    · rintro ⟨-, hwidth, hdistinct, hcolumns⟩
      refine ⟨_, ⟨rfl, by omega⟩, _, hcolumns, ?_⟩
      rw [← hdistinct]

theorem deriveSort_eq_ok_iff {sort : SortNode} :
    (context.deriveSort (context.wildcardTable q) q.sortOrder).outcome = .ok sort ↔
      sort.Represents context.schema q := by
  constructor
  · intro h
    rcases horder : q.sortOrder with _ | ⟨direction, _ | ⟨key, rest⟩⟩
    · simp [Context.deriveSort, horder] at h
    · simp [Context.deriveSort, horder] at h
    · simp only [Context.deriveSort, horder, Logged.outcome_bind_eq_ok_iff,
        Context.deriveColumn_eq_ok_iff, Logged.outcome_pure, Except.ok.injEq] at h
      obtain ⟨leaf, hleaf, rfl⟩ := h
      exact .first horder hleaf
  · rintro ⟨horder, hleaf⟩
    simp only [Context.deriveSort, horder, Logged.outcome_bind_eq_ok_iff,
      Context.deriveColumn_eq_ok_iff, Logged.outcome_pure, Except.ok.injEq]
    exact ⟨_, hleaf, rfl⟩

/-! ### Conditions -/

/-- The literal that an operand is, if it is there and no query. -/
def Operand.literal? (operand : Option Operand) : Option Literal :=
  operand.bind fun o => (Literal.ofOperand o).toOption

theorem deriveLiteral_eq_ok_iff {operator : Operator} {operand : Option Operand}
    {literal : Literal} : Context.deriveLiteral operator operand = .ok literal ↔
      Operand.literal? operand = some literal := by
  rcases operand with _ | o
  · simp [Context.deriveLiteral, Operand.literal?]
  · rcases h : Literal.ofOperand o with e | literal' <;>
      simp [Context.deriveLiteral, Operand.literal?, h, Except.toOption]

theorem DirectTest.ofOperator_value {negated : Bool} {operator : Operator} {test : ValueTest}
    (h : ofOperator negated operator = .ok (.value test)) :
    operator ≠ .member ∧ operator ≠ .between := by
  cases negated <;> cases operator <;> simp [ofOperator] at h ⊢

theorem DirectTest.ofOperator_between {negated : Bool} {operator : Operator}
    (h : ofOperator negated operator = .ok .between) : operator = .between := by
  cases negated <;> cases operator <;> simp [ofOperator] at h ⊢

theorem DirectTest.ofOperator_member {negated member : Bool} {operator : Operator}
    (h : ofOperator negated operator = .ok (.member member)) : operator = .member := by
  cases negated <;> cases operator <;> simp [ofOperator] at h ⊢

/-- The filter stands for a condition of the query, in one of the forms of the grammar. -/
inductive Condition.DerivesTo (context : Context) (q : Query) (c : Condition) :
    Filter Literal → Prop
  | value {test : ValueTest} {leaf : Column} {literal : Literal} (direct : c.nested? = none)
      (operator : DirectTest.ofOperator c.negated c.operator = .ok (.value test))
      (column : leaf.Represents context.schema q c.left.left.aggregate c.left.left)
      (operand : Operand.literal? c.value = some literal) :
      DerivesTo context q c (.value test leaf literal)
  | between {leaf : Column} {low high : Literal} (direct : c.nested? = none)
      (operator : DirectTest.ofOperator c.negated c.operator = .ok .between)
      (column : leaf.Represents context.schema q c.left.left.aggregate c.left.left)
      (operand : Operand.literal? c.value = some low)
      (upper : Operand.literal? c.upper = some high) :
      DerivesTo context q c (.between leaf low high)
  | member {negated : Bool} {leaf : Column} (direct : c.nested? = none)
      (operator : DirectTest.ofOperator c.negated c.operator = .ok (.member negated))
      (column : leaf.Represents context.schema q c.left.left.aggregate c.left.left) :
      DerivesTo context q c (.member negated leaf)
  | query {test : QueryTest} {leaf : Column} {n : Query} {root : Root Literal}
      (nested : c.nested? = some n)
      (operator : NestedTest.ofOperator c.negated c.operator = .ok (.query test))
      (column : leaf.Represents context.schema q c.left.left.aggregate c.left.left)
      (derivation : (n.derive context).outcome = .ok root) :
      DerivesTo context q c (.query test leaf root)
  | memberOf {negated : Bool} {leaf : Column} {n : Query} {root : Root Literal}
      (nested : c.nested? = some n)
      (operator : NestedTest.ofOperator c.negated c.operator = .ok (.member negated))
      (column : leaf.Represents context.schema q c.left.left.aggregate c.left.left)
      (derivation : (n.derive context).outcome = .ok root) :
      DerivesTo context q c (.memberOf negated leaf root)

namespace Condition

variable {c : Condition} {f : Filter Literal}

theorem derivesTo_of_deriveDirect (direct : c.nested? = none)
    (h : (context.deriveDirect (context.wildcardTable q) c).outcome = .ok f) :
    c.DerivesTo context q f := by
  simp only [Context.deriveDirect, Logged.outcome_bind_eq_ok_iff, Logged.outcome_liftM,
    Context.deriveColumn_eq_ok_iff] at h
  obtain ⟨test, htest, leaf, hleaf, h⟩ := h
  rcases test with test | _ | negated
  · simp only [Logged.outcome_bind_eq_ok_iff, Logged.outcome_liftM, deriveLiteral_eq_ok_iff,
      Logged.outcome_pure, Except.ok.injEq] at h
    obtain ⟨literal, hliteral, rfl⟩ := h
    exact .value direct htest hleaf hliteral
  · simp only [Logged.outcome_bind_eq_ok_iff, Logged.outcome_liftM, deriveLiteral_eq_ok_iff,
      Logged.outcome_pure, Except.ok.injEq] at h
    obtain ⟨low, hlow, high, hhigh, rfl⟩ := h
    exact .between direct htest hleaf hlow hhigh
  · simp only [Logged.outcome_pure, Except.ok.injEq] at h
    subst h
    exact .member direct htest hleaf

theorem derivesTo_of_deriveNested {n : Query} (nested : c.nested? = some n)
    (h : (context.deriveNested (context.wildcardTable q) c (n.derive context)).outcome = .ok f) :
    c.DerivesTo context q f := by
  simp only [Context.deriveNested, Logged.outcome_bind_eq_ok_iff, Logged.outcome_liftM,
    Context.deriveColumn_eq_ok_iff] at h
  obtain ⟨test, htest, leaf, hleaf, h⟩ := h
  rcases test with test | negated | negated
  · simp only [Logged.outcome_bind_eq_ok_iff, Logged.outcome_pure, Except.ok.injEq] at h
    obtain ⟨root, hroot, rfl⟩ := h
    exact .query nested htest hleaf hroot
  · simp only [Logged.outcome_bind_eq_ok_iff, Logged.outcome_pure, Except.ok.injEq] at h
    obtain ⟨root, hroot, rfl⟩ := h
    exact .memberOf nested htest hleaf hroot
  · simp at h

theorem derivesTo_of_derive
    (h : (Condition.derive context (context.wildcardTable q) c).outcome = .ok f) :
    c.DerivesTo context q f := by
  rcases hnested : c.nested? with _ | n
  · rw [derive_of_direct hnested] at h
    exact derivesTo_of_deriveDirect hnested h
  · rw [derive_of_nested hnested] at h
    exact derivesTo_of_deriveNested hnested h

/-- A condition is derived to a filter that joins no others. -/
theorem DerivesTo.leaves_eq (h : c.DerivesTo context q f) : f.leaves = [f] := by
  cases h <;> simp [Filter.leaves]

/-- The leaf of a condition has one column, that of the condition. -/
theorem DerivesTo.exists_column (h : c.DerivesTo context q f) : ∃ leaf, f.columns = [leaf] ∧
    leaf.Represents context.schema q c.left.left.aggregate c.left.left := by
  cases h with
  | value _ _ column | between _ _ column | member _ _ column | query _ _ column
  | memberOf _ _ column => exact ⟨_, by rw [Filter.columns], column⟩

end Condition

/-! ### Filters -/

/-- The filter joins leaves that stand for conditions of the query, each for its own, so that it
holds exactly if the conditions do. -/
structure Filter.Joins (context : Context) (q : Query) (conditions : List Condition)
    (holds : (Condition → Bool) → Bool) (f : Filter Literal) : Prop where
  leaves : List.Forall₂ (fun c leaf => c.DerivesTo context q leaf) conditions f.leaves
  eval : ∀ (w : Condition → Bool) (v : Filter Literal → Bool),
    List.Forall₂ (fun c leaf => v leaf = w c) conditions f.leaves → f.eval v = holds w

namespace Filter.Joins

variable {f g : Filter Literal} {cs ds : List Condition}
  {holds holds' : (Condition → Bool) → Bool}

theorem congr (h : f.Joins context q cs holds) (heq : ∀ w, holds w = holds' w) :
    f.Joins context q cs holds' where
  leaves := h.leaves
  eval w v hv := by rw [h.eval w v hv, heq]

theorem both (hf : f.Joins context q cs holds) (hg : g.Joins context q ds holds') :
    (Filter.both f g).Joins context q (cs ++ ds) fun w => holds w && holds' w where
  leaves := List.rel_append hf.leaves hg.leaves
  eval w v hv := by
    obtain ⟨hvf, hvg⟩ := forall₂_append_of_length_eq hf.leaves.length_eq hv
    rw [Filter.eval, hf.eval w v hvf, hg.eval w v hvg]

theorem either (hf : f.Joins context q cs holds) (hg : g.Joins context q ds holds') :
    (Filter.either f g).Joins context q (cs ++ ds) fun w => holds w || holds' w where
  leaves := List.rel_append hf.leaves hg.leaves
  eval w v hv := by
    obtain ⟨hvf, hvg⟩ := forall₂_append_of_length_eq hf.leaves.length_eq hv
    rw [Filter.eval, hf.eval w v hvf, hg.eval w v hvg]

end Filter.Joins

/-- The leaf of a condition holds exactly if the condition does. -/
theorem Condition.DerivesTo.joins {c : Condition} {f : Filter Literal}
    (h : c.DerivesTo context q f) : f.Joins context q [c] fun w => w c where
  leaves := by
    rw [h.leaves_eq]
    exact .cons h .nil
  eval w v hv := by
    rw [h.leaves_eq, List.forall₂_cons] at hv
    rw [← hv.1]
    cases h <;> rfl

theorem Junction.Builds.joins {tree : Junction Condition} {f : Filter Literal}
    (h : tree.Builds (Condition.derive context (context.wildcardTable q)) f) :
    f.Joins context q tree.leaves fun w => tree.eval w := by
  induction h with
  | leaf derived => exact (Condition.derivesTo_of_derive derived).joins
  | and _ _ hl hr => exact hl.both hr
  | or _ _ hl hr => exact hl.either hr

/-- The filter of a query joins leaves for its written conditions, in order. -/
theorem joins_of_deriveFilter {f : Filter Literal}
    (h : (context.deriveFilter
      (q.restriction.map (Chain.map (Condition.derive context (context.wildcardTable q))))
      (q.having.map (Chain.map (Condition.derive context (context.wildcardTable q))))).outcome =
        .ok f) :
    (Conditions.items q.restriction).length ≤ min context.maxConditions 3 ∧
      f.Joins context q q.conditions fun w => q.holds w := by
  obtain ⟨hcount, tree, hbuilds, hleaves, heval⟩ := exists_builds_of_deriveFilter h
  have hconditions : tree.leaves = q.conditions := hleaves
  constructor
  · rcases hrestriction : q.restriction with _ | chain
    · exact Nat.zero_le _
    · exact hcount chain hrestriction
  · rw [← hconditions]
    exact hbuilds.joins.congr heval

/-! ### Queries -/

/-- Whether a shape has a sort key. -/
def Shape.hasSort : Shape → Bool
  | .superlativeFilter | .filterOrder | .superlative | .order => true
  | .filter | .plain => false

/-- Whether a shape has a filter. -/
def Shape.hasFilter : Shape → Bool
  | .superlativeFilter | .filterOrder | .filter => true
  | .superlative | .order | .plain => false

theorem Query.hasSort_shape (q : Query) :
    q.shape.hasSort = (q.limit.isSome || q.sortOrder.isSome) := by
  rcases hlimit : q.limit.isSome <;> rcases hsort : q.sortOrder.isSome <;>
    rcases hfilter : (q.restriction.isSome || q.having.isSome) <;>
    simp [shape, Shape.ofFlags, Shape.hasSort, hlimit, hsort, hfilter]

theorem Query.hasFilter_shape (q : Query) :
    q.shape.hasFilter = (q.restriction.isSome || q.having.isSome) := by
  rcases hlimit : q.limit.isSome <;> rcases hsort : q.sortOrder.isSome <;>
    rcases hfilter : (q.restriction.isSome || q.having.isSome) <;>
    simp [shape, Shape.ofFlags, Shape.hasFilter, hlimit, hsort, hfilter]

theorem Root.isSome_sort? {α : Type} (r : Root α) : r.sort?.isSome = r.shape.hasSort := by
  cases r <;> rfl

theorem Root.isSome_filter? {α : Type} (r : Root α) : r.filter?.isSome = r.shape.hasFilter := by
  cases r <;> rfl

/-- The derivation stands for the query, clause by clause. -/
structure Query.DerivesTo (context : Context) (q : Query) (r : Root Literal) : Prop where
  shape : r.shape = q.shape
  select : r.select.Represents context.schema q
  sort : ∀ k, r.sort? = some k → k.Represents context.schema q
  count : (Conditions.items q.restriction).length ≤ min context.maxConditions 3
  leaves : List.Forall₂ (fun c leaf => c.DerivesTo context q leaf) q.conditions r.leaves
  eval : ∀ (w : Condition → Bool) (v : Filter Literal → Bool),
    List.Forall₂ (fun c leaf => v leaf = w c) q.conditions r.leaves → r.eval v = q.holds w

theorem clauses_of_deriveClauses
    {restriction having : Option (Chain (Logged (Filter Literal)))} {r : Root Literal}
    (h : (q.deriveClauses context restriction having).outcome = .ok r) :
    r.shape = q.shape ∧
      (context.deriveSelect (context.wildcardTable q) q.selectList).outcome = .ok r.select ∧
      (∀ k, r.sort? = some k →
        (context.deriveSort (context.wildcardTable q) q.sortOrder).outcome = .ok k) ∧
      ∀ f, r.filter? = some f → (context.deriveFilter restriction having).outcome = .ok f := by
  unfold Query.deriveClauses at h
  obtain ⟨s, hs, h⟩ := Logged.outcome_bind_eq_ok_iff.mp h
  -- each shape derives its own clauses, in its own order
  rcases hshape : q.shape <;>
    simp only [hshape, Logged.outcome_bind_eq_ok_iff, Logged.outcome_pure, Except.ok.injEq] at h
  case superlativeFilter =>
    obtain ⟨k, hk, f, hf, rfl⟩ := h
    exact ⟨rfl, hs, by rintro _ ⟨⟩; exact hk, by rintro _ ⟨⟩; exact hf⟩
  case filterOrder =>
    obtain ⟨f, hf, k, hk, rfl⟩ := h
    exact ⟨rfl, hs, by rintro _ ⟨⟩; exact hk, by rintro _ ⟨⟩; exact hf⟩
  case superlative =>
    obtain ⟨k, hk, rfl⟩ := h
    exact ⟨rfl, hs, by rintro _ ⟨⟩; exact hk, by rintro _ ⟨⟩⟩
  case filter =>
    obtain ⟨f, hf, rfl⟩ := h
    exact ⟨rfl, hs, by rintro _ ⟨⟩, by rintro _ ⟨⟩; exact hf⟩
  case order =>
    obtain ⟨k, hk, rfl⟩ := h
    exact ⟨rfl, hs, by rintro _ ⟨⟩; exact hk, by rintro _ ⟨⟩⟩
  case plain =>
    subst h
    exact ⟨rfl, hs, by rintro _ ⟨⟩, by rintro _ ⟨⟩⟩

/-- **A derivation stands for its query**, clause by clause and condition by condition. -/
theorem Query.derivesTo_of_derive {r : Root Literal} (h : (q.derive context).outcome = .ok r) :
    q.DerivesTo context r := by
  rw [Query.derive_eq] at h
  obtain ⟨hshape, hselect, hsort, hfilter⟩ := clauses_of_deriveClauses h
  have hshaped : r.filter?.isSome = (q.restriction.isSome || q.having.isSome) := by
    rw [Root.isSome_filter?, hshape, hasFilter_shape]
  rcases hf : r.filter? with _ | f
  · -- no filter in the shape: there are no conditions to stand for
    have hnone : q.restriction = none ∧ q.having = none := by
      simpa [hf] using hshaped
    exact {
      shape := hshape
      select := deriveSelect_eq_ok_iff.mp hselect
      sort := fun k hk => deriveSort_eq_ok_iff.mp (hsort k hk)
      count := by simp [Conditions.items, hnone]
      leaves := by simp [conditions, Root.leaves, hf, hnone]
      eval := by simp [holds, Root.eval, hf, hnone] }
  · obtain ⟨hcount, hjoins⟩ := joins_of_deriveFilter (hfilter f hf)
    exact {
      shape := hshape
      select := deriveSelect_eq_ok_iff.mp hselect
      sort := fun k hk => deriveSort_eq_ok_iff.mp (hsort k hk)
      count := hcount
      leaves := by simpa [Root.leaves, hf] using hjoins.leaves
      eval := by simpa [Root.leaves, Root.eval, hf] using hjoins.eval }

/-- The columns of the select list stand, in order, for those of the query. -/
theorem Query.DerivesTo.selectColumns {r : Root Literal} (h : q.DerivesTo context r) :
    List.Forall₂ (fun use leaf => ∃ aggregate, leaf.Represents context.schema q aggregate use)
      (q.selectList.items.map (·.term.left)) r.select.columns := by
  rw [List.forall₂_map_left_iff]
  exact h.select.columns.imp fun item leaf hleaf => ⟨item.aggregate, hleaf⟩

/-- The column of the sort key, if there is one, stands for that of the query. -/
theorem Query.DerivesTo.sortColumn {r : Root Literal} (h : q.DerivesTo context r) :
    List.Forall₂ (fun use leaf => ∃ aggregate, leaf.Represents context.schema q aggregate use)
      (q.sortOrder.bind fun order => order.keys.head?.map Term.left).toList
      (r.sort?.map SortNode.column).toList := by
  rcases hk : r.sort? with _ | k
  · -- a shape without a sort key is that of a query without an order
    have hnone : q.sortOrder = none := by
      have hhas := q.hasSort_shape
      rw [← h.shape, ← Root.isSome_sort?, hk] at hhas
      simpa using (Bool.or_eq_false_iff.mp hhas.symm).2
    rw [hnone]
    exact .nil
  · cases h.sort k hk with
    | first order column =>
      rw [order]
      exact .cons ⟨_, column⟩ .nil

/-- The columns of the derivation of a query stand, in order, for those that are encoded. -/
theorem Query.DerivesTo.columns {r : Root Literal} (h : q.DerivesTo context r) :
    List.Forall₂ (fun use leaf => ∃ aggregate, leaf.Represents context.schema q aggregate use)
      q.encodedColumns r.columns := by
  -- those of the select list, of the sort key and of the conditions
  apply List.rel_append (List.rel_append h.selectColumns h.sortColumn)
  rw [List.map_eq_flatMap]
  apply List.rel_flatMap h.leaves
  intro c f hf
  obtain ⟨leaf, hcolumns, hleaf⟩ := hf.exists_column
  rw [hcolumns]
  exact .cons ⟨_, hleaf⟩ .nil

/-- The derivations within the derivation of a query are those that the queries of its expansion
have. -/
theorem Query.derive_expansion (q : Query) {r : Root Literal}
    (h : (q.derive context).outcome = .ok r) :
    List.Forall₂ (fun n r => (n.derive context).outcome = .ok r) q.expansion r.roots := by
  induction q using nestedInduction generalizing r with
  | step q ih =>
    have hr := derivesTo_of_derive h
    rw [expansion_eq, Root.roots_eq]
    refine .cons h ?_
    -- along the conditions and their leaves, with the induction hypothesis at each condition
    refine List.rel_flatMap ((List.forall₂_and_left _ _).mpr ⟨ih, hr.leaves⟩) ?_
    rintro c f ⟨ihc, hf⟩
    dsimp only
    cases hf with
    | value direct | between direct | member direct =>
      rw [direct, Filter.roots]
      exact .nil
    | query nested _ _ derivation | memberOf nested _ _ derivation =>
      rw [nested, Filter.roots]
      exact ihc _ nested derivation

/-- Each of them stands for its own query. -/
theorem Query.derivesTo_expansion (q : Query) {r : Root Literal}
    (h : (q.derive context).outcome = .ok r) :
    List.Forall₂ (fun n r => n.DerivesTo context r) q.expansion r.roots :=
  (q.derive_expansion h).imp fun _ _ => derivesTo_of_derive

/-! ### Set operations -/

/-- The derivation is that of the query, and of its branch if it has a set operation. -/
inductive Query.DerivedAs (context : Context) (q : Query) : Derivation Literal → Prop
  | single {r : Root Literal} (operations : q.setOperations = [])
      (root : (q.derive context).outcome = .ok r) : DerivedAs context q (.single r)
  | combined {operation : SetOperation} {branch : Query} {l r : Root Literal}
      (operations : q.setOperations = [(operation, branch)])
      (left : (q.derive context).outcome = .ok l)
      (right : (branch.derive context).outcome = .ok r) :
      DerivedAs context q (.combined operation l r)

theorem Query.derivation_eq_ok_iff {d : Derivation Literal} :
    (q.derivation context).outcome = .ok d ↔ q.DerivedAs context d := by
  constructor
  · intro h
    unfold derivation at h
    rcases hoperations : q.setOperations with _ | ⟨⟨operation, branch⟩, _ | ⟨other, rest⟩⟩
    · simp only [hoperations, Logged.outcome_bind_eq_ok_iff, Logged.outcome_pure,
        Except.ok.injEq] at h
      obtain ⟨r, hr, rfl⟩ := h
      exact .single hoperations hr
    · simp only [hoperations, Logged.outcome_bind_eq_ok_iff, Logged.outcome_pure,
        Except.ok.injEq] at h
      obtain ⟨l, hl, r, hr, rfl⟩ := h
      exact .combined hoperations hl hr
    · -- a second set operation is refused
      simp [hoperations] at h
  · intro h
    unfold derivation
    cases h with
    | single hoperations hr =>
      simp only [hoperations, Logged.outcome_bind_eq_ok_iff]
      exact ⟨_, hr, rfl⟩
    | combined hoperations hl hr =>
      simp only [hoperations, Logged.outcome_bind_eq_ok_iff]
      exact ⟨_, hl, _, hr, rfl⟩

/-- The derivations within the derivation of a query with its set operation are those that the
expanded queries have. -/
theorem Query.DerivedAs.derive_expanded {d : Derivation Literal} (h : q.DerivedAs context d) :
    List.Forall₂ (fun n r => (n.derive context).outcome = .ok r) q.expanded d.roots := by
  cases h with
  | single operations root =>
    simpa [expanded, operations, Derivation.roots] using q.derive_expansion root
  | combined operations left right =>
    simpa [expanded, operations, Derivation.roots] using
      List.rel_append (q.derive_expansion left) (derive_expansion _ right)

theorem Query.DerivedAs.derivesTo_expanded {d : Derivation Literal} (h : q.DerivedAs context d) :
    List.Forall₂ (fun n r => n.DerivesTo context r) q.expanded d.roots :=
  h.derive_expanded.imp fun _ _ => derivesTo_of_derive

theorem Query.encode_eq_ok_iff {e : Encoding} :
    (q.encode context).outcome = .ok e ↔
      ∃ d, q.DerivedAs context d ∧ e = Encoding.ofDerivation d := by
  rw [encode, Logged.outcome_bind_eq_ok_iff]
  simp only [derivation_eq_ok_iff, Logged.outcome_pure, Except.ok.injEq, eq_comm (a := e)]

end QueryGrammar
