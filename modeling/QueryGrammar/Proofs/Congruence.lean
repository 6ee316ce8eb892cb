/-
QueryGrammar/Proofs/Congruence.lean

Relations between derivations that deriving respects.

Two queries often differ in a few places only, and what is derived for them differs there in a way
that does not matter for some purpose.  A `Derivation.Congruence` is a pair of relations, one
between filters and one between derivations of queries, that every production keeps.  Of such
relations it is enough to know that they hold where the queries differ: every step of a derivation
then ends alike for both (`Logged.Alike`), with related results or with the same failure.

The step for the conditions is `Context.deriveFilter_alike`, the one for the clauses of a query
`Query.deriveClauses_alike`.  Equality is the simplest congruence (`Derivation.congruence_eq`), and
with it these steps say what the outcome of a derivation depends on.
-/
import Mathlib.Data.Option.Defs
import QueryGrammar.Proofs.Junction

namespace QueryGrammar

open Logged (Alike alike_self alike_pure)

/-- A relation between filters and one between derivations of queries that the productions keep. -/
structure Derivation.Congruence (R : Filter Literal → Filter Literal → Prop)
    (S : Root Literal → Root Literal → Prop) : Prop where
  filter_refl : ∀ f, R f f
  root_refl : ∀ r, S r r
  both : ∀ {f f' g g'}, R f f' → R g g' → R (.both f g) (.both f' g')
  either : ∀ {f f' g g'}, R f f' → R g g' → R (.either f g) (.either f' g')
  query : ∀ {r r'} test column, S r r' → R (.query test column r) (.query test column r')
  memberOf : ∀ {r r'} negated column, S r r' →
    R (.memberOf negated column r) (.memberOf negated column r')
  superlativeFilter : ∀ {f f'} select sort, R f f' →
    S (.superlativeFilter select sort f) (.superlativeFilter select sort f')
  filterOrder : ∀ {f f'} select sort, R f f' →
    S (.filterOrder select f sort) (.filterOrder select f' sort)
  filter : ∀ {f f'} select, R f f' → S (.filter select f) (.filter select f')

theorem Derivation.congruence_eq : Derivation.Congruence Eq Eq where
  filter_refl _ := rfl
  root_refl _ := rfl
  both h h' := by rw [h, h']
  either h h' := by rw [h, h']
  query _ _ h := by rw [h]
  memberOf _ _ h := by rw [h]
  superlativeFilter _ _ h := by rw [h]
  filterOrder _ _ h := by rw [h]
  filter _ h := by rw [h]

variable {R : Filter Literal → Filter Literal → Prop} {S : Root Literal → Root Literal → Prop}
  (congruence : Derivation.Congruence R S) {context : Context} {ι : Type}
  {derive derive' : ι → Logged (Filter Literal)}

/-! ### Conditions -/

theorem rel_self {α : Type} {T : α → α → Prop} (refl : ∀ a, T a a) (o : Option α) :
    Option.Rel T o o := by
  rcases o with _ | a
  · exact .none
  · exact .some (refl a)

include congruence

theorem Junction.join_alike {tree : Junction ι}
    (h : ∀ i ∈ tree.leaves, Alike R (derive i) (derive' i)) :
    Alike R (tree.join derive) (tree.join derive') := by
  induction tree with
  | leaf i => exact h i (List.mem_singleton_self i)
  | and l r hl hr =>
    rw [leaves, List.forall_mem_append] at h
    apply (hl h.1).bind
    intro f f' hf
    exact (hr h.2).bind fun g g' hg => alike_pure (congruence.both hf hg)
  | or l r hl hr =>
    rw [leaves, List.forall_mem_append] at h
    apply (hl h.1).bind
    intro f f' hf
    exact (hr h.2).bind fun g g' hg => alike_pure (congruence.either hf hg)

namespace Context

theorem joinConditions_alike {chain : Chain ι}
    (h : ∀ i ∈ chain.items, Alike R (derive i) (derive' i)) :
    Alike R (joinConditions (chain.map derive)) (joinConditions (chain.map derive')) := by
  rw [joinConditions_eq, joinConditions_eq]
  rcases htree : chain.junction? with _ | tree
  · exact .error rfl rfl
  · apply Junction.join_alike congruence
    intro i hi
    rw [Chain.leaves_junction? htree, Chain.mem_written] at hi
    exact h i hi

theorem deriveRestriction_alike {chain : Chain ι}
    (h : ∀ i ∈ chain.items, Alike R (derive i) (derive' i)) :
    Alike R (context.deriveRestriction (chain.map derive))
      (context.deriveRestriction (chain.map derive')) := by
  have hjoin := joinConditions_alike congruence h
  by_cases hcount : context.maxConditions < chain.length
  · apply Alike.error <;> rw [outcome_deriveRestriction, Chain.length_map, if_pos hcount]
  · apply hjoin.of_outcome_eq <;>
      rw [outcome_deriveRestriction, Chain.length_map, if_neg hcount]

omit congruence in
theorem deriveHaving_alike {chain chain' : Chain (Logged (Filter Literal))}
    (h : Alike R chain.head chain'.head) :
    Alike R (context.deriveHaving chain) (context.deriveHaving chain') :=
  h.of_outcome_eq (outcome_deriveHaving chain) (outcome_deriveHaving chain')

/-- What is derived for the bodies of a query depends on what is derived for the first, and for the
head of the second. -/
theorem deriveFilter_alike {first first' second second' : Option (Chain (Logged (Filter Literal)))}
    (hfirst : Option.Rel (fun chain chain' => Alike R (context.deriveRestriction chain)
      (context.deriveRestriction chain')) first first')
    (hsecond : Option.Rel (fun chain chain' => Alike R chain.head chain'.head) second second') :
    Alike R (context.deriveFilter first second) (context.deriveFilter first' second') := by
  -- both bodies, the first alone, the second alone, or neither
  rcases hfirst with hchain | _ <;> rcases hsecond with hhead | _
  · apply hchain.bind
    intro f f' hf
    exact (deriveHaving_alike hhead).bind fun g g' hg => alike_pure (congruence.both hf hg)
  · exact hchain
  · exact deriveHaving_alike hhead
  · exact .error rfl rfl

/-- What is derived for a condition over a query depends on its test, its column, and that query. -/
theorem deriveNested_alike {wildcard wildcard' : Logged Nat} {c c' : Condition}
    {root root' : Logged (Root Literal)} (negated : c.negated = c'.negated)
    (operator : c.operator = c'.operator)
    (column : (context.deriveColumn wildcard c.left.left.aggregate c.left.left).outcome =
      (context.deriveColumn wildcard' c'.left.left.aggregate c'.left.left).outcome)
    (h : Alike S root root') : Alike R (context.deriveNested wildcard c root)
      (context.deriveNested wildcard' c' root') := by
  unfold deriveNested
  rw [negated, operator]
  apply (alike_self (fun _ => rfl) _).bind
  rintro test _ rfl
  apply (Logged.alike_eq_iff.mpr column).bind
  rintro leaf _ rfl
  rcases test with test | negated | negated
  · exact h.bind fun r r' hr => alike_pure (congruence.query test leaf hr)
  · exact h.bind fun r r' hr => alike_pure (congruence.memberOf negated leaf hr)
  · exact .error rfl rfl

end Context

/-! ### Clauses -/

/-- What is derived for a query depends on its shape, on what is derived for its select list and its
sort key, and on its filter. -/
theorem Query.deriveClauses_alike {q q' : Query}
    {restriction restriction' having having' : Option (Chain (Logged (Filter Literal)))}
    (shape : q.shape = q'.shape)
    (select : (context.deriveSelect (context.wildcardTable q) q.selectList).outcome =
      (context.deriveSelect (context.wildcardTable q') q'.selectList).outcome)
    (sort : (context.deriveSort (context.wildcardTable q) q.sortOrder).outcome =
      (context.deriveSort (context.wildcardTable q') q'.sortOrder).outcome)
    (filter : Alike R (context.deriveFilter restriction having)
      (context.deriveFilter restriction' having')) :
    Alike S (q.deriveClauses context restriction having)
      (q'.deriveClauses context restriction' having') := by
  have hsort := Logged.alike_eq_iff.mpr sort
  unfold deriveClauses
  rw [shape]
  apply (Logged.alike_eq_iff.mpr select).bind
  rintro s _ rfl
  -- each shape derives its own clauses, in its own order
  rcases q'.shape
  case superlativeFilter =>
    apply hsort.bind
    rintro k _ rfl
    exact filter.bind fun f f' hf => alike_pure (congruence.superlativeFilter s k hf)
  case filterOrder =>
    apply filter.bind
    intro f f' hf
    apply hsort.bind
    rintro k _ rfl
    exact alike_pure (congruence.filterOrder s k hf)
  case filter =>
    exact filter.bind fun f f' hf => alike_pure (congruence.filter s hf)
  case superlative | order =>
    apply hsort.bind
    rintro k _ rfl
    exact alike_pure (congruence.root_refl _)
  case plain =>
    exact alike_pure (congruence.root_refl _)

end QueryGrammar
