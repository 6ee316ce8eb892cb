/-
QueryGrammar/Proofs/Persistence.lean

Runs that persist.

A query is often encoded twice, under settings, over a schema, or with an order of its sources that
leave room for more or that ought not to matter.  The question is whether what the first run does
the second does as well.  `Logged.Persists P x y` says so of two computations: if `x` succeeds, and
every notice that it leaves has the property `P`, then `y` is the same computation, notices
included.  What `x` does otherwise says nothing about `y`.

Persistence passes from the steps of a chain to the chain (`Persists.bind`), so each clause of a
query persists if its columns and nested queries do.  Of the two contexts it is asked that the
second resolves every column that the first does, to the same identity and owner, and accepts as
many conditions (`Context.Extends`); of the tables of wildcards that they persist.

Main results: `Context.Extends.derive` for derivations, `Context.Extends.encode` for encodings.
-/
import Mathlib.Data.Option.Defs
import QueryGrammar.Proofs.Derive

namespace QueryGrammar

/-! ### Computations -/

namespace Logged

variable {α β : Type} {P : Notice → Prop}

/-- If the first computation succeeds, with notices of the given kind only, the second is the
same. -/
def Persists (P : Notice → Prop) (x y : Logged α) : Prop :=
  (∃ a, x.outcome = .ok a) → (∀ n ∈ x.notices, P n) → y = x

theorem persists_refl (x : Logged α) : Persists P x x := fun _ _ => rfl

theorem Persists.trans {x y z : Logged α} (hxy : Persists P x y) (hyz : Persists P y z) :
    Persists P x z := by
  intro ok notices
  have hy : y = x := hxy ok notices
  rw [hyz (hy ▸ ok) (hy ▸ notices), hy]

/-- What fails persists as anything. -/
theorem persists_of_error {x y : Logged α} {e : Failure} (h : x.outcome = .error e) :
    Persists P x y := by
  rintro ⟨a, ok⟩
  rw [h] at ok
  cases ok

theorem bind_of_ok {x : Logged α} {a : α} (h : x.outcome = .ok a) (f : α → Logged β) :
    x >>= f = ⟨x.notices ++ (f a).notices, (f a).outcome⟩ := by
  show bind x f = _
  simp only [bind, h]

/-- Chains of steps that persist persist. -/
theorem Persists.bind {x y : Logged α} {f g : α → Logged β} (h : Persists P x y)
    (hfg : ∀ a, Persists P (f a) (g a)) : Persists P (x >>= f) (y >>= g) := by
  rintro ⟨b, ok⟩ notices
  obtain ⟨a, hx, hf⟩ := outcome_bind_eq_ok_iff.mp ok
  rw [bind_of_ok hx, List.forall_mem_append] at notices
  have hy : y = x := h ⟨a, hx⟩ notices.1
  have hg : g a = f a := hfg a ⟨b, hf⟩ notices.2
  rw [hy, bind_of_ok hx, bind_of_ok hx, hg]

theorem persists_liftM {x y : Except Failure α} (h : ∀ a, x = .ok a → y = .ok a) :
    Persists P (liftM x : Logged α) (liftM y) := by
  rintro ⟨a, ok⟩ -
  have hx : x = .ok a := ok
  rw [hx, h a hx]

theorem persists_mapM {f g : α → Logged β} {l : List α} (h : ∀ a ∈ l, Persists P (f a) (g a)) :
    Persists P (l.mapM f) (l.mapM g) := by
  induction l with
  | nil => exact persists_refl _
  | cons a l ih =>
    rw [List.forall_mem_cons] at h
    rw [List.mapM_cons, List.mapM_cons]
    exact h.1.bind fun b => (ih h.2).bind fun bs => persists_refl _

end Logged

open Logged (Persists persists_refl persists_of_error persists_liftM persists_mapM)

/-! ### Contexts -/

/-- The second context resolves what the first one does, and accepts as much. -/
structure Context.Extends (context context' : Context) : Prop where
  identity : ∀ column i, context.schema.columnIdentity column = .ok i →
    context'.schema.columnIdentity column = .ok i
  owner : ∀ column table, context.schema.owningTable column = .ok table →
    context'.schema.owningTable column = .ok table
  question : context'.question = context.question
  maxConditions : context.maxConditions ≤ context'.maxConditions

theorem Context.extends_refl (context : Context) : context.Extends context :=
  ⟨fun _ _ h => h, fun _ _ h => h, rfl, Nat.le_refl _⟩

variable {P : Notice → Prop} {context context' : Context} {wildcard wildcard' : Logged Nat}

/-! ### Joined conditions -/

section Joining

variable {ι : Type} {derive derive' : ι → Logged (Filter Literal)}

theorem Junction.join_persists {tree : Junction ι}
    (h : ∀ i ∈ tree.leaves, Persists P (derive i) (derive' i)) :
    Persists P (tree.join derive) (tree.join derive') := by
  induction tree with
  | leaf i => exact h i (List.mem_singleton_self i)
  | and l r hl hr | or l r hl hr =>
    rw [leaves, List.forall_mem_append] at h
    apply (hl h.1).bind
    intro f
    exact (hr h.2).bind fun g => persists_refl _

theorem Context.joinConditions_persists {chain : Chain ι}
    (h : ∀ i ∈ chain.items, Persists P (derive i) (derive' i)) :
    Persists P (joinConditions (chain.map derive)) (joinConditions (chain.map derive')) := by
  rw [joinConditions_eq, joinConditions_eq]
  rcases htree : chain.junction? with _ | tree
  · exact persists_refl _
  · apply Junction.join_persists
    intro i hi
    rw [Chain.leaves_junction? htree, Chain.mem_written] at hi
    exact h i hi

end Joining

namespace Context.Extends

variable (ext : context.Extends context')
include ext

/-! ### Columns, select lists and sort keys -/

theorem deriveColumn (hw : Persists P wildcard wildcard') (aggregate : Aggregate)
    (use : ColumnUse) : Persists P (context.deriveColumn wildcard aggregate use)
      (context'.deriveColumn wildcard' aggregate use) := by
  unfold Context.deriveColumn
  apply (persists_liftM (ext.identity use.column)).bind
  intro identity
  split
  · exact hw.bind fun table => persists_refl _
  · exact (persists_liftM (ext.owner use.column)).bind fun table => persists_refl _

theorem deriveSelect (hw : Persists P wildcard wildcard') (list : SelectList) :
    Persists P (context.deriveSelect wildcard list) (context'.deriveSelect wildcard' list) := by
  by_cases hempty : list.items = []
  · exact persists_of_error (Context.deriveSelect_of_empty hempty)
  · rw [Context.deriveSelect_of_ne hempty, Context.deriveSelect_of_ne hempty]
    apply (persists_refl _).bind
    intro _
    apply (persists_mapM fun item _ => ext.deriveColumn hw item.aggregate item.term.left).bind
    exact fun columns => persists_refl _

theorem deriveSort (hw : Persists P wildcard wildcard') (order : Option SortOrder) :
    Persists P (context.deriveSort wildcard order) (context'.deriveSort wildcard' order) := by
  rcases order with _ | ⟨direction, _ | ⟨key, rest⟩⟩
  · exact persists_refl _
  · exact persists_refl _
  · exact (ext.deriveColumn hw key.left.aggregate key.left).bind fun column => persists_refl _

/-! ### Conditions -/

theorem deriveDirect (hw : Persists P wildcard wildcard') (c : Condition) :
    Persists P (context.deriveDirect wildcard c) (context'.deriveDirect wildcard' c) := by
  unfold Context.deriveDirect
  apply (persists_refl _).bind
  intro test
  apply (ext.deriveColumn hw c.left.left.aggregate c.left.left).bind
  -- the literals of the condition depend on neither context
  exact fun column => persists_refl _

theorem deriveNested (hw : Persists P wildcard wildcard') (c : Condition)
    {root root' : Logged (Root Literal)} (hroot : Persists P root root') :
    Persists P (context.deriveNested wildcard c root)
      (context'.deriveNested wildcard' c root') := by
  unfold Context.deriveNested
  apply (persists_refl _).bind
  intro test
  apply (ext.deriveColumn hw c.left.left.aggregate c.left.left).bind
  intro column
  rcases test with test | negated | negated
  · exact hroot.bind fun r => persists_refl _
  · exact hroot.bind fun r => persists_refl _
  · exact persists_refl _

theorem derive_condition (hw : Persists P wildcard wildcard') {c : Condition}
    (nested : ∀ n, c.nested? = some n → Persists P (n.derive context) (n.derive context')) :
    Persists P (c.derive context wildcard) (c.derive context' wildcard') := by
  rcases hnested : c.nested? with _ | n
  · rw [Condition.derive_of_direct hnested, Condition.derive_of_direct hnested]
    exact ext.deriveDirect hw c
  · rw [Condition.derive_of_nested hnested, Condition.derive_of_nested hnested]
    exact ext.deriveNested hw c (nested n hnested)

/-! ### Bodies -/

section Bodies

variable {ι : Type} {derive derive' : ι → Logged (Filter Literal)}

/-- Fewer conditions than a smaller number are fewer than a larger one. -/
theorem deriveRestriction {chain : Chain ι}
    (h : ∀ i ∈ chain.items, Persists P (derive i) (derive' i)) :
    Persists P (context.deriveRestriction (chain.map derive))
      (context'.deriveRestriction (chain.map derive')) := by
  by_cases hcount : context.maxConditions < chain.length
  · apply persists_of_error (e := .tooManyConditions chain.length context.maxConditions)
    rw [outcome_deriveRestriction, Chain.length_map, if_pos hcount]
  · have hcount' : ¬ context'.maxConditions < chain.length := by
      have hmax := ext.maxConditions
      omega
    simp only [Context.deriveRestriction, Chain.length_map, if_neg hcount, if_neg hcount']
    exact joinConditions_persists h

theorem deriveHaving {chain chain' : Chain (Logged (Filter Literal))}
    (length : chain'.length = chain.length) (head : Persists P chain.head chain'.head) :
    Persists P (context.deriveHaving chain) (context'.deriveHaving chain') := by
  simp only [Context.deriveHaving, length, ext.question]
  split
  · exact (persists_refl _).bind fun _ => head
  · exact head

theorem deriveFilter {first first' second second' : Option (Chain (Logged (Filter Literal)))}
    (hfirst : Option.Rel (fun chain chain' => Persists P (context.deriveRestriction chain)
      (context'.deriveRestriction chain')) first first')
    (hsecond : Option.Rel (fun chain chain' => chain'.length = chain.length ∧
      Persists P chain.head chain'.head) second second') :
    Persists P (context.deriveFilter first second) (context'.deriveFilter first' second') := by
  -- both bodies, the first alone, the second alone, or neither
  rcases hfirst with hchain | _ <;> rcases hsecond with ⟨hlength, hhead⟩ | _
  · apply hchain.bind
    intro f
    exact (ext.deriveHaving hlength hhead).bind fun g => persists_refl _
  · exact hchain
  · exact ext.deriveHaving hlength hhead
  · exact persists_refl _

end Bodies

/-! ### Queries -/

/-- The clauses of a query persist in one that differs from it in no more than its sources, its
conditions and its grouping. -/
theorem deriveClauses {q q' : Query}
    {restriction restriction' having having' : Option (Chain (Logged (Filter Literal)))}
    (selectList : q'.selectList = q.selectList) (sortOrder : q'.sortOrder = q.sortOrder)
    (shape : q'.shape = q.shape)
    (hw : Persists P (context.wildcardTable q) (context'.wildcardTable q'))
    (filter : Persists P (context.deriveFilter restriction having)
      (context'.deriveFilter restriction' having')) :
    Persists P (q.deriveClauses context restriction having)
      (q'.deriveClauses context' restriction' having') := by
  have hsort := ext.deriveSort hw q.sortOrder
  unfold Query.deriveClauses
  rw [selectList, sortOrder, shape]
  apply (ext.deriveSelect hw q.selectList).bind
  intro select
  -- each shape derives its own clauses, in its own order
  rcases q.shape
  case superlativeFilter =>
    exact hsort.bind fun sort => filter.bind fun f => persists_refl _
  case filterOrder =>
    exact filter.bind fun f => hsort.bind fun sort => persists_refl _
  case superlative | order =>
    exact hsort.bind fun sort => persists_refl _
  case filter =>
    exact filter.bind fun f => persists_refl _
  case plain =>
    exact persists_refl _

/-- A query persists in one that differs from it in its sources only, if the table of its wildcard
does and its nested queries do. -/
theorem derive_of_clauses {q q' : Query} (selectList : q'.selectList = q.selectList)
    (restriction : q'.restriction = q.restriction) (having : q'.having = q.having)
    (sortOrder : q'.sortOrder = q.sortOrder) (limit : q'.limit = q.limit)
    (hw : Persists P (context.wildcardTable q) (context'.wildcardTable q'))
    (nested : ∀ c ∈ q.conditions, ∀ n, c.nested? = some n →
      Persists P (n.derive context) (n.derive context')) :
    Persists P (q.derive context) (q'.derive context') := by
  have hcondition (c : Condition) (hc : c ∈ q.conditions) :=
    ext.derive_condition hw (nested c hc)
  rw [Query.derive_eq, Query.derive_eq, restriction, having]
  apply ext.deriveClauses selectList sortOrder _ hw
  · apply ext.deriveFilter
    · rcases hchain : q.restriction with _ | chain
      · exact .none
      · apply Option.Rel.some
        apply ext.deriveRestriction
        intro c hc
        apply hcondition
        rw [Query.mem_conditions, hchain]
        exact .inl hc
    · rcases hchain : q.having with _ | chain
      · exact .none
      · apply Option.Rel.some
        rw [Chain.length_map, Chain.length_map, Chain.head_map, Chain.head_map]
        refine ⟨rfl, hcondition _ ?_⟩
        rw [Query.mem_conditions]
        exact .inr ⟨chain, hchain, rfl⟩
  · simp only [Query.shape, limit, sortOrder, restriction, having]

/-- **The derivation of a query persists** if the tables of the wildcards do. -/
theorem derive (q : Query)
    (hw : ∀ n ∈ q.expansion, Persists P (context.wildcardTable n) (context'.wildcardTable n)) :
    Persists P (q.derive context) (q.derive context') := by
  induction q using Query.nestedInduction with
  | step q ih =>
    apply ext.derive_of_clauses rfl rfl rfl rfl rfl (hw q q.mem_expansion_self)
    intro c hc n hn
    exact ih c hc n hn fun m hm => hw m (Query.mem_expansion.mpr (.inr ⟨c, hc, n, hn, hm⟩))

end Context.Extends

/-! ### Encodings -/

/-- The encoding of a query persists if the derivations of the query and of its branches do. -/
theorem Query.encode_persists {q q' : Query}
    (base : Persists P (q.derive context) (q'.derive context'))
    (branches : List.Forall₂ (fun left right => left.1 = right.1 ∧
      Persists P (left.2.derive context) (right.2.derive context'))
      q.setOperations q'.setOperations) :
    Persists P (q.encode context) (q'.encode context') := by
  rw [encode, encode, derivation, derivation]
  generalize q.setOperations = left at branches ⊢
  generalize q'.setOperations = right at branches ⊢
  rcases branches with _ | ⟨⟨hoperation, hbranch⟩, _ | ⟨_, _⟩⟩
  · exact (base.bind fun r => persists_refl _).bind fun d => persists_refl _
  · simp only [hoperation]
    apply Persists.bind _ fun d => persists_refl _
    exact base.bind fun l => hbranch.bind fun r => persists_refl _
  · -- several set operations are refused
    exact persists_of_error rfl

/-- **The encoding of a query persists** if the tables of the wildcards of expanded queries do. -/
theorem Context.Extends.encode (ext : context.Extends context') (q : Query)
    (hw : ∀ n ∈ q.expanded, Persists P (context.wildcardTable n) (context'.wildcardTable n)) :
    Persists P (q.encode context) (q.encode context') := by
  apply Query.encode_persists
  · exact ext.derive q fun n hn => hw n (List.mem_append_left _ hn)
  · apply List.forall₂_same.mpr
    intro branch hbranch
    refine ⟨rfl, ext.derive branch.2 fun n hn => hw n ?_⟩
    exact List.mem_append_right _ (List.mem_flatMap.mpr ⟨branch, hbranch, hn⟩)

end QueryGrammar
