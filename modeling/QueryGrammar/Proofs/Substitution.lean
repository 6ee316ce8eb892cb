/-
QueryGrammar/Proofs/Substitution.lean

Exchanging a nested query.

A query nested in a condition is encoded in the midst of another: its literals go into the list of
the surrounding query, and the literals behind it move when it is exchanged.  Still its place in the
whole depends on no more than its encoding alone.  Two derivations are *interchangeable* if they
store the same literals and are spelled by the same tokens, wherever equal literals are placed
(`Root.Interchangeable`); that is so exactly if they have the same encoding on their own
(`Root.interchangeable_iff`), and interchangeable parts make interchangeable wholes
(`interchangeable_congruence`).

`Query.Exchanges` replaces the nested query of one condition, `Query.DeepExchanges` does so at any
depth, and `Query.Substitutes` also within the branch of a set operation.

Main result: if two queries have the same encoding alone, then exchanging one for the other changes
no encoding (`Query.encode_substitute`).  Columns and wildcards are resolved query by query, so
nothing outside of the nested query is resolved in another way, nor anything inside of it.
-/
import QueryGrammar.Proofs.Composition
import QueryGrammar.Proofs.Congruence

namespace QueryGrammar

open Literal (stored place)

/-! ### Interchangeable derivations -/

/-- A numbering of literals that gives equal literals one number. -/
def Literal.Numbering (number : Literal → Nat) : Prop :=
  ∀ k l, k.same l → number k = number l

theorem Literal.numbering_place (values : List Literal) : Numbering (place values) :=
  fun _ _ h => place_congr h

/-- The filters store the same literals, and have the same tokens whatever their places are. -/
structure Filter.Interchangeable (f f' : Filter Literal) : Prop where
  stored : stored f.values = stored f'.values
  tokens : ∀ number, Literal.Numbering number → (f.map number).tokens = (f'.map number).tokens

/-- The derivations store the same literals, and have the same tokens whatever their places are. -/
structure Root.Interchangeable (r r' : Root Literal) : Prop where
  stored : stored r.values = stored r'.values
  tokens : ∀ number, Literal.Numbering number → (r.map number).tokens = (r'.map number).tokens

theorem interchangeable_congruence :
    Derivation.Congruence Filter.Interchangeable Root.Interchangeable where
  filter_refl _ := ⟨rfl, fun _ _ => rfl⟩
  root_refl _ := ⟨rfl, fun _ _ => rfl⟩
  both h h' := by
    constructor
    · rw [Filter.values, Filter.values, Literal.stored_append, Literal.stored_append, h.stored,
        h'.stored]
    · intro number hnumber
      rw [Filter.map, Filter.map, Filter.tokens, Filter.tokens, h.tokens number hnumber,
        h'.tokens number hnumber]
  either h h' := by
    constructor
    · rw [Filter.values, Filter.values, Literal.stored_append, Literal.stored_append, h.stored,
        h'.stored]
    · intro number hnumber
      rw [Filter.map, Filter.map, Filter.tokens, Filter.tokens, h.tokens number hnumber,
        h'.tokens number hnumber]
  query _ _ h := by
    constructor
    · rw [Filter.values, Filter.values, h.stored]
    · intro number hnumber
      rw [Filter.map, Filter.map, Filter.tokens, Filter.tokens, h.tokens number hnumber]
  memberOf _ _ h := by
    constructor
    · rw [Filter.values, Filter.values, h.stored]
    · intro number hnumber
      rw [Filter.map, Filter.map, Filter.tokens, Filter.tokens, h.tokens number hnumber]
  superlativeFilter _ _ h := by
    constructor
    · rw [Root.values, Root.values, h.stored]
    · intro number hnumber
      rw [Root.map, Root.map, Root.tokens, Root.tokens, h.tokens number hnumber]
  filterOrder _ _ h := by
    constructor
    · rw [Root.values, Root.values, h.stored]
    · intro number hnumber
      rw [Root.map, Root.map, Root.tokens, Root.tokens, h.tokens number hnumber]
  filter _ h := by
    constructor
    · rw [Root.values, Root.values, h.stored]
    · intro number hnumber
      rw [Root.map, Root.map, Root.tokens, Root.tokens, h.tokens number hnumber]

/-- Under any numbering the tokens of a derivation are those of its encoding alone, each place being
replaced by the number of the literal there. -/
theorem Root.tokens_map_number (r : Root Literal) {number : Literal → Nat}
    (h : Literal.Numbering number) : (r.map number).tokens =
      ((r.map (place (stored r.values))).tokens).map
        (Token.mapPlace fun i => ((stored r.values)[i]?.map number).getD i) := by
  rw [← Root.tokens_map, Root.map_map]
  congr 1
  apply Root.map_congr
  intro l hl
  obtain ⟨k, hk, hsame⟩ := Literal.getElem?_place (Literal.any_stored hl)
  show number l = ((stored r.values)[place (stored r.values) l]?.map number).getD _
  rw [hk]
  exact (h k l hsame).symm

/-- Derivations are interchangeable exactly if they have the same encoding alone. -/
theorem Root.interchangeable_iff {r r' : Root Literal} : r.Interchangeable r' ↔
    Encoding.ofDerivation (.single r) = Encoding.ofDerivation (.single r') := by
  rw [Encoding.ofDerivation_single, Encoding.ofDerivation_single]
  constructor
  · rintro ⟨hstored, htokens⟩
    rw [hstored, htokens _ (Literal.numbering_place _)]
  · intro h
    simp only [Encoding.mk.injEq, List.cons.injEq, true_and] at h
    obtain ⟨htokens, hstored⟩ := h
    refine ⟨hstored, fun number hnumber => ?_⟩
    rw [r.tokens_map_number hnumber, r'.tokens_map_number hnumber, htokens, hstored]

/-! ### Exchanging a query -/

namespace Chain

variable {α β : Type}

/-- One occurrence of an item is replaced by another item. -/
inductive Replaces (x y : α) : Chain α → Chain α → Prop
  | last : Replaces x y (.last x) (.last y)
  | first (c : Connective) (rest : Chain α) : Replaces x y (.link x c rest) (.link y c rest)
  | later (z : α) (c : Connective) {rest rest' : Chain α} (replaced : Replaces x y rest rest') :
      Replaces x y (.link z c rest) (.link z c rest')

/-- The chain with another first item. -/
def setHead (y : α) : Chain α → Chain α
  | .last _ => .last y
  | .link _ c rest => .link y c rest

@[simp] theorem head_setHead (y : α) (chain : Chain α) : (chain.setHead y).head = y := by
  cases chain <;> rfl

theorem length_setHead (y : α) (chain : Chain α) : (chain.setHead y).length = chain.length := by
  cases chain <;> rfl

/-- Two chains that differ in one item are the two sides of a chain of pairs. -/
theorem Replaces.exists_pairs {x y : α} {chain chain' : Chain α} (h : Replaces x y chain chain') :
    ∃ pairs : Chain (α × α), pairs.map Prod.fst = chain ∧ pairs.map Prod.snd = chain' ∧
      ∀ pair ∈ pairs.items, pair.1 = pair.2 ∨ pair = (x, y) := by
  induction h with
  | last => exact ⟨.last (x, y), rfl, rfl, fun pair hpair => .inr (List.mem_singleton.mp hpair)⟩
  | first c rest =>
    refine ⟨.link (x, y) c (rest.map fun z => (z, z)), by simp [map, map_map],
      by simp [map, map_map], fun pair hpair => ?_⟩
    rcases List.mem_cons.mp hpair with rfl | hpair
    · exact .inr rfl
    · rw [items_map, List.mem_map] at hpair
      obtain ⟨z, -, rfl⟩ := hpair
      exact .inl rfl
  | later z c _ ih =>
    obtain ⟨pairs, hfst, hsnd, hpairs⟩ := ih
    refine ⟨.link (z, z) c pairs, by rw [map, hfst], by rw [map, hsnd], fun pair hpair => ?_⟩
    rcases List.mem_cons.mp hpair with rfl | hpair
    · exact .inl rfl
    · exact hpairs pair hpair

/-- What does not tell the two items apart does not tell the chains apart. -/
theorem Replaces.map_eq {x y : α} {chain chain' : Chain α} (h : Replaces x y chain chain')
    {f : α → β} (hf : f x = f y) : chain.map f = chain'.map f := by
  induction h with
  | last => rw [map, map, hf]
  | first c rest => rw [map, map, hf]
  | later z c _ ih => rw [map, map, ih]

end Chain

/-- The condition over another query. -/
def Condition.over (c : Condition) (n : Query) : Condition := { c with value := some (.query n) }

namespace Query

/-- A query nested in a written condition is replaced by another query. -/
inductive Exchanges (n n' : Query) : Query → Query → Prop
  | restriction {q : Query} {chain chain' : Chain Condition} {c : Condition}
      (body : q.restriction = some chain) (nested : c.nested? = some n)
      (replaced : chain.Replaces c (c.over n') chain') :
      Exchanges n n' q { q with restriction := some chain' }
  | having {q : Query} {chain : Chain Condition} (body : q.having = some chain)
      (nested : chain.head.nested? = some n) :
      Exchanges n n' q { q with having := some (chain.setHead (chain.head.over n')) }

/-- A query nested at some depth is replaced by another query. -/
inductive DeepExchanges (n n' : Query) : Query → Query → Prop
  | here {q q' : Query} (exchanged : Exchanges n n' q q') : DeepExchanges n n' q q'
  | inside {q q' m m' : Query} (exchanged : Exchanges m m' q q')
      (deep : DeepExchanges n n' m m') : DeepExchanges n n' q q'

/-- The query with another branch of a set operation. -/
def setBranch (q : Query) (operation : SetOperation) (b : Query) : Query :=
  match operation with
  | .intersect => { q with intersect := some b }
  | .union => { q with union := some b }
  | .except => { q with except := some b }

/-- A query nested at some depth in a query, or in the branch of a set operation of it, is replaced
by another query. -/
inductive Substitutes (n n' : Query) : Query → Query → Prop
  | base {q q' : Query} (deep : DeepExchanges n n' q q') : Substitutes n n' q q'
  | branch {q b b' : Query} (operation : SetOperation) (branch : q.branch? operation = some b)
      (deep : DeepExchanges n n' b b') : Substitutes n n' q (q.setBranch operation b')

/-! ### What an exchange leaves as it is -/

variable {context : Context} {n n' q q' : Query}

theorem Exchanges.lefts_conditions (h : Exchanges n n' q q') :
    q'.conditions.map Condition.left = q.conditions.map Condition.left := by
  cases h with
  | @restriction chain chain' c body _ replaced =>
    have hmap : chain.map Condition.left = chain'.map Condition.left := replaced.map_eq rfl
    have hwritten : chain'.written.map Condition.left = chain.written.map Condition.left := by
      rw [← Chain.written_map, ← hmap, Chain.written_map]
    simp [conditions, body, hwritten]
  | @having chain body _ =>
    simp [conditions, body, Condition.over]

/-- The columns that are encoded are the same ones. -/
theorem Exchanges.encodedColumns (h : Exchanges n n' q q') :
    q'.encodedColumns = q.encodedColumns := by
  have hlefts : q'.conditions.map (·.left.left) = q.conditions.map (·.left.left) := by
    simpa [Function.comp_def] using congrArg (List.map Term.left) h.lefts_conditions
  unfold Query.encodedColumns
  rw [hlefts]
  cases h <;> rfl

/-- The wildcard stands for the same table. -/
theorem Exchanges.wildcardTable (h : Exchanges n n' q q') :
    context.wildcardTable q' = context.wildcardTable q := by
  have hsources : q'.sources = q.sources := by cases h <;> rfl
  apply Context.wildcardTable_congr
  · rw [hsources]
  · rw [tables, tables, hsources]
  · exact firstTable?_congr hsources
  · cases h with
    | @restriction chain chain' c body _ replaced =>
      have hmap : chain.map (·.left.left) = chain'.map (·.left.left) := replaced.map_eq rfl
      have hitems : chain'.items.map (·.left.left) = chain.items.map (·.left.left) := by
        rw [← Chain.items_map, ← hmap, Chain.items_map]
      simp [telltaleColumns, Conditions.items, body, hitems]
    | having => rfl
  · cases h <;> rfl

theorem DeepExchanges.encodedColumns (h : DeepExchanges n n' q q') :
    q'.encodedColumns = q.encodedColumns := by
  cases h with
  | here exchanged | inside exchanged => exact exchanged.encodedColumns

theorem DeepExchanges.wildcardTable (h : DeepExchanges n n' q q') :
    context.wildcardTable q' = context.wildcardTable q := by
  cases h with
  | here exchanged | inside exchanged => exact exchanged.wildcardTable

/-! ### The bodies -/

section Bodies

variable {β : Type} {T : β → β → Prop} {D : Chain β → Chain β → Prop} {derive : Condition → β}

/-- What is derived for WHERE is related if it is so for two chains whose items are. -/
theorem Exchanges.rel_restriction (h : Exchanges n n' q q')
    (chains : ∀ pairs : Chain (β × β), (∀ pair ∈ pairs.items, T pair.1 pair.2) →
      D (pairs.map Prod.fst) (pairs.map Prod.snd))
    (refl : ∀ x, T x x)
    (exchanged : ∀ c, c.nested? = some n → T (derive c) (derive (c.over n'))) :
    Option.Rel D (q.restriction.map (Chain.map derive))
      (q'.restriction.map (Chain.map derive)) := by
  have hderive (pairs : Chain (Condition × Condition))
      (hpairs : ∀ pair ∈ pairs.items, T (derive pair.1) (derive pair.2)) :
      D ((pairs.map Prod.fst).map derive) ((pairs.map Prod.snd).map derive) := by
    have hchains := chains (pairs.map fun pair => (derive pair.1, derive pair.2)) (by
      rw [Chain.items_map, List.forall_mem_map]
      exact hpairs)
    rwa [Chain.map_map, Chain.map_map] at hchains ⊢
  cases h with
  | restriction body nested replaced =>
    -- the two chains are the sides of a chain of pairs, which are the same but for one
    obtain ⟨pairs, rfl, rfl, hpairs⟩ := replaced.exists_pairs
    rw [body]
    refine .some (hderive pairs fun pair hpair => ?_)
    rcases hpairs pair hpair with hsame | rfl
    · rw [hsame]
      exact refl _
    · exact exchanged _ nested
  | having =>
    rcases q.restriction with _ | chain
    · exact .none
    · -- the chain is both sides of the chain of pairs of equals
      have hchain := hderive (chain.map fun c => (c, c)) (by
        rw [Chain.items_map, List.forall_mem_map]
        exact fun c _ => refl _)
      simp only [Chain.map_map] at hchain
      exact .some hchain

/-- What is derived for HAVING is related if it is so for two chains whose heads are. -/
theorem Exchanges.rel_having (h : Exchanges n n' q q')
    (heads : ∀ chain chain', chain'.length = chain.length → T chain.head chain'.head →
      D chain chain')
    (refl : ∀ x, T x x)
    (exchanged : ∀ c, c.nested? = some n → T (derive c) (derive (c.over n'))) :
    Option.Rel D (q.having.map (Chain.map derive)) (q'.having.map (Chain.map derive)) := by
  cases h with
  | restriction =>
    apply rel_self
    exact fun chain => heads chain chain rfl (refl _)
  | having body nested =>
    rw [body]
    apply Option.Rel.some
    apply heads
    · rw [Chain.length_map, Chain.length_map, Chain.length_setHead]
    · rw [Chain.head_map, Chain.head_map, Chain.head_setHead]
      exact exchanged _ nested

end Bodies

/-! ### Derivations -/

variable {R : Filter Literal → Filter Literal → Prop} {S : Root Literal → Root Literal → Prop}

/-- What is derived for a query is related if it is so for the queries that are exchanged. -/
theorem Exchanges.derive_alike (congruence : Derivation.Congruence R S) (h : Exchanges n n' q q')
    (hn : Logged.Alike S (n.derive context) (n'.derive context)) :
    Logged.Alike S (q.derive context) (q'.derive context) := by
  have hwildcard : context.wildcardTable q' = context.wildcardTable q := h.wildcardTable
  have hcondition {c : Condition} (nested : c.nested? = some n) :
      Logged.Alike R (c.derive context (context.wildcardTable q))
        ((c.over n').derive context (context.wildcardTable q)) := by
    rw [Condition.derive_of_nested nested, Condition.derive_of_nested (n := n') rfl]
    exact Context.deriveNested_alike congruence rfl rfl rfl hn
  rw [derive_eq, derive_eq, hwildcard]
  apply deriveClauses_alike congruence
  · cases h with
    | restriction body | having body => simp [shape, body]
  · rw [hwildcard]
    cases h <;> rfl
  · rw [hwildcard]
    cases h <;> rfl
  · apply Context.deriveFilter_alike congruence
    · exact h.rel_restriction (fun _ => Context.deriveRestriction_alike congruence)
        (Logged.alike_self congruence.filter_refl) fun _ => hcondition
    · exact h.rel_having (fun _ _ _ hhead => hhead) (Logged.alike_self congruence.filter_refl)
        fun _ => hcondition

theorem DeepExchanges.derive_alike (congruence : Derivation.Congruence R S)
    (h : DeepExchanges n n' q q') (hn : Logged.Alike S (n.derive context) (n'.derive context)) :
    Logged.Alike S (q.derive context) (q'.derive context) := by
  induction h with
  | here exchanged => exact exchanged.derive_alike congruence hn
  | inside exchanged _ ih => exact exchanged.derive_alike congruence ih

/-! ### Encodings -/

/-- Queries of the same encoding alone have interchangeable derivations, or fail alike. -/
theorem derive_alike_of_encode
    (h : (n.alone.encode context).outcome = (n'.alone.encode context).outcome) :
    Logged.Alike Root.Interchangeable (n.derive context) (n'.derive context) := by
  rw [encode, encode, derivation_alone, derivation_alone] at h
  simp only [bind_assoc, pure_bind, Logged.outcome_bind] at h
  rcases hleft : (n.derive context).outcome with e | r <;>
    rcases hright : (n'.derive context).outcome with e' | r' <;>
    simp only [hleft, hright, Bind.bind, Except.bind, Logged.outcome_pure, Except.error.injEq,
      Except.ok.injEq, reduceCtorEq] at h
  · exact .error hleft (h ▸ hright)
  · exact .ok hleft hright (Root.interchangeable_iff.mpr h)

/-- The encoding of a query depends on the derivations of the query and of its branches, up to
interchange. -/
theorem outcome_encode_eq_of_alike
    (hbase : Logged.Alike Root.Interchangeable (q.derive context) (q'.derive context))
    (hbranches : List.Forall₂ (fun left right => left.1 = right.1 ∧
      Logged.Alike Root.Interchangeable (left.2.derive context) (right.2.derive context))
      q.setOperations q'.setOperations) :
    (q.encode context).outcome = (q'.encode context).outcome := by
  have hsingle {r r' : Root Literal} (hr : r.Interchangeable r') :
      Encoding.ofDerivation (.single r) = Encoding.ofDerivation (.single r') :=
    Root.interchangeable_iff.mp hr
  rw [← Logged.alike_eq_iff, encode, encode, derivation, derivation]
  generalize q.setOperations = left at hbranches ⊢
  generalize q'.setOperations = right at hbranches ⊢
  have hnames : left.map Prod.fst = right.map Prod.fst := by
    rw [← List.forall₂_eq_eq_eq, List.forall₂_map_left_iff, List.forall₂_map_right_iff]
    exact hbranches.imp fun _ _ h => h.1
  rcases hbranches with _ | ⟨⟨hoperation, hbranch⟩, _ | ⟨⟨hoperation', -⟩, hrest⟩⟩
  · simp only [bind_assoc, pure_bind]
    exact hbase.bind fun r r' hr => Logged.alike_pure (hsingle hr)
  · simp only [bind_assoc, pure_bind]
    apply hbase.bind
    intro l l' hl
    apply hbranch.bind
    intro r r' hr
    apply Logged.alike_pure
    rw [Encoding.ofDerivation_combined, Encoding.ofDerivation_combined, hoperation, hsingle hl,
      hsingle hr]
  · -- the failure tells of the operations alone
    simp only [hnames]
    exact Logged.alike_self (fun _ => rfl) _

theorem DeepExchanges.setOperations (h : DeepExchanges n n' q q') :
    q'.setOperations = q.setOperations := by
  rcases h with ⟨_ | _⟩ | ⟨_ | _, _⟩ <;> rfl

/-- Another branch changes no other set operation. -/
theorem forall₂_setOperations_setBranch {T : Query → Query → Prop} (refl : ∀ b, T b b)
    {operation : SetOperation} {b b' : Query} (hbranch : q.branch? operation = some b)
    (h : T b b') : List.Forall₂ (fun left right => left.1 = right.1 ∧ T left.2 right.2)
      q.setOperations (q.setBranch operation b').setOperations := by
  have hrel (o : SetOperation) :
      Option.Rel T (q.branch? o) ((q.setBranch operation b').branch? o) := by
    by_cases ho : o = operation
    · subst ho
      have hset : (q.setBranch o b').branch? o = some b' := by
        cases o <;> rfl
      rw [hbranch, hset]
      exact .some h
    · have hset : (q.setBranch operation b').branch? o = q.branch? o := by
        cases o <;> cases operation <;> simp [branch?, setBranch] at ho ⊢
      rw [hset]
      exact rel_self refl _
  rw [setOperations_eq, setOperations_eq]
  refine List.rel_filterMap (R := Eq) ?_ (List.forall₂_refl _)
  rintro o _ rfl
  have ho := hrel o
  show Option.Rel _ (Option.map _ _) (Option.map _ _)
  generalize q.branch? o = left at ho ⊢
  generalize (q.setBranch operation b').branch? o = right at ho ⊢
  rcases ho with hsides | _
  · exact .some ⟨rfl, hsides⟩
  · exact .none

/-- Exchanging queries of the same encoding alone changes no encoding. -/
theorem Substitutes.outcome_encode (h : Substitutes n n' q q')
    (same : (n.alone.encode context).outcome = (n'.alone.encode context).outcome) :
    (q.encode context).outcome = (q'.encode context).outcome := by
  have hself (b : Query) :
      Logged.Alike Root.Interchangeable (b.derive context) (b.derive context) :=
    Logged.alike_self interchangeable_congruence.root_refl _
  have hdeep {b b' : Query} (h : DeepExchanges n n' b b') :
      Logged.Alike Root.Interchangeable (b.derive context) (b'.derive context) :=
    h.derive_alike interchangeable_congruence (derive_alike_of_encode same)
  cases h with
  | base h =>
    apply outcome_encode_eq_of_alike (hdeep h)
    rw [h.setOperations]
    exact List.forall₂_same.mpr fun branch _ => ⟨rfl, hself branch.2⟩
  | @branch b b' operation hbranch h =>
    have hbase : (q.setBranch operation b').derive context = q.derive context := by
      cases operation <;> exact derive_congr rfl rfl rfl rfl rfl rfl rfl
    have hbranches := forall₂_setOperations_setBranch
      (T := fun b b' => Logged.Alike Root.Interchangeable (b.derive context) (b'.derive context))
      hself hbranch (hdeep h)
    apply outcome_encode_eq_of_alike _ hbranches
    rw [hbase]
    exact hself q

/-- **Exchanging a nested query.**  If two queries have the same encoding alone, then a query has
the same encoding with one of them, nested at any depth, as with the other.  The columns that a
query encodes, and the table that its wildcard stands for, are the same ones whatever is nested in
it; and every query that is nested has in the whole the derivation that it has alone. -/
theorem encode_substitute (context : Context) (n n' : Query) :
    ((n.alone.encode context).outcome = (n'.alone.encode context).outcome →
        ∀ q q', Substitutes n n' q q' →
          (q.encode context).outcome = (q'.encode context).outcome) ∧
      (∀ q q', DeepExchanges n n' q q' → q'.encodedColumns = q.encodedColumns ∧
        context.wildcardTable q' = context.wildcardTable q) ∧
      ∀ q d, (Query.derivation context q).outcome = .ok d →
        List.Forall₂ (fun m r => (m.alone.derivation context).outcome = .ok (.single r))
          q.expanded d.roots := by
  refine ⟨fun same q q' h => h.outcome_encode same,
    fun q q' h => ⟨h.encodedColumns, h.wildcardTable⟩, fun q d h => ?_⟩
  apply (derivation_eq_ok_iff.mp h).derive_expanded.imp
  intro m r hr
  rw [derivation_alone]
  exact Logged.outcome_bind_eq_ok_iff.mpr ⟨r, hr, rfl⟩

end Query

namespace Sample

/-- The inner query with its first literal in other quotes, grouped rows without a condition, and a
set operation of its own. -/
def respelled : Query where
  selectList := .single 2
  sources := [.table 1]
  restriction := some (.link
    { negated := false, operator := .equal, left := .plain 3, value := some (.text "7"),
      upper := none } .or (.link
    { negated := false, operator := .less, left := .plain 3, value := some (.text "'7'"),
      upper := none } .and (.last
    { negated := false, operator := .equal, left := .plain 3, value := some (.text "'x'"),
      upper := none })))
  groupBy := [.plain 2]
  union := some single

/-- `SELECT customer FROM sale HAVING id = (n)` -/
def grouping (n : Query) : Query where
  selectList := .single 2
  sources := [.table 1]
  having := some (.last
    { negated := false, operator := .equal, left := .plain 3, value := some (.query n),
      upper := none })

/-- `SELECT * FROM customer WHERE id = 'y' OR id IN (grouping n)` -/
def restricted (n : Query) : Query where
  selectList := .single 0
  sources := [.table 0]
  restriction := some (.link
    { negated := false, operator := .equal, left := .plain 1, value := some (.text "'y'"),
      upper := none } .or (.last
    { negated := false, operator := .member, left := .plain 1, value := some (.query (grouping n)),
      upper := none }))

/-- `SELECT customer FROM sale WHERE id = 'x' UNION restricted n` -/
def surrounding (n : Query) : Query := single.setBranch .union (restricted n)

theorem exchanges_grouping (n n' : Query) : Query.Exchanges n n' (grouping n) (grouping n') :=
  Query.Exchanges.having (q := grouping n) rfl rfl

theorem exchanges_restricted (n n' : Query) :
    Query.Exchanges (grouping n) (grouping n') (restricted n) (restricted n') :=
  Query.Exchanges.restriction (q := restricted n) rfl rfl (.later _ _ .last)

theorem substitutes_surrounding (n n' : Query) :
    Query.Substitutes n n' (surrounding n) (surrounding n') :=
  Query.Substitutes.branch (q := surrounding n) .union rfl
    (.inside (exchanges_restricted n n') (.here (exchanges_grouping n n')))

end Sample

/-- The two inner queries are exchanged in a HAVING condition of a query that is nested in a WHERE
condition of the branch of a set operation. -/
theorem Query.encode_substitute_sample :
    (Sample.inner.alone.encode Sample.shop).outcome =
        (Sample.respelled.alone.encode Sample.shop).outcome ∧
      Substitutes Sample.inner Sample.respelled
        (Sample.surrounding Sample.inner) (Sample.surrounding Sample.respelled) ∧
      ((Sample.surrounding Sample.inner).encode Sample.shop).outcome =
        ((Sample.surrounding Sample.respelled).encode Sample.shop).outcome ∧
      ∃ d, ((Sample.surrounding Sample.inner).derivation Sample.shop).outcome = .ok d ∧
        List.Forall₂ (fun m r => (m.alone.derivation Sample.shop).outcome = .ok (.single r))
          (Sample.surrounding Sample.inner).expanded d.roots := by
  have same : (Sample.inner.alone.encode Sample.shop).outcome =
      (Sample.respelled.alone.encode Sample.shop).outcome := by decide
  have substitutes := Sample.substitutes_surrounding Sample.inner Sample.respelled
  obtain ⟨hencode, -, hderive⟩ := encode_substitute Sample.shop Sample.inner Sample.respelled
  exact ⟨same, substitutes, hencode same _ _ substitutes, _, rfl, hderive _ _ rfl⟩

end QueryGrammar
