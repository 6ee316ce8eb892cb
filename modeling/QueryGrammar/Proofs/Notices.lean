/-
QueryGrammar/Proofs/Notices.lean

Which notices an encoding leaves, and in which order.

A computation that succeeds leaves the notices of its steps one after the other, so what it leaves
is known step by step (`Logged.Leaves`), and the steps of a derivation follow the query.  On its way
an encoding comes to two kinds of stops: columns that it writes, and HAVING clauses of which it
writes the first condition (`Stop`).  A stop leaves a notice by itself (`Stop.notices`): a wildcard
if the table is a guess in its own query (`Query.Guesses`), and a HAVING clause if there are other
conditions in it.  So the notices are those of the stops, in order (`Query.stops`,
`Query.allStops`), and whatever was noticed before plays no part.

The stops are those of the expanded queries (`Query.allStops_perm`), those of a query stand
together with those of the queries nested in it (`Query.isInfix_stops`), and HAVING comes between
the conditions of WHERE and its own first condition (`Query.stops_of_having`).  The columns among
the stops are, in order, the columns of the derivation (`Query.DerivedAs.represents_stops`).

Main result: `Query.encode_notices`.
-/
import QueryGrammar.Proofs.References
import QueryGrammar.Proofs.WildcardRules

namespace QueryGrammar

/-! ### Notices of computations that succeed -/

namespace Logged

variable {α β : Type} {x : Logged α} {ns ms : List Notice}

/-- If the computation succeeds, it leaves these notices. -/
structure Leaves (ns : List Notice) (x : Logged α) : Prop where
  of_ok : ∀ a, x.outcome = .ok a → x.notices = ns

theorem leaves_self (x : Logged α) : x.Leaves x.notices := ⟨fun _ _ => rfl⟩

theorem leaves_pure (a : α) : (pure a : Logged α).Leaves [] := ⟨fun _ _ => rfl⟩

theorem leaves_liftM (x : Except Failure α) : (liftM x : Logged α).Leaves [] := ⟨fun _ _ => rfl⟩

/-- A failure has no notices to account for. -/
theorem leaves_fail (e : Failure) : (fail e : Logged α).Leaves ns := ⟨fun _ h => by cases h⟩

theorem Leaves.bind {f : α → Logged β} (hx : x.Leaves ns)
    (hf : ∀ a, x.outcome = .ok a → (f a).Leaves ms) : (x >>= f).Leaves (ns ++ ms) := by
  constructor
  intro b hb
  obtain ⟨a, ha, hb⟩ := outcome_bind_eq_ok_iff.mp hb
  show (Logged.bind x f).notices = ns ++ ms
  simp only [Logged.bind, ha]
  rw [hx.of_ok a ha, (hf a ha).of_ok b hb]

/-- A step without notices may come first. -/
theorem Leaves.liftM_bind {y : Except Failure α} {f : α → Logged β} (hf : ∀ a, (f a).Leaves ns) :
    (liftM y >>= f).Leaves ns :=
  (leaves_liftM y).bind fun a _ => hf a

/-- A step without notices may come last. -/
theorem Leaves.bind_pure (hx : x.Leaves ns) (f : α → β) :
    (x >>= fun a => pure (f a)).Leaves ns := by
  have h := hx.bind fun a _ => leaves_pure (f a)
  rwa [List.append_nil] at h

theorem leaves_mapM {f : α → Logged β} {g : α → List Notice} {l : List α}
    (h : ∀ a ∈ l, (f a).Leaves (g a)) : (l.mapM f).Leaves (l.flatMap g) := by
  induction l with
  | nil => exact leaves_pure []
  | cons a l ih =>
    rw [List.mapM_cons, List.flatMap_cons]
    apply (h a (by simp)).bind
    intro b _
    exact (ih fun a' ha' => h a' (by simp [ha'])).bind_pure (b :: ·)

end Logged

open Logged

/-! ### Guesses -/

namespace Query

variable {schema : Schema} {q : Query}

/-- The table of the wildcard is a guess: FROM has not exactly one source, the schema has the
telltale columns, they do not leave just one table, and, if they leave none, there is no first
grouping column that belongs to one. -/
structure Guesses (schema : Schema) (q : Query) : Prop where
  sources : q.sources.length ≠ 1
  known : q.KnowsTelltales schema
  left : (q.tableSet \ q.ownerSet schema).card ≠ 1
  unowned : q.tableSet \ q.ownerSet schema = ∅ →
    ∀ use ∈ q.groupBy.head?, schema.owners[use.column]? = some none

instance (schema : Schema) (q : Query) : Decidable (q.Guesses schema) :=
  decidable_of_iff (q.sources.length ≠ 1 ∧
      (∀ column ∈ q.telltaleColumns, column < schema.owners.length) ∧
      (q.tableSet \ q.ownerSet schema).card ≠ 1 ∧
      (q.tableSet \ q.ownerSet schema = ∅ →
        ∀ use ∈ q.groupBy.head?, schema.owners[use.column]? = some none))
    ⟨fun h => ⟨h.1, h.2.1, h.2.2.1, h.2.2.2⟩,
      fun h => ⟨h.sources, h.known, h.left, h.unowned⟩⟩

theorem guesses_iff : q.Guesses schema ↔ ∃ outcome, q.Picks schema true outcome := by
  constructor
  · rintro ⟨sources, known, left, unowned⟩
    refine ⟨_, .guess sources known left fun hempty use rest hgroup => ?_⟩
    exact unowned hempty use (by simp [hgroup])
  · rintro ⟨_, ⟨⟩⟩
    rename_i sources known left unowned
    refine ⟨sources, known, left, fun hempty use huse => ?_⟩
    obtain ⟨rest, hgroup⟩ := List.head?_eq_some_iff.mp huse
    exact unowned hempty use rest hgroup

end Query

/-- Resolving the wildcard leaves a notice exactly if it is a guess. -/
theorem Context.notices_wildcardTable (context : Context) (q : Query) :
    (context.wildcardTable q).notices =
      if q.Guesses context.schema then [.ambiguousWildcard context.question context.query]
      else [] := by
  obtain ⟨guess, outcome, picks⟩ := Query.exists_picks context.schema q
  rw [wildcardTable_of_picks picks]
  cases guess with
  | true => rw [if_pos (Query.guesses_iff.mpr ⟨_, picks⟩)]; rfl
  | false =>
    rw [if_neg]
    · rfl
    · intro hguess
      obtain ⟨outcome', picks'⟩ := Query.guesses_iff.mp hguess
      exact absurd (picks.unique picks').1 (by simp)

/-! ### Stops -/

/-- Where an encoding may have something to tell: at a column that it writes for a query, and at a
HAVING clause with so many conditions. -/
inductive Stop where
  | column (q : Query) (use : ColumnUse)
  | having (count : Nat)

namespace Stop

/-- What is noticed at a stop. -/
def notices (context : Context) : Stop → List Notice
  | .column q use =>
    if use.isWildcard ∧ q.Guesses context.schema then
      [.ambiguousWildcard context.question context.query]
    else []
  | .having count => if 1 < count then [.extraHaving count context.question] else []

/-- The column at a stop, with its query. -/
def column? : Stop → Option (Query × ColumnUse)
  | .column q use => some (q, use)
  | .having _ => none

end Stop

/-- What is noticed at stops, one after the other. -/
def Context.noticesAt (context : Context) (stops : List Stop) : List Notice :=
  stops.flatMap (Stop.notices context)

@[simp] theorem Context.noticesAt_append (context : Context) (l l' : List Stop) :
    context.noticesAt (l ++ l') = context.noticesAt l ++ context.noticesAt l' :=
  List.flatMap_append

namespace Query

/-- The conditions of WHERE in the order of their tokens. -/
def writtenRestriction (q : Query) : List Condition := (q.restriction.map Chain.written).getD []

/-- The conditions that are written, each with the stops before it: HAVING is one before the first
of its conditions. -/
def announcedConditions (q : Query) : List (List Stop × Condition) :=
  q.writtenRestriction.map (fun c => ([], c)) ++
    (q.having.map fun chain => ([Stop.having chain.length], chain.head)).toList

theorem mem_conditions_of_announced {q : Query} {before : List Stop} {c : Condition}
    (h : (before, c) ∈ q.announcedConditions) : c ∈ q.conditions := by
  have hmap : q.announcedConditions.map Prod.snd = q.conditions := by
    rcases hhaving : q.having with _ | chain <;>
      simp [announcedConditions, conditions, writtenRestriction, hhaving, Function.comp_def]
  rw [← hmap]
  exact List.mem_map_of_mem h

/-- The stops at the columns of a clause other than the conditions. -/
def columnStops (q : Query) (clause : Clause) : List Stop :=
  (q.clauseColumns [] clause).map (.column q)

/-- The stops at a clause, where those at the conditions are given. -/
def clauseStops (q : Query) (filter : List Stop) : Clause → List Stop
  | .filter => filter
  | clause => q.columnStops clause

/-- The stops of a query, each condition being followed by the stops of the query that it nests. -/
def stops (q : Query) : List Stop :=
  let filter := q.announcedConditions.attach.flatMap fun ⟨(before, c), _⟩ =>
    before ++ .column q c.left.left :: (c.nested?.attach.map fun ⟨n, _⟩ => n.stops).getD []
  q.shape.clauses.flatMap (q.clauseStops filter)
termination_by sizeOf q
decreasing_by exact sizeOf_nested_lt (mem_conditions_of_announced ‹_›) ‹_›

/-- The stops of a query with its set operation. -/
def allStops (q : Query) : List Stop :=
  q.stops ++ q.setOperations.flatMap fun branch => branch.2.stops

/-- The stops at a condition of a query. -/
def conditionStops (q : Query) (c : Condition) : List Stop :=
  .column q c.left.left :: (c.nested?.map stops).getD []

/-- The stops at the conditions of a query. -/
def filterStops (q : Query) : List Stop :=
  q.writtenRestriction.flatMap q.conditionStops ++
    (q.having.map fun chain => .having chain.length :: q.conditionStops chain.head).getD []

/-- The stops that a query has of its own. -/
def ownStops (q : Query) : List Stop :=
  q.encodedColumns.map (.column q) ++ (q.having.map fun chain => .having chain.length).toList

theorem stops_eq (q : Query) :
    q.stops = q.shape.clauses.flatMap (q.clauseStops q.filterStops) := by
  have hfilter : q.announcedConditions.flatMap (fun p => p.1 ++ q.conditionStops p.2) =
      q.filterStops := by
    rcases hhaving : q.having with _ | chain <;>
      simp [filterStops, announcedConditions, hhaving, List.flatMap_map]
  rw [stops, ← hfilter]
  congr 2
  refine (List.flatMap_subtype (g := fun p => p.1 ++ q.conditionStops p.2) fun p _ => ?_).trans ?_
  · simp [conditionStops]
  · rw [List.unattach_attach]

/-! ### The stops of the expanded queries -/

/-- The clauses that a shape leaves out have no stops. -/
theorem stops_perm (q : Query) : q.stops.Perm
    (q.columnStops .select ++ (q.columnStops .order ++ q.filterStops)) := by
  rw [stops_eq]
  refine q.shape.flatMap_clauses_perm _ rfl (fun h => ?_) fun h => ?_
  · simp [clauseStops, columnStops, clauseColumns, sortOrder_eq_none_of_shape h]
  · simp [clauseStops, filterStops, writtenRestriction, bodies_eq_none_of_shape h]

theorem filterStops_perm (q : Query) : q.filterStops.Perm
    (q.conditions.map (fun c => .column q c.left.left) ++
      ((q.having.map fun chain => .having chain.length).toList ++
        q.conditions.flatMap fun c => (c.nested?.map stops).getD [])) := by
  have hfilter : q.filterStops.Perm ((q.having.map fun chain => .having chain.length).toList ++
      q.conditions.flatMap q.conditionStops) := by
    rcases hhaving : q.having with _ | chain
    · simp [filterStops, conditions, writtenRestriction, hhaving]
    · simp [filterStops, conditions, writtenRestriction, hhaving]
  refine hfilter.trans ?_
  refine (List.Perm.append_left _ (List.map_append_flatMap_perm _ _ _).symm).trans ?_
  rw [← List.append_assoc, ← List.append_assoc]
  exact List.perm_append_comm.append_right _

/-- The stops of a query are those that the queries of its expansion have of their own. -/
theorem stops_perm_expansion (q : Query) : q.stops.Perm (q.expansion.flatMap ownStops) := by
  induction q using nestedInduction with
  | step q ih =>
    have hnested : (q.conditions.flatMap fun c => (c.nested?.map stops).getD []).Perm
        ((q.conditions.flatMap fun c => (c.nested?.map expansion).getD []).flatMap ownStops) := by
      rw [List.flatMap_assoc]
      apply List.Perm.flatMap_left
      intro c hc
      rcases hn : c.nested? with _ | n
      · exact .refl _
      · exact ih c hc n hn
    have hown : q.ownStops = q.columnStops .select ++ (q.columnStops .order ++
        (q.conditions.map (fun c => .column q c.left.left) ++
          (q.having.map fun chain => .having chain.length).toList)) := by
      simp [ownStops, encodedColumns, columnStops, clauseColumns]
    rw [expansion_eq, List.flatMap_cons, hown, List.append_assoc, List.append_assoc,
      List.append_assoc]
    refine q.stops_perm.trans (.append_left _ (.append_left _ ?_))
    exact q.filterStops_perm.trans (.append_left _ (.append_left _ hnested))

/-- The stops are those that the expanded queries have of their own. -/
theorem allStops_perm (q : Query) : q.allStops.Perm (q.expanded.flatMap ownStops) := by
  rw [allStops, expanded, List.flatMap_append, List.flatMap_assoc]
  apply (stops_perm_expansion q).append
  exact List.Perm.flatMap_left _ fun branch _ => stops_perm_expansion branch.2

/-! ### Where the stops of a query stand -/

theorem isInfix_flatMap {α β : Type} {f : α → List β} {l : List α} {a : α} (h : a ∈ l) :
    f a <:+: l.flatMap f := by
  rw [List.flatMap_def]
  exact List.infix_of_mem_flatten (List.mem_map_of_mem h)

theorem isInfix_clauseStops {q : Query} {clause : Clause} (h : clause ∈ q.shape.clauses) :
    q.clauseStops q.filterStops clause <:+: q.stops := by
  rw [stops_eq]
  exact isInfix_flatMap h

theorem isInfix_filterStops (q : Query) : q.filterStops <:+: q.stops := by
  rcases h : q.shape.hasFilter
  · have hnone : q.filterStops = [] := by
      simp [filterStops, writtenRestriction, bodies_eq_none_of_shape h]
    rw [hnone]
    exact List.nil_infix
  · show q.clauseStops q.filterStops .filter <:+: q.stops
    apply isInfix_clauseStops
    rcases hshape : q.shape <;> simp [hshape, Shape.hasFilter, Shape.clauses] at h ⊢

theorem isInfix_conditionStops {q : Query} {c : Condition} (h : c ∈ q.conditions) :
    q.conditionStops c <:+: q.filterStops := by
  rw [filterStops]
  rcases List.mem_append.mp h with h | h
  · have hrestriction : q.conditionStops c <:+: q.writtenRestriction.flatMap q.conditionStops :=
      isInfix_flatMap h
    exact hrestriction.trans (List.prefix_append ..).isInfix
  · obtain ⟨chain, hchain, rfl⟩ := Option.map_eq_some_iff.mp (Option.mem_toList.mp h)
    rw [hchain]
    exact (List.suffix_cons ..).isInfix.trans (List.suffix_append ..).isInfix

/-- The stops of a nested query stand together among those of the query. -/
theorem isInfix_stops (q : Query) {n : Query} (h : n ∈ q.expansion) : n.stops <:+: q.stops := by
  induction q using nestedInduction with
  | step q ih =>
    rcases mem_expansion.mp h with rfl | ⟨c, hc, m, hm, hn⟩
    · exact List.infix_rfl
    · have hnested : m.stops <:+: q.conditionStops c := by
        rw [conditionStops, hm]
        exact (List.suffix_cons ..).isInfix
      exact (ih c hc m hm hn).trans
        (hnested.trans ((isInfix_conditionStops hc).trans q.isInfix_filterStops))

theorem isInfix_allStops {q n : Query} (h : n ∈ q.expanded) : n.stops <:+: q.allStops := by
  rcases List.mem_append.mp h with h | h
  · exact (q.isInfix_stops h).trans (List.prefix_append ..).isInfix
  · obtain ⟨branch, hbranch, h⟩ := List.mem_flatMap.mp h
    have hbranches : branch.2.stops <:+: q.setOperations.flatMap fun branch => branch.2.stops :=
      isInfix_flatMap (f := fun branch : SetOperation × Query => branch.2.stops) hbranch
    exact ((isInfix_stops _ h).trans hbranches).trans (List.suffix_append ..).isInfix

/-- HAVING comes after everything of its query but the first of its own conditions and an order
without a limit. -/
theorem stops_of_having {q : Query} {chain : Chain Condition} (h : q.having = some chain) :
    q.stops = q.columnStops .select ++
      (if q.limit.isSome then q.columnStops .superlative else []) ++
      q.writtenRestriction.flatMap q.conditionStops ++
      .having chain.length :: q.conditionStops chain.head ++
      (if q.limit.isSome then [] else q.columnStops .order) := by
  have hsort (hnone : q.sortOrder = none) : q.columnStops .order = [] := by
    simp [columnStops, clauseColumns, hnone]
  rcases hlimit : q.limit <;> rcases horder : q.sortOrder <;>
    simp [stops_eq, filterStops, shape, Shape.ofFlags, Shape.clauses, clauseStops, h, hlimit,
      horder, hsort]

end Query

/-! ### The notices of a derivation -/

section Derivation

variable {context : Context} {q : Query} {ns : List Notice}

theorem leaves_deriveColumn (aggregate : Aggregate) (use : ColumnUse) :
    (context.deriveColumn (context.wildcardTable q) aggregate use).Leaves
      (Stop.notices context (.column q use)) := by
  rw [Context.deriveColumn_eq]
  refine Leaves.liftM_bind fun identity => Leaves.bind_pure ?_ _
  unfold Context.lookUpTable
  split_ifs with h
  · have hnotices : (context.wildcardTable q).notices = Stop.notices context (.column q use) := by
      simp [Context.notices_wildcardTable, Stop.notices, h]
    rw [← hnotices]
    exact leaves_self _
  · have hnotices : Stop.notices context (.column q use) = [] := by simp [Stop.notices, h]
    rw [hnotices]
    exact leaves_liftM _

theorem leaves_deriveSelect :
    (context.deriveSelect (context.wildcardTable q) q.selectList).Leaves
      (context.noticesAt (q.columnStops .select)) := by
  by_cases hempty : q.selectList.items = []
  · constructor
    intro select h
    rw [Context.deriveSelect_of_empty hempty] at h
    cases h
  · rw [Context.deriveSelect_of_ne hempty, Context.noticesAt, Query.columnStops,
      Query.clauseColumns, List.map_map, List.flatMap_map]
    refine Leaves.liftM_bind fun _ => Leaves.bind_pure ?_ _
    exact leaves_mapM fun item _ => leaves_deriveColumn item.aggregate item.term.left

theorem leaves_deriveSort :
    (context.deriveSort (context.wildcardTable q) q.sortOrder).Leaves
      (context.noticesAt (q.columnStops .order)) := by
  rcases h : q.sortOrder with _ | ⟨direction, _ | ⟨key, rest⟩⟩
  · exact leaves_fail _
  · exact leaves_fail _
  · have hstops : context.noticesAt (q.columnStops .order) =
        Stop.notices context (.column q key.left) := by
      simp [Context.noticesAt, Query.columnStops, Query.clauseColumns, h]
    rw [hstops]
    exact (leaves_deriveColumn _ _).bind_pure _

/-- A condition leaves the notices of its column and then those of the query that it nests. -/
theorem Condition.leaves_derive {c : Condition} (nested : ∀ n, c.nested? = some n →
      (n.derive context).Leaves (context.noticesAt n.stops)) :
    (Condition.derive context (context.wildcardTable q) c).Leaves
      (context.noticesAt (q.conditionStops c)) := by
  have hcolumn : (context.deriveColumn (context.wildcardTable q) c.left.left.aggregate
      c.left.left).Leaves (Stop.notices context (.column q c.left.left)) :=
    leaves_deriveColumn _ _
  rcases hnested : c.nested? with _ | n
  · rw [derive_of_direct hnested, Query.conditionStops, hnested]
    refine Leaves.liftM_bind fun test => hcolumn.bind fun column _ => ?_
    cases test with
    | value test => exact (leaves_liftM _).bind_pure _
    | between =>
      exact Leaves.liftM_bind fun low => (leaves_liftM _).bind_pure _
    | member negated => exact leaves_pure _
  · rw [derive_of_nested hnested, Query.conditionStops, hnested]
    refine Leaves.liftM_bind fun test => hcolumn.bind fun column _ => ?_
    have hroot := nested n hnested
    cases test with
    | query test | member test => exact hroot.bind_pure _
    | pattern negated => exact leaves_fail _

theorem Junction.leaves_join {ι : Type} {derive : ι → Logged (Filter Literal)}
    {g : ι → List Notice} {tree : Junction ι} (h : ∀ i ∈ tree.leaves, (derive i).Leaves (g i)) :
    (tree.join derive).Leaves (tree.leaves.flatMap g) := by
  induction tree with
  | leaf i => simpa [leaves, join] using h i (by simp [leaves])
  | and l r hl hr | or l r hl hr =>
    rw [leaves, List.flatMap_append]
    have hleft := hl fun i hi => h i (List.mem_append_left _ hi)
    have hright := hr fun i hi => h i (List.mem_append_right _ hi)
    exact hleft.bind fun f _ => hright.bind_pure _

theorem leaves_deriveRestriction {ι : Type} {derive : ι → Logged (Filter Literal)}
    {g : ι → List Notice} {chain : Chain ι} (h : ∀ i ∈ chain.written, (derive i).Leaves (g i)) :
    (context.deriveRestriction (chain.map derive)).Leaves (chain.written.flatMap g) := by
  unfold Context.deriveRestriction
  split_ifs
  · constructor
    intro f h
    cases h
  · rw [Context.joinConditions_eq]
    rcases htree : chain.junction? with _ | tree
    · exact leaves_fail _
    · rw [← Chain.leaves_junction? htree] at h ⊢
      exact Junction.leaves_join h

theorem leaves_deriveHaving {ι : Type} {derive : ι → Logged (Filter Literal)} {chain : Chain ι}
    (h : (derive chain.head).Leaves ns) :
    (context.deriveHaving (chain.map derive)).Leaves
      (Stop.notices context (.having chain.length) ++ ns) := by
  unfold Context.deriveHaving
  rw [Chain.length_map, Chain.head_map]
  split_ifs with hcount
  · simp only [Stop.notices, if_pos hcount]
    exact (leaves_self (Logged.notice _)).bind fun _ _ => h
  · simpa only [Stop.notices, if_neg hcount, List.nil_append] using h

/-- The conditions leave notices one after the other, those of WHERE first. -/
theorem leaves_deriveFilter (h : ∀ c ∈ q.conditions,
      (Condition.derive context (context.wildcardTable q) c).Leaves
        (context.noticesAt (q.conditionStops c))) :
    (context.deriveFilter
      (q.restriction.map (Chain.map (Condition.derive context (context.wildcardTable q))))
      (q.having.map (Chain.map (Condition.derive context (context.wildcardTable q))))).Leaves
        (context.noticesAt q.filterStops) := by
  have hrestriction (chain : Chain Condition) (hchain : q.restriction = some chain) :
      (context.deriveRestriction
        (chain.map (Condition.derive context (context.wildcardTable q)))).Leaves
          (chain.written.flatMap fun c => context.noticesAt (q.conditionStops c)) := by
    refine leaves_deriveRestriction fun c hc => h c ?_
    simp [Query.conditions, hchain, hc]
  have hhaving (chain : Chain Condition) (hchain : q.having = some chain) :
      (context.deriveHaving
        (chain.map (Condition.derive context (context.wildcardTable q)))).Leaves
          (Stop.notices context (.having chain.length) ++
            context.noticesAt (q.conditionStops chain.head)) := by
    refine leaves_deriveHaving (h _ ?_)
    simp [Query.conditions, hchain]
  -- neither body, HAVING alone, WHERE alone, or both
  rcases hfirst : q.restriction with _ | first <;> rcases hsecond : q.having with _ | second <;>
    simp only [Option.map_none, Option.map_some, Context.deriveFilter, Context.noticesAt,
      Query.filterStops, Query.writtenRestriction, hfirst, hsecond, Option.getD_none,
      Option.getD_some, List.flatMap_nil, List.nil_append, List.append_nil, List.flatMap_append,
      List.flatMap_cons, List.flatMap_assoc]
  · exact leaves_fail _
  · exact hhaving second hsecond
  · exact hrestriction first hfirst
  · exact (hrestriction first hfirst).bind fun f _ => (hhaving second hsecond).bind_pure _

/-- The clauses leave notices in the order of the shape. -/
theorem Query.leaves_deriveClauses {restriction having : Option (Chain (Logged (Filter Literal)))}
    (h : (context.deriveFilter restriction having).Leaves (context.noticesAt q.filterStops)) :
    (q.deriveClauses context restriction having).Leaves (context.noticesAt q.stops) := by
  have hselect : (context.deriveSelect (context.wildcardTable q) q.selectList).Leaves
      (context.noticesAt (q.columnStops .select)) := leaves_deriveSelect
  have hsort : (context.deriveSort (context.wildcardTable q) q.sortOrder).Leaves
      (context.noticesAt (q.columnStops .order)) := leaves_deriveSort
  rw [stops_eq, deriveClauses]
  rcases q.shape <;>
    simp only [Shape.clauses, List.flatMap_cons, List.flatMap_nil, List.append_nil, clauseStops,
      Context.noticesAt_append]
  case superlativeFilter =>
    exact hselect.bind fun s _ => hsort.bind fun k _ => h.bind_pure _
  case filterOrder => exact hselect.bind fun s _ => h.bind fun f _ => hsort.bind_pure _
  case superlative | order => exact hselect.bind fun s _ => hsort.bind_pure _
  case filter => exact hselect.bind fun s _ => h.bind_pure _
  case plain => exact hselect.bind_pure _

theorem Query.leaves_derive (context : Context) (q : Query) :
    (q.derive context).Leaves (context.noticesAt q.stops) := by
  induction q using nestedInduction with
  | step q ih =>
    rw [derive_eq]
    apply leaves_deriveClauses
    apply leaves_deriveFilter
    exact fun c hc => Condition.leaves_derive (ih c hc)

theorem Query.leaves_encode (context : Context) (q : Query) :
    (q.encode context).Leaves (context.noticesAt q.allStops) := by
  refine Leaves.bind_pure ?_ _
  unfold derivation
  rcases h : q.setOperations with _ | ⟨⟨operation, branch⟩, _ | ⟨other, rest⟩⟩
  · simpa [allStops, h] using (q.leaves_derive context).bind_pure _
  · simpa [allStops, h, Context.noticesAt_append] using
      (q.leaves_derive context).bind fun l _ => (branch.leaves_derive context).bind_pure _
  · exact leaves_fail _

/-! ### The columns among the stops -/

theorem Query.columns_columnStops (q : Query) (clause : Clause) :
    (q.columnStops clause).filterMap Stop.column? =
      (q.clauseColumns [] clause).map fun use => (q, use) := by
  rw [columnStops, List.filterMap_map]
  exact congrFun (List.filterMap_eq_map (f := fun use => (q, use))) _

/-- The columns of the conditions are those of the written conditions, with those of the queries
that they nest. -/
theorem Query.columns_filterStops (q : Query) : q.filterStops.filterMap Stop.column? =
    q.conditions.flatMap fun c =>
      (q, c.left.left) :: ((c.nested?.map stops).getD []).filterMap Stop.column? := by
  rcases h : q.having with _ | chain <;>
    simp [filterStops, conditions, writtenRestriction, conditionStops, h, List.filterMap_flatMap,
      List.filterMap_cons, Stop.column?]

/-- The columns of a derivation stand, in order, for those among the stops, each in its query. -/
theorem Query.represents_stops (q : Query) {r : Root Literal}
    (h : (q.derive context).outcome = .ok r) :
    List.Forall₂ (fun p leaf => ∃ aggregate, leaf.Represents context.schema p.1 aggregate p.2)
      (q.stops.filterMap Stop.column?) r.deepColumns := by
  induction q using nestedInduction generalizing r with
  | step q ih =>
    have hr := derivesTo_of_derive h
    rw [stops_eq, List.filterMap_flatMap, Root.deepColumns_eq, hr.shape]
    refine List.rel_flatMap (R := Eq) (List.forall₂_refl _) ?_
    rintro clause _ rfl
    cases clause with
    | select =>
      dsimp only [clauseStops, Root.clauseColumns]
      rw [columns_columnStops, List.forall₂_map_left_iff]
      exact hr.selectColumns
    | superlative | order =>
      dsimp only [clauseStops, Root.clauseColumns]
      rw [columns_columnStops, List.forall₂_map_left_iff]
      exact hr.sortColumn
    | filter =>
      dsimp only [clauseStops, Root.clauseColumns]
      rw [columns_filterStops]
      -- along the conditions and their leaves, with the induction hypothesis at each condition
      refine List.rel_flatMap ((List.forall₂_and_left _ _).mpr ⟨ih, hr.leaves⟩) ?_
      rintro c f ⟨ihc, hf⟩
      dsimp only
      cases hf with
      | value direct _ column | between direct _ column | member direct _ column =>
        rw [direct, Filter.deepColumns]
        exact .cons ⟨_, column⟩ .nil
      | query nested _ column derivation | memberOf nested _ column derivation =>
        rw [nested, Filter.deepColumns]
        exact .cons ⟨_, column⟩ (ihc _ nested derivation)

/-- The columns of a derivation stand, in order, for those among the stops of the query with its set
operation. -/
theorem Query.DerivedAs.represents_stops {d : Derivation Literal} (h : q.DerivedAs context d) :
    List.Forall₂ (fun p leaf => ∃ aggregate, leaf.Represents context.schema p.1 aggregate p.2)
      (q.allStops.filterMap Stop.column?) d.deepColumns := by
  cases h with
  | single operations root =>
    simpa [allStops, operations, Derivation.deepColumns] using q.represents_stops root
  | combined operations left right =>
    simpa [allStops, operations, Derivation.deepColumns, List.filterMap_append] using
      List.rel_append (q.represents_stops left) (Query.represents_stops _ right)

end Derivation

/-- **The notices of an encoding are exact.**  They are those of its stops, in order, and the stops
are those of the expanded queries: one for each column that such a query encodes and one for its
HAVING clause.  The stops of an expanded query stand together with those nested in it, and HAVING
comes after those of its select list, of its superlative and of WHERE, and before those of its first
condition.

The columns among the stops are, in order, those that the tokens for `T` belong to.  For a wildcard
the token is the table that the wildcard has in its query, whichever of its columns it is. -/
theorem Query.encode_notices {context : Context} {q : Query} {e : Encoding}
    (h : (q.encode context).outcome = .ok e) :
    (q.encode context).notices = q.allStops.flatMap (Stop.notices context) ∧
      q.allStops.Perm (q.expanded.flatMap ownStops) ∧
      (∀ n ∈ q.expanded, n.stops <:+: q.allStops ∧ ∀ chain, n.having = some chain →
        n.stops = n.columnStops .select ++
          (if n.limit.isSome then n.columnStops .superlative else []) ++
          n.writtenRestriction.flatMap n.conditionStops ++
          .having chain.length :: n.conditionStops chain.head ++
          (if n.limit.isSome then [] else n.columnStops .order)) ∧
      List.Forall₂ (fun p table => p.2.isWildcard → (context.wildcardTable p.1).outcome = .ok table)
        (q.allStops.filterMap Stop.column?) (Token.choices .t e.tokens) := by
  refine ⟨(q.leaves_encode context).of_ok e h, q.allStops_perm, fun n hn =>
    ⟨isInfix_allStops hn, fun chain hchain => stops_of_having hchain⟩, ?_⟩
  obtain ⟨d, hd, rfl⟩ := encode_eq_ok_iff.mp h
  rw [Encoding.ofDerivation_eq, Derivation.choices_tokens (by simp), Derivation.deepColumns_map,
    List.forall₂_map_right_iff]
  refine hd.represents_stops.imp ?_
  rintro ⟨n, use⟩ leaf ⟨aggregate, hleaf⟩ hwildcard
  have htable := hleaf.table
  rw [TableOf, if_pos hwildcard] at htable
  exact Context.wildcardTable_eq_ok_iff.mpr htable

namespace Sample

/-- `SELECT * FROM customer, sale` -/
def everything : Query where
  selectList := .single 0
  sources := [.table 0, .table 1]

/-- `SELECT * FROM customer, sale HAVING * IN (everything) AND * > '1' ORDER BY * ASC` -/
def grouped : Query where
  selectList := .single 0
  sources := [.table 0, .table 1]
  having := some (.link
    { negated := false, operator := .member, left := .plain 0, value := some (.query everything),
      upper := none } .and (.last
    { negated := false, operator := .greater, left := .plain 0, value := some (.text "'1'"),
      upper := none }))
  sortOrder := some { direction := .ascending, keys := [.plain 0] }

/-- The encoding of the grouped query. -/
def groupedEncoding : Encoding where
  tokens := [⟨.root1, 3⟩, ⟨.root, 1⟩, ⟨.sel, 0⟩, ⟨.n, 0⟩, ⟨.a, 0⟩, ⟨.c, 0⟩, ⟨.t, 0⟩, ⟨.filter, 18⟩,
    ⟨.a, 0⟩, ⟨.c, 0⟩, ⟨.t, 0⟩, ⟨.root, 5⟩, ⟨.sel, 0⟩, ⟨.n, 0⟩, ⟨.a, 0⟩, ⟨.c, 0⟩, ⟨.t, 0⟩,
    ⟨.order, 1⟩, ⟨.a, 0⟩, ⟨.c, 0⟩, ⟨.t, 0⟩]
  values := []

end Sample

/-- The wildcards of both queries are guesses, and the second HAVING condition is noticed between
the select list and the first one. -/
theorem Query.encode_notices_sample :
    (Sample.grouped.encode Sample.shop).outcome = .ok Sample.groupedEncoding ∧
      Sample.grouped.allStops.flatMap (Stop.notices Sample.shop) =
        [.ambiguousWildcard "" "", .extraHaving 2 "", .ambiguousWildcard "" "",
          .ambiguousWildcard "" "", .ambiguousWildcard "" ""] := by
  have encodes : (Sample.grouped.encode Sample.shop).outcome = .ok Sample.groupedEncoding := by
    decide
  exact ⟨encodes, (encode_notices encodes).1.symm.trans (by decide)⟩

end QueryGrammar
