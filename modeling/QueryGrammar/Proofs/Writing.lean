/-
QueryGrammar/Proofs/Writing.lean

Writing an encoding token by token.

The encoding of a query is a derivation first, whose literals are numbered afterwards.  It can also
be written in one go: every token is appended to a draft as soon as it is known, after a check that
its symbol has the production, and every literal is given its place when it is met
(`Query.write`).  A failure may then come in the middle of the tokens.

Both ways agree, in their results, failures and notices.  A writer *transcribes* a computation if it
fails as the computation does and otherwise appends what the result of the computation is written
as (`Writer.Transcribes`); so does a sequence of writers if each of them does.  The check of a token
never fails but for `N`, because the productions of all other symbols come from tables.

Main result: writing gives the encoding (`Query.written_eq_encode`).
-/
import QueryGrammar.Proofs.Derive
import QueryGrammar.Proofs.Grammar

namespace QueryGrammar

/-! ### Productions -/

/-- The production of a connective. -/
def Connective.choice : Connective → Nat
  | .and => 0
  | .or => 1

theorem Connective.choice_lt (connective : Connective) : connective.choice < 20 := by
  cases connective <;> simp [choice]

theorem Shape.choice_lt (shape : Shape) : shape.choice < 6 := by
  cases shape <;> simp [choice]

theorem DirectTest.choice_lt (test : DirectTest) : test.choice < 20 := by
  rcases test with test | _ | _ | _
  · cases test <;> simp [choice, ValueTest.choice]
  · simp [choice, betweenChoice]
  · simp [choice, memberChoice]
  · simp [choice, memberChoice]

theorem NestedTest.choice_lt (test : NestedTest) : test.choice < 20 := by
  rcases test with test | (_ | _) | (_ | _)
  · cases test <;> simp [choice, QueryTest.choice]
  all_goals simp [choice, memberChoice, ValueTest.choice]

theorem Chain.items_ne_nil {α : Type} (chain : Chain α) : chain.items ≠ [] := by
  cases chain <;> simp [items]

/-! ### Drafts -/

/-- What has been written of an encoding. -/
structure Draft where
  tokens : List Token := []
  pool : LiteralPool := {}

namespace Draft

/-- Append tokens. -/
def append (draft : Draft) (tokens : List Token) : Draft :=
  { draft with tokens := draft.tokens ++ tokens }

/-- Append the token of a literal, which is given its place. -/
def addLiteral (draft : Draft) (literal : Literal) : Draft where
  tokens := draft.tokens ++ [⟨.v, (draft.pool.insert literal).1⟩]
  pool := (draft.pool.insert literal).2

/-- Append the tokens of conditions, whose literals are given their places. -/
def addFilter (draft : Draft) (filter : Filter Literal) : Draft where
  tokens := draft.tokens ++ (filter.number.run draft.pool).run.1.tokens
  pool := (filter.number.run draft.pool).run.2

/-- Append the tokens of a query, whose literals are given their places. -/
def addRoot (draft : Draft) (root : Root Literal) : Draft where
  tokens := draft.tokens ++ (root.number.run draft.pool).run.1.tokens
  pool := (root.number.run draft.pool).run.2

/-- The encoding that a draft is. -/
def encoding (draft : Draft) : Encoding where
  tokens := draft.tokens
  values := draft.pool.toList

theorem append_append (draft : Draft) (tokens more : List Token) :
    (draft.append tokens).append more = draft.append (tokens ++ more) := by
  simp [append]

/-- Placing a literal is a step of numbering. -/
@[simp] theorem run_insert (literal : Literal) (pool : LiteralPool) :
    (StateT.run (m := Id) (fun pool => pool.insert literal) pool).run = pool.insert literal :=
  rfl

/-! What is written of a part is its first token and what is written of its own parts. -/

theorem addFilter_both (draft : Draft) (left right : Filter Literal) :
    draft.addFilter (.both left right) =
      ((draft.append [⟨.filter, Connective.and.choice⟩]).addFilter left).addFilter right := by
  simp [addFilter, append, Filter.number, Filter.tokens, Connective.choice]

theorem addFilter_either (draft : Draft) (left right : Filter Literal) :
    draft.addFilter (.either left right) =
      ((draft.append [⟨.filter, Connective.or.choice⟩]).addFilter left).addFilter right := by
  simp [addFilter, append, Filter.number, Filter.tokens, Connective.choice]

theorem addFilter_value (draft : Draft) (test : ValueTest) (column : Column) (literal : Literal) :
    draft.addFilter (.value test column literal) =
      (draft.append (⟨.filter, test.choice⟩ :: column.tokens)).addLiteral literal := by
  simp [addFilter, addLiteral, append, Filter.number, Filter.tokens]

theorem addFilter_between (draft : Draft) (column : Column) (low high : Literal) :
    draft.addFilter (.between column low high) =
      ((draft.append (⟨.filter, betweenChoice⟩ :: column.tokens)).addLiteral low).addLiteral
        high := by
  simp [addFilter, addLiteral, append, Filter.number, Filter.tokens]

theorem addFilter_member (draft : Draft) (negated : Bool) (column : Column) :
    draft.addFilter (.member negated column) =
      draft.append (⟨.filter, memberChoice negated⟩ :: column.tokens) := by
  simp [addFilter, append, Filter.number, Filter.tokens]

theorem addFilter_query (draft : Draft) (test : QueryTest) (column : Column)
    (root : Root Literal) : draft.addFilter (.query test column root) =
      (draft.append (⟨.filter, test.choice⟩ :: column.tokens)).addRoot root := by
  simp [addFilter, addRoot, append, Filter.number, Filter.tokens]

theorem addFilter_memberOf (draft : Draft) (negated : Bool) (column : Column)
    (root : Root Literal) : draft.addFilter (.memberOf negated column root) =
      (draft.append (⟨.filter, memberChoice negated⟩ :: column.tokens)).addRoot root := by
  simp [addFilter, addRoot, append, Filter.number, Filter.tokens]

theorem addRoot_superlativeFilter (draft : Draft) (select : SelectNode) (sort : SortNode)
    (filter : Filter Literal) : draft.addRoot (.superlativeFilter select sort filter) =
      (((draft.append [⟨.root, Shape.superlativeFilter.choice⟩]).append select.tokens).append
        (sort.tokens .sup)).addFilter filter := by
  simp [addRoot, addFilter, append, Root.number, Root.tokens]

theorem addRoot_filterOrder (draft : Draft) (select : SelectNode) (filter : Filter Literal)
    (sort : SortNode) : draft.addRoot (.filterOrder select filter sort) =
      (((draft.append [⟨.root, Shape.filterOrder.choice⟩]).append select.tokens).addFilter
        filter).append (sort.tokens .order) := by
  simp [addRoot, addFilter, append, Root.number, Root.tokens]

theorem addRoot_superlative (draft : Draft) (select : SelectNode) (sort : SortNode) :
    draft.addRoot (.superlative select sort) =
      ((draft.append [⟨.root, Shape.superlative.choice⟩]).append select.tokens).append
        (sort.tokens .sup) := by
  simp [addRoot, append, Root.number, Root.tokens]

theorem addRoot_filter (draft : Draft) (select : SelectNode) (filter : Filter Literal) :
    draft.addRoot (.filter select filter) =
      ((draft.append [⟨.root, Shape.filter.choice⟩]).append select.tokens).addFilter filter := by
  simp [addRoot, addFilter, append, Root.number, Root.tokens]

theorem addRoot_order (draft : Draft) (select : SelectNode) (sort : SortNode) :
    draft.addRoot (.order select sort) =
      ((draft.append [⟨.root, Shape.order.choice⟩]).append select.tokens).append
        (sort.tokens .order) := by
  simp [addRoot, append, Root.number, Root.tokens]

theorem addRoot_plain (draft : Draft) (select : SelectNode) :
    draft.addRoot (.plain select) =
      (draft.append [⟨.root, Shape.plain.choice⟩]).append select.tokens := by
  simp [addRoot, append, Root.number, Root.tokens]

theorem ofDerivation_eq_run (derivation : Derivation Literal) :
    Encoding.ofDerivation derivation =
      { tokens := (derivation.number.run {}).run.1.tokens
        values := (derivation.number.run {}).run.2.toList } := rfl

theorem ofDerivation_single (root : Root Literal) : Encoding.ofDerivation (.single root) =
    ((append {} [⟨.root1, noSetOperationChoice⟩]).addRoot root).encoding := by
  simp [ofDerivation_eq_run, encoding, addRoot, append, Derivation.number, Derivation.tokens]

theorem ofDerivation_combined (operation : SetOperation) (left right : Root Literal) :
    Encoding.ofDerivation (.combined operation left right) =
      (((append {} [⟨.root1, operation.choice⟩]).addRoot left).addRoot right).encoding := by
  simp [ofDerivation_eq_run, encoding, addRoot, append, Derivation.number, Derivation.tokens]

end Draft

/-! ### Writers -/

/-- A computation that writes. -/
abbrev Writer : Type := StateT Draft Logged Unit

namespace Writer

/-- Append a token after a check that its symbol has the production. -/
def push (token : Token) : Writer := do
  let token ← token.checked
  modify fun draft => draft.append [token]

/-- Append the token of a literal, which is given its place. -/
def pushLiteral (literal : Literal) : Writer := do
  let place ← modifyGet fun draft =>
    ((draft.pool.insert literal).1, { draft with pool := (draft.pool.insert literal).2 })
  push ⟨.v, place⟩

/-- Fail. -/
def fail (failure : Failure) : Writer := liftM (Logged.fail failure : Logged Unit)

end Writer

/-- Whether values follow a test of this production. -/
def takesValues (choice : Nat) : Bool := 2 ≤ choice && choice ≤ 10

namespace Context

open Writer

/-- Write a column under an aggregate. -/
def writeColumn (context : Context) (wildcard : Logged Nat) (aggregate : Aggregate)
    (use : ColumnUse) : Writer := do
  push ⟨.a, aggregate.code⟩
  push ⟨.c, ← context.schema.columnIdentity use.column⟩
  let lookUp : Logged Nat :=
    if use.isWildcard then wildcard else context.schema.owningTable use.column
  push ⟨.t, ← lookUp⟩

/-- Write a select list. -/
def writeSelect (context : Context) (wildcard : Logged Nat) (list : SelectList) : Writer := do
  if list.items.isEmpty then fail (.malformed .emptySelectList)
  let distinct := list.distinct || list.items.any (·.term.left.distinct)
  push ⟨.sel, if distinct then 1 else 0⟩
  push ⟨.n, list.items.length - 1⟩
  list.items.forM fun item => context.writeColumn wildcard item.aggregate item.term.left

/-- Write the first sort key with its direction. -/
def writeSort (context : Context) (wildcard : Logged Nat) (symbol : Symbol)
    (order : Option SortOrder) : Writer :=
  match order with
  | none => fail (.malformed .limitWithoutSortOrder)
  | some { keys := [], .. } => fail (.malformed .sortOrderWithoutKey)
  | some { direction, keys := key :: _ } => do
    push ⟨symbol, direction.choice⟩
    context.writeColumn wildcard key.left.aggregate key.left

/-- Write the values that a condition compares with, if its test takes values. -/
def writeValues (condition : Condition) (nested : Bool) (choice : Nat) : Writer := do
  if takesValues choice then
    if nested then fail (.unsupportedNesting condition.operator)
    pushLiteral (← deriveLiteral condition.operator condition.value)
    if choice = betweenChoice then
      pushLiteral (← deriveLiteral condition.operator condition.upper)

/-- Write a condition; `nested` writes the query on its right-hand side, if that is one. -/
def writeCondition (context : Context) (wildcard : Logged Nat) (condition : Condition)
    (nested : Option Writer) : Writer := do
  let choice ← filterChoice condition.negated condition.operator nested.isSome
  push ⟨.filter, choice⟩
  let left := condition.left.left
  context.writeColumn wildcard left.aggregate left
  writeValues condition nested.isSome choice
  nested.getD (pure ())

/-- Write conditions, which a chain of at most three is grouped into by its connectives. -/
def writeJoined : List Writer → List Connective → Writer
  | [], [] => pure ()
  | [p], [] => p
  | [p, q], [c] => do
    push ⟨.filter, c.choice⟩
    p
    q
  | [p, q, r], [c, d] =>
    match c, d with
    | .and, .and => do
      push ⟨.filter, Connective.and.choice⟩
      p
      push ⟨.filter, Connective.and.choice⟩
      q
      r
    | .and, .or => do
      push ⟨.filter, Connective.or.choice⟩
      push ⟨.filter, Connective.and.choice⟩
      p
      q
      r
    | .or, .and => do
      push ⟨.filter, Connective.or.choice⟩
      push ⟨.filter, Connective.and.choice⟩
      q
      r
      p
    | .or, .or => do
      push ⟨.filter, Connective.or.choice⟩
      push ⟨.filter, Connective.or.choice⟩
      p
      q
      r
  | conditions, connectives =>
    fail (.malformed (.conditionCount conditions.length connectives.length))

/-- Write the first HAVING condition; a notice tells of others. -/
def writeHaving (context : Context) (conditions : List Writer) : Writer :=
  match conditions with
  | [] => pure ()
  | first :: _ => do
    if 1 < conditions.length then Logged.notice (.extraHaving conditions.length context.question)
    first

/-- Write the WHERE conditions, within the accepted number, and the HAVING conditions. -/
def writeFilter (context : Context) (restriction : List Writer) (connectives : List Connective)
    (having : List Writer) : Writer := do
  if context.maxConditions < restriction.length then
    fail (.tooManyConditions restriction.length context.maxConditions)
  if !restriction.isEmpty && !having.isEmpty then push ⟨.filter, Connective.and.choice⟩
  writeJoined restriction connectives
  context.writeHaving having

end Context

/-- Write the clauses of a query in the order of its shape, given the writers of its conditions. -/
def Query.writeClauses (context : Context) (q : Query) (restriction having : List Writer) :
    Writer := do
  let wildcard := context.wildcardTable q
  Writer.push ⟨.root, q.shape.choice⟩
  q.shape.clauses.forM fun
    | .select => context.writeSelect wildcard q.selectList
    | .superlative => context.writeSort wildcard .sup q.sortOrder
    | .filter => context.writeFilter restriction (Conditions.connectives q.restriction) having
    | .order => context.writeSort wildcard .order q.sortOrder

mutual

/-- Write a query without its set operations. -/
def Query.write (context : Context) (q : Query) : Writer :=
  match q with
  | { restriction, having, .. } =>
    let wildcard := context.wildcardTable q
    q.writeClauses context (writeConditions context wildcard restriction)
      (writeConditions context wildcard having)

/-- The writers of the conditions of a body. -/
def writeConditions (context : Context) (wildcard : Logged Nat) :
    Option (Chain Condition) → List Writer
  | none => []
  | some chain => writeChain context wildcard chain

/-- The writers of the conditions of a chain. -/
def writeChain (context : Context) (wildcard : Logged Nat) : Chain Condition → List Writer
  | .last condition => [Condition.write context wildcard condition]
  | .link condition _ rest =>
    Condition.write context wildcard condition :: writeChain context wildcard rest

/-- Write a condition, and the query on its right-hand side if that is one. -/
def Condition.write (context : Context) (wildcard : Logged Nat) (condition : Condition) :
    Writer :=
  match condition with
  | { value := some (.query q), .. } =>
    context.writeCondition wildcard condition (some (Query.write context q))
  | _ => context.writeCondition wildcard condition none

end

/-- Write a query with at most one set operation. -/
def Query.writeAll (context : Context) (q : Query) : Writer :=
  match q.setOperations with
  | [] => do
    Writer.push ⟨.root1, noSetOperationChoice⟩
    q.write context
  | [(operation, branch)] => do
    Writer.push ⟨.root1, operation.choice⟩
    q.write context
    branch.write context
  | many => Writer.fail (.conflictingSetOperations (many.map Prod.fst))

/-- The encoding of a query as it is written. -/
def Query.written (context : Context) (q : Query) : Logged Encoding := do
  let (_, draft) ← (q.writeAll context).run {}
  pure draft.encoding

/-! ### Pushing -/

namespace Writer

variable {draft : Draft}

theorem run_push {token : Token} (h : token.checked = .ok token) :
    (push token).run draft = pure ((), draft.append [token]) := by
  rw [push, h]
  rfl

theorem run_push_of_lt {symbol : Symbol} {choice limit : Nat}
    (h : symbol.productions? = some limit) (hlt : choice < limit) :
    (push ⟨symbol, choice⟩).run draft = pure ((), draft.append [⟨symbol, choice⟩]) := by
  apply run_push
  rw [Token.checked_eq_ok_iff]
  intro limit' hlimit'
  rwa [← Option.some.inj (h.symm.trans hlimit')]

theorem run_push_of_none {symbol : Symbol} {choice : Nat} (h : symbol.productions? = none) :
    (push ⟨symbol, choice⟩).run draft = pure ((), draft.append [⟨symbol, choice⟩]) := by
  apply run_push
  rw [Token.checked_eq_ok_iff]
  intro limit hlimit
  cases h.symm.trans hlimit

/-! The productions of all symbols but `N` come from tables that stay within the grammar. -/

@[simp] theorem run_push_shape (shape : Shape) :
    (push ⟨.root, shape.choice⟩).run draft = pure ((), draft.append [⟨.root, shape.choice⟩]) :=
  run_push_of_lt rfl shape.choice_lt

@[simp] theorem run_push_distinct (distinct : Bool) :
    (push ⟨.sel, if distinct then 1 else 0⟩).run draft =
      pure ((), draft.append [⟨.sel, if distinct then 1 else 0⟩]) := by
  cases distinct <;> rfl

@[simp] theorem run_push_aggregate (aggregate : Aggregate) :
    (push ⟨.a, aggregate.code⟩).run draft = pure ((), draft.append [⟨.a, aggregate.code⟩]) :=
  run_push_of_lt rfl aggregate.code_lt

@[simp] theorem run_push_c (identity : Nat) :
    (push ⟨.c, identity⟩).run draft = pure ((), draft.append [⟨.c, identity⟩]) :=
  run_push_of_none rfl

@[simp] theorem run_push_t (table : Nat) :
    (push ⟨.t, table⟩).run draft = pure ((), draft.append [⟨.t, table⟩]) :=
  run_push_of_none rfl

@[simp] theorem run_push_sup (direction : Direction) :
    (push ⟨.sup, direction.choice⟩).run draft =
      pure ((), draft.append [⟨.sup, direction.choice⟩]) :=
  run_push_of_lt rfl direction.choice_lt

@[simp] theorem run_push_order (direction : Direction) :
    (push ⟨.order, direction.choice⟩).run draft =
      pure ((), draft.append [⟨.order, direction.choice⟩]) :=
  run_push_of_lt rfl direction.choice_lt

@[simp] theorem run_push_connective (connective : Connective) :
    (push ⟨.filter, connective.choice⟩).run draft =
      pure ((), draft.append [⟨.filter, connective.choice⟩]) :=
  run_push_of_lt rfl connective.choice_lt

@[simp] theorem run_push_directTest (test : DirectTest) :
    (push ⟨.filter, test.choice⟩).run draft = pure ((), draft.append [⟨.filter, test.choice⟩]) :=
  run_push_of_lt rfl test.choice_lt

@[simp] theorem run_push_nestedTest (test : NestedTest) :
    (push ⟨.filter, test.choice⟩).run draft = pure ((), draft.append [⟨.filter, test.choice⟩]) :=
  run_push_of_lt rfl test.choice_lt

@[simp] theorem run_push_operation (operation : SetOperation) :
    (push ⟨.root1, operation.choice⟩).run draft =
      pure ((), draft.append [⟨.root1, operation.choice⟩]) :=
  run_push_of_lt rfl (Nat.lt_succ_of_lt operation.choice_lt)

@[simp] theorem run_push_noSetOperation :
    (push ⟨.root1, noSetOperationChoice⟩).run draft =
      pure ((), draft.append [⟨.root1, noSetOperationChoice⟩]) :=
  rfl

@[simp] theorem run_pushLiteral (literal : Literal) :
    (pushLiteral literal).run draft = pure ((), draft.addLiteral literal) := by
  have hpush (place : Nat) (draft : Draft) :
      (push ⟨.v, place⟩).run draft = pure ((), draft.append [⟨.v, place⟩]) :=
    run_push_of_none rfl
  simp [pushLiteral, hpush, Draft.addLiteral, Draft.append]

@[simp] theorem run_fail (failure : Failure) :
    (fail failure).run draft = Logged.fail failure := rfl

end Writer

/-! ### Transcriptions -/

/-- The writer fails as the computation does, and otherwise adds its result to the draft. -/
def Writer.Transcribes {α : Type} (writer : Writer) (x : Logged α) (add : Draft → α → Draft) :
    Prop :=
  ∀ draft, writer.run draft = x >>= fun a => pure ((), add draft a)

namespace Writer.Transcribes

variable {α : Type} {writer : Writer} {x : Logged α} {add add' : Draft → α → Draft}

theorem fail (failure : Failure) (add : Draft → α → Draft) :
    (Writer.fail failure).Transcribes (Logged.fail failure) add := by
  intro draft
  rw [run_fail]
  rfl

/-- Only what is added for actual results matters. -/
theorem congr (h : writer.Transcribes x add)
    (heq : ∀ draft a, x.outcome = .ok a → add' draft a = add draft a) :
    writer.Transcribes x add' := by
  intro draft
  rw [h draft]
  exact Logged.bind_congr_of_ok fun a ha => by rw [heq draft a ha]

/-- Writers of the items of a list, one after the other. -/
theorem forM {ι : Type} {items : List ι} {write : ι → Writer} {derive : ι → Logged α}
    {tokens : α → List Token} (h : ∀ i ∈ items,
      (write i).Transcribes (derive i) fun draft a => draft.append (tokens a)) :
    Transcribes (items.forM write) (items.mapM derive)
      fun draft results => draft.append (results.flatMap tokens) := by
  induction items with
  | nil =>
    intro draft
    simp [Draft.append]
  | cons i items ih =>
    rw [List.forall_mem_cons] at h
    intro draft
    show (write i >>= fun _ => items.forM write).run draft = _
    simp only [StateT.run_bind, h.1 draft, ih h.2 _, List.mapM_cons, bind_assoc, pure_bind,
      Draft.append_append, List.flatMap_cons]

end Writer.Transcribes

namespace Context

open Writer

variable {context : Context} {wildcard : Logged Nat}

theorem writeColumn_transcribes (aggregate : Aggregate) (use : ColumnUse) :
    (context.writeColumn wildcard aggregate use).Transcribes
      (context.deriveColumn wildcard aggregate use)
      fun draft column => draft.append column.tokens := by
  intro draft
  by_cases hwildcard : use.isWildcard
  · simp [writeColumn, deriveColumn, Column.tokens, Draft.append_append, hwildcard]
  · simp [writeColumn, deriveColumn, Column.tokens, Draft.append_append, hwildcard]

theorem writeSelect_of_ne {list : SelectList} (h : list.items ≠ []) :
    context.writeSelect wildcard list = (do
      push ⟨.sel, if list.distinct || list.items.any (·.term.left.distinct) then 1 else 0⟩
      push ⟨.n, list.items.length - 1⟩
      list.items.forM fun item =>
        context.writeColumn wildcard item.aggregate item.term.left) := by
  have hempty : list.items.isEmpty = false := by simpa using h
  simp only [writeSelect, hempty, Bool.false_eq_true, if_false]

theorem writeSelect_transcribes (wildcard : Logged Nat) (list : SelectList) :
    (context.writeSelect wildcard list).Transcribes (context.deriveSelect wildcard list)
      fun draft select => draft.append select.tokens := by
  intro draft
  by_cases hempty : list.items = []
  · simp only [writeSelect, deriveSelect, hempty, List.isEmpty_nil, if_true]
    rfl
  rw [writeSelect_of_ne hempty, deriveSelect_of_ne hempty, StateT.run_bind, run_push_distinct,
    pure_bind, StateT.run_bind]
  by_cases hwidth : list.items.length - 1 < 5
  · have hn : (Token.mk .n (list.items.length - 1)).checked = .ok ⟨.n, list.items.length - 1⟩ :=
      checked_n_eq_ok_iff.mpr ⟨rfl, hwidth⟩
    have hcolumns : Transcribes
        (list.items.forM fun item => context.writeColumn wildcard item.aggregate item.term.left)
        (list.items.mapM fun item => context.deriveColumn wildcard item.aggregate item.term.left)
        fun draft columns => draft.append (columns.flatMap Column.tokens) :=
      .forM fun item _ => writeColumn_transcribes _ _
    rw [run_push hn, pure_bind, hcolumns, hn, Logged.liftM_ok, pure_bind, bind_assoc]
    -- there are as many columns as items
    refine Logged.bind_congr_of_ok fun columns h => ?_
    have hlength : list.items.length = columns.length :=
      (Logged.outcome_mapM_eq_ok_iff.mp h).length_eq
    simp [Draft.append_append, SelectNode.tokens, hlength]
  · obtain ⟨e, hn⟩ : ∃ e, (Token.mk .n (list.items.length - 1)).checked = .error e :=
      ⟨_, checked_n_eq_error_iff.mpr ⟨Nat.not_lt.mp hwidth, rfl⟩⟩
    rw [push, hn]
    rfl

theorem writeSort_transcribes (wildcard : Logged Nat) {symbol : Symbol}
    (hsymbol : symbol = .sup ∨ symbol = .order) (order : Option SortOrder) :
    (context.writeSort wildcard symbol order).Transcribes (context.deriveSort wildcard order)
      fun draft sort => draft.append (sort.tokens symbol) := by
  intro draft
  rcases order with _ | ⟨direction, _ | ⟨key, rest⟩⟩
  · rfl
  · rfl
  · rcases hsymbol with rfl | rfl
    · simp [writeSort, deriveSort, writeColumn_transcribes _ _ _, Draft.append_append,
        SortNode.tokens]
    · simp [writeSort, deriveSort, writeColumn_transcribes _ _ _, Draft.append_append,
        SortNode.tokens]

theorem writeValues_value (c : Condition) (test : ValueTest) :
    writeValues c false test.choice =
      liftM (deriveLiteral c.operator c.value) >>= pushLiteral := by
  cases test <;> simp [writeValues, takesValues, ValueTest.choice, betweenChoice]

theorem writeValues_between (c : Condition) : writeValues c false betweenChoice =
    liftM (deriveLiteral c.operator c.value) >>= fun low => pushLiteral low >>= fun _ =>
      liftM (deriveLiteral c.operator c.upper) >>= pushLiteral := by
  simp [writeValues, takesValues, betweenChoice]

theorem writeValues_member (c : Condition) (nested negated : Bool) :
    writeValues c nested (memberChoice negated) = pure () := by
  cases negated <;> rfl

theorem writeValues_query (c : Condition) (test : QueryTest) :
    writeValues c true test.choice = pure () := by
  cases test <;> rfl

theorem writeValues_pattern (c : Condition) (negated : Bool) :
    writeValues c true (NestedTest.pattern negated).choice =
      fail (.unsupportedNesting c.operator) := by
  cases negated <;> rfl

theorem run_writeCondition_of_ok {c : Condition} {nested : Option Writer} {choice : Nat}
    {draft : Draft} (h : filterChoice c.negated c.operator nested.isSome = .ok choice)
    (hlt : choice < 20) :
    (context.writeCondition wildcard c nested).run draft =
      context.deriveColumn wildcard c.left.left.aggregate c.left.left >>= fun column =>
        (writeValues c nested.isSome choice >>= fun _ => nested.getD (pure ())).run
          (draft.append (⟨.filter, choice⟩ :: column.tokens)) := by
  have hpush (draft : Draft) : (push ⟨.filter, choice⟩).run draft =
      pure ((), draft.append [⟨.filter, choice⟩]) := run_push_of_lt rfl hlt
  rw [writeCondition, h]
  simp [Logged.liftM_ok, writeColumn_transcribes _ _ _, hpush, Draft.append_append]

theorem writeCondition_direct (c : Condition) :
    (context.writeCondition wildcard c none).Transcribes (context.deriveDirect wildcard c)
      Draft.addFilter := by
  intro draft
  rcases htest : DirectTest.ofOperator c.negated c.operator with e | test
  · -- nothing is written of a condition without a production
    simp only [writeCondition, deriveDirect, filterChoice, htest]
    rfl
  have hchoice : filterChoice c.negated c.operator (none : Option Writer).isSome =
      .ok test.choice := by
    simp [filterChoice, htest, Except.map]
  rw [run_writeCondition_of_ok hchoice test.choice_lt, deriveDirect, htest, Logged.liftM_ok,
    pure_bind, bind_assoc]
  refine bind_congr fun column => ?_
  -- the literals are read from the production again, where the derivation has the test at hand
  rcases test with test | _ | negated
  · show (writeValues c false test.choice >>= fun _ => pure ()).run _ = _
    simp [writeValues_value, Draft.addFilter_value, DirectTest.choice]
  · show (writeValues c false betweenChoice >>= fun _ => pure ()).run _ = _
    simp [writeValues_between, Draft.addFilter_between, DirectTest.choice]
  · show (writeValues c false (memberChoice negated) >>= fun _ => pure ()).run _ = _
    simp [writeValues_member, Draft.addFilter_member, DirectTest.choice]

theorem writeCondition_nested (c : Condition) {writer : Writer} {root : Logged (Root Literal)}
    (hwriter : writer.Transcribes root Draft.addRoot) :
    (context.writeCondition wildcard c (some writer)).Transcribes
      (context.deriveNested wildcard c root) Draft.addFilter := by
  intro draft
  rcases htest : NestedTest.ofOperator c.negated c.operator with e | test
  · simp only [writeCondition, deriveNested, filterChoice, htest]
    rfl
  have hchoice : filterChoice c.negated c.operator (some writer).isSome = .ok test.choice := by
    simp [filterChoice, htest, Except.map]
  rw [run_writeCondition_of_ok hchoice test.choice_lt, deriveNested, htest, Logged.liftM_ok,
    pure_bind, bind_assoc]
  refine bind_congr fun column => ?_
  rcases test with test | negated | negated
  · show (writeValues c true test.choice >>= fun _ => writer).run _ = _
    simp [writeValues_query, hwriter _, Draft.addFilter_query, NestedTest.choice]
  · show (writeValues c true (memberChoice negated) >>= fun _ => writer).run _ = _
    simp [writeValues_member, hwriter _, Draft.addFilter_memberOf, NestedTest.choice]
  · show (writeValues c true (NestedTest.pattern negated).choice >>= fun _ => writer).run _ = _
    rw [writeValues_pattern]
    rfl

end Context

/-! ### Bodies -/

/-- Write what is at the leaves of a tree, with the connectives in front of what they join. -/
def Junction.write {ι : Type} (write : ι → Writer) : Junction ι → Writer
  | .leaf i => write i
  | .and l r => do
    Writer.push ⟨.filter, Connective.and.choice⟩
    l.write write
    r.write write
  | .or l r => do
    Writer.push ⟨.filter, Connective.or.choice⟩
    l.write write
    r.write write

section Bodies

variable {context : Context} {ι : Type} {write : ι → Writer} {derive : ι → Logged (Filter Literal)}

theorem Junction.write_transcribes {tree : Junction ι}
    (h : ∀ i ∈ tree.leaves, (write i).Transcribes (derive i) Draft.addFilter) :
    (tree.write write).Transcribes (tree.join derive) Draft.addFilter := by
  induction tree with
  | leaf i => exact h i (List.mem_singleton_self i)
  | and l r hl hr =>
    rw [leaves, List.forall_mem_append] at h
    intro draft
    simp [Junction.write, join, hl h.1 _, hr h.2 _, Draft.addFilter_both]
  | or l r hl hr =>
    rw [leaves, List.forall_mem_append] at h
    intro draft
    simp [Junction.write, join, hl h.1 _, hr h.2 _, Draft.addFilter_either]

namespace Context

/-- Conditions are written along the tree of their chain. -/
theorem writeJoined_eq (write : ι → Writer) (chain : Chain ι) :
    writeJoined (chain.items.map write) chain.connectives =
      chain.junction?.elim (Writer.fail (.malformed (.conditionCount chain.length
        chain.connectives.length))) (Junction.write write) := by
  -- one case for each pattern of connectives, and one for the chains that are too long
  rcases chain with p | ⟨p, _ | _, q | ⟨q, _ | _, r | ⟨r, c, rest⟩⟩⟩ <;>
    simp [writeJoined, Chain.junction?, Junction.write, Chain.length, Chain.items,
      Chain.connectives]

theorem writeJoined_transcribes {chain : Chain ι}
    (h : ∀ i ∈ chain.items, (write i).Transcribes (derive i) Draft.addFilter) :
    (writeJoined (chain.items.map write) chain.connectives).Transcribes
      (joinConditions (chain.map derive)) Draft.addFilter := by
  rw [writeJoined_eq, joinConditions_eq]
  rcases htree : chain.junction? with _ | tree
  · exact .fail _ _
  · apply Junction.write_transcribes
    intro i hi
    rw [Chain.leaves_junction? htree, Chain.mem_written] at hi
    exact h i hi

theorem writeHaving_transcribes {chain : Chain ι}
    (h : (write chain.head).Transcribes (derive chain.head) Draft.addFilter) :
    (context.writeHaving (chain.items.map write)).Transcribes
      (context.deriveHaving (chain.map derive)) Draft.addFilter := by
  intro draft
  rcases chain with x | ⟨x, c, rest⟩
  · exact h draft
  · have hx : (write x).Transcribes (derive x) Draft.addFilter := h
    have hlength : ((Chain.link x c rest).map derive).length =
        (List.map write (Chain.link x c rest).items).length := by simp [Chain.length]
    rw [deriveHaving, hlength]
    simp only [writeHaving, Chain.items, List.map_cons]
    split_ifs
    · simp [hx _, Chain.map, Chain.head]
    · exact hx draft

theorem writeFilter_of_lt {restriction having : List Writer} {connectives : List Connective}
    (h : context.maxConditions < restriction.length) :
    context.writeFilter restriction connectives having =
      Writer.fail (.tooManyConditions restriction.length context.maxConditions) := by
  simp only [writeFilter, h, if_true]
  rfl

theorem deriveFilter_of_lt {first : Chain (Logged (Filter Literal))}
    {having : Option (Chain (Logged (Filter Literal)))}
    (h : context.maxConditions < first.length) : context.deriveFilter (some first) having =
      Logged.fail (.tooManyConditions first.length context.maxConditions) := by
  cases having <;> simp only [deriveFilter, deriveRestriction, h, if_true] <;> rfl

theorem writeFilter_transcribes {write : Condition → Writer}
    {derive : Condition → Logged (Filter Literal)} {restriction having : Conditions}
    (hrestriction : ∀ c ∈ Conditions.items restriction,
      (write c).Transcribes (derive c) Draft.addFilter)
    (hhaving : ∀ chain, having = some chain →
      (write chain.head).Transcribes (derive chain.head) Draft.addFilter)
    (hfilter : restriction.isSome ∨ having.isSome) :
    (context.writeFilter ((Conditions.items restriction).map write)
      (Conditions.connectives restriction) ((Conditions.items having).map write)).Transcribes
      (context.deriveFilter (restriction.map (Chain.map derive)) (having.map (Chain.map derive)))
      Draft.addFilter := by
  intro draft
  rcases restriction with _ | first
  · rcases having with _ | second
    · simp at hfilter
    · have hsecond := context.writeHaving_transcribes (hhaving second rfl)
      simpa [writeFilter, deriveFilter, Conditions.items, Conditions.connectives, writeJoined]
        using hsecond draft
  have hjoined : (writeJoined (first.items.map write) first.connectives).Transcribes
      (joinConditions (first.map derive)) Draft.addFilter := writeJoined_transcribes hrestriction
  show (context.writeFilter (first.items.map write) first.connectives _).run draft = _
  by_cases hmany : context.maxConditions < first.length
  · -- too many conditions are told before anything is written
    have hitems : context.maxConditions < (first.items.map write).length := by
      rwa [List.length_map]
    have hmap : context.maxConditions < (first.map derive).length := by rwa [Chain.length_map]
    rw [writeFilter_of_lt hitems, Option.map_some, deriveFilter_of_lt hmap, List.length_map,
      Chain.length_map]
    rfl
  · have hitems : ¬ context.maxConditions < first.items.length := hmany
    rcases having with _ | second
    · simp [writeFilter, deriveFilter, deriveRestriction, hmany, hitems, hjoined _,
        Conditions.items, writeHaving]
    · have hsecond := context.writeHaving_transcribes (hhaving second rfl)
      simp [writeFilter, deriveFilter, deriveRestriction, hmany, hitems, hjoined _, hsecond _,
        Conditions.items, Chain.items_ne_nil, Draft.addFilter_both]

end Context

end Bodies

/-! ### Queries -/

namespace Condition

variable {context : Context} {wildcard : Logged Nat} {c : Condition}

theorem write_of_nested {n : Query} (h : c.nested? = some n) :
    Condition.write context wildcard c =
      context.writeCondition wildcard c (some (n.write context)) := by
  rcases c with ⟨negated, operator, left, _ | (q | x | s | use), upper⟩ <;>
    simp only [nested?, Option.some.injEq, reduceCtorEq] at h
  subst h
  rw [Condition.write]

theorem write_of_direct (h : c.nested? = none) :
    Condition.write context wildcard c = context.writeCondition wildcard c none := by
  rcases c with ⟨negated, operator, left, _ | (q | x | s | use), upper⟩ <;>
    simp only [nested?, reduceCtorEq] at h <;> rw [Condition.write] <;> simp

end Condition

namespace Query

variable {context : Context} {q : Query}

theorem writeChain_eq_map (wildcard : Logged Nat) (chain : Chain Condition) :
    writeChain context wildcard chain =
      chain.items.map (Condition.write context wildcard) := by
  induction chain with
  | last c => rw [writeChain, Chain.items, List.map_singleton]
  | link c connective rest ih => rw [writeChain, Chain.items, List.map_cons, ih]

theorem writeConditions_eq_map (wildcard : Logged Nat) (body : Conditions) :
    writeConditions context wildcard body =
      (Conditions.items body).map (Condition.write context wildcard) := by
  rcases body with _ | chain
  · rw [writeConditions]
    rfl
  · rw [writeConditions]
    exact writeChain_eq_map wildcard chain

theorem write_eq (q : Query) : q.write context = q.writeClauses context
    ((Conditions.items q.restriction).map
      (Condition.write context (context.wildcardTable q)))
    ((Conditions.items q.having).map (Condition.write context (context.wildcardTable q))) := by
  rcases q with ⟨selectList, sources, restriction, having, groupBy, sortOrder, limit, i, u, e⟩
  rw [write, writeConditions_eq_map, writeConditions_eq_map]

theorem writeClauses_transcribes {restriction having : List Writer}
    {restriction' having' : Option (Chain (Logged (Filter Literal)))}
    (hfilter : q.shape.hasFilter →
      (context.writeFilter restriction (Conditions.connectives q.restriction) having).Transcribes
        (context.deriveFilter restriction' having') Draft.addFilter) :
    (q.writeClauses context restriction having).Transcribes
      (q.deriveClauses context restriction' having') Draft.addRoot := by
  intro draft
  have hselect := context.writeSelect_transcribes (context.wildcardTable q) q.selectList
  have hsup := context.writeSort_transcribes (context.wildcardTable q) (.inl rfl) q.sortOrder
  have horder := context.writeSort_transcribes (context.wildcardTable q) (.inr rfl) q.sortOrder
  rw [writeClauses, deriveClauses]
  rcases hshape : q.shape <;> rw [hshape] at hfilter
  case superlativeFilter =>
    simp [Shape.clauses, hselect _, hsup _, hfilter rfl _, Draft.addRoot_superlativeFilter]
  case filterOrder =>
    simp [Shape.clauses, hselect _, horder _, hfilter rfl _, Draft.addRoot_filterOrder]
  case superlative =>
    simp [Shape.clauses, hselect _, hsup _, Draft.addRoot_superlative]
  case filter => simp [Shape.clauses, hselect _, hfilter rfl _, Draft.addRoot_filter]
  case order => simp [Shape.clauses, hselect _, horder _, Draft.addRoot_order]
  case plain => simp [Shape.clauses, hselect _, Draft.addRoot_plain]

/-- Writing a query adds its derivation to the draft. -/
theorem write_transcribes (q : Query) :
    (q.write context).Transcribes (q.derive context) Draft.addRoot := by
  -- the draft is arbitrary, so what holds of a nested query holds wherever it is written
  induction q using nestedInduction with
  | step q ih =>
    have hconditions (c : Condition) (hc : c ∈ q.conditions) :
        (Condition.write context (context.wildcardTable q) c).Transcribes
          (Condition.derive context (context.wildcardTable q) c) Draft.addFilter := by
      rcases hnested : c.nested? with _ | n
      · rw [Condition.write_of_direct hnested, Condition.derive_of_direct hnested]
        exact Context.writeCondition_direct c
      · rw [Condition.write_of_nested hnested, Condition.derive_of_nested hnested]
        exact Context.writeCondition_nested c (ih c hc n hnested)
    rw [write_eq, derive_eq]
    apply writeClauses_transcribes
    intro hfilter
    rw [hasFilter_shape, Bool.or_eq_true] at hfilter
    apply Context.writeFilter_transcribes _ _ hfilter
    · exact fun c hc => hconditions c (mem_conditions.mpr (.inl hc))
    · exact fun chain hchain => hconditions _ (mem_conditions.mpr (.inr ⟨chain, hchain, rfl⟩))

/-- **Writing gives the encoding.**  Writing a query token by token, with a check of every token,
has the result, the failure and the notices of encoding it. -/
theorem written_eq_encode (context : Context) (q : Query) :
    q.written context = q.encode context := by
  rw [written, encode, writeAll, derivation]
  -- no set operation, one, or several
  rcases hoperations : q.setOperations with _ | ⟨⟨operation, branch⟩, _ | ⟨second, rest⟩⟩
  · simp [q.write_transcribes _, Draft.ofDerivation_single]
  · simp [q.write_transcribes _, branch.write_transcribes _, Draft.ofDerivation_combined]
  · rfl

end Query

end QueryGrammar
