/-
QueryGrammar/Proofs/Layout.lean

The layout of queries.

A query is written as an object of clauses, down to the queries within it.  `Query.toJson` writes
all of its clauses.  `Query.Layout` is the relation to everything that a query may be written as:

    clauses that are empty may be missing, but for `select` and `from`,
    objects of clauses and of sources may have further members, of any content, and
    a number may be written as any integer or fraction that is read as it.

The numbers of columns and tables are words of 64 bits, and the codes of arithmetic operators are
words of 8 bits (`Query.fitsWords`); what is written does not ask for that.

Main result: `Query.toJson` writes a layout (`Query.layout_toJson`).
-/
import Mathlib.Data.List.Forall2
import QueryGrammar.Proofs.Expansion
import QueryGrammar.Query.Decode

namespace QueryGrammar

/-! ### Flat parts -/

/-- The code of an operator. -/
def Operator.code : Operator → Nat
  | .not => 0
  | .between => 1
  | .equal => 2
  | .greater => 3
  | .less => 4
  | .greaterEqual => 5
  | .lessEqual => 6
  | .unequal => 7
  | .member => 8
  | .like => 9
  | .is => 10
  | .existence => 11

/-- The spelling of a connective. -/
def Connective.name : Connective → String
  | .and => "and"
  | .or => "or"

/-- The spelling of a direction. -/
def Direction.name : Direction → String
  | .ascending => "asc"
  | .descending => "desc"

/-- The layout of a term. -/
def Term.toJson (term : Term) : Json :=
  .array [.ofNat term.operator, term.left.toJson, (term.right.map ColumnUse.toJson).getD .null]

/-- The layout of an entry of the select list. -/
def SelectItem.toJson (item : SelectItem) : Json :=
  .array [.ofNat item.aggregate.code, item.term.toJson]

/-- The layout of a select list. -/
def SelectList.toJson (list : SelectList) : Json :=
  .array [.bool list.distinct, .array (list.items.map SelectItem.toJson)]

/-- The layout of a sort order. -/
def SortOrder.toJson (order : SortOrder) : Json :=
  .array [.string order.direction.name, .array (order.keys.map Term.toJson)]

/-- The layout of the ORDER BY clause. -/
def SortOrder.clauseToJson : Option SortOrder → Json
  | none => .array []
  | some order => order.toJson

/-! ### Queries -/

/-- The conditions and connectives of a chain, in order. -/
def Chain.mixed {α : Type} : Chain α → List (Connective ⊕ α)
  | .last x => [.inr x]
  | .link x c rest => .inr x :: .inl c :: rest.mixed

mutual

/-- The layout of a query in which every clause is written. -/
def Query.toJson : Query → Json
  | { selectList, sources, restriction, having, groupBy, sortOrder, limit, intersect, union,
      except } =>
    .object
      [("except", branchToJson except),
        ("from", .object [("table_units", .array (sourcesToJson sources))]),
        ("groupBy", .array (groupBy.map ColumnUse.toJson)),
        ("having", .array (bodyToJson having)),
        ("intersect", branchToJson intersect),
        ("limit", (limit.map fun x => .number (.float x)).getD .null),
        ("orderBy", SortOrder.clauseToJson sortOrder),
        ("select", selectList.toJson),
        ("union", branchToJson union),
        ("where", .array (bodyToJson restriction))]

/-- The layout of the branch of a set operation. -/
def branchToJson : Option Query → Json
  | none => .null
  | some q => Query.toJson q

/-- The layouts of sources. -/
def sourcesToJson : List Source → List Json
  | [] => []
  | source :: rest => Source.toJson source :: sourcesToJson rest

/-- The layout of a source. -/
def Source.toJson : Source → Json
  | .table id => .array [.string "table_unit", .ofNat id]
  | .query q => .array [.string "sql", Query.toJson q]

/-- The layouts of the conditions and connectives of a body. -/
def bodyToJson : Option (Chain Condition) → List Json
  | none => []
  | some chain => chainToJson chain

/-- The layouts of the conditions and connectives of a chain. -/
def chainToJson : Chain Condition → List Json
  | .last c => [Condition.toJson c]
  | .link c connective rest => Condition.toJson c :: .string connective.name :: chainToJson rest

/-- The layout of a condition. -/
def Condition.toJson : Condition → Json
  | { negated, operator, left, value, upper } =>
    .array [.bool negated, .ofNat operator.code, left.toJson, operandToJson value,
      operandToJson upper]

/-- The layout of an operand that may be absent. -/
def operandToJson : Option Operand → Json
  | none => .null
  | some operand => Operand.toJson operand

/-- The layout of an operand. -/
def Operand.toJson : Operand → Json
  | .query q => Query.toJson q
  | .number x => .number (.float x)
  | .text s => .string s
  | .column use => use.toJson

end

/-- Whether the clause of a name is empty, so that it may be missing. -/
def Query.lacks (q : Query) : String → Bool
  | "where" => q.restriction.isNone
  | "having" => q.having.isNone
  | "groupBy" => q.groupBy.isEmpty
  | "orderBy" => q.sortOrder.isNone
  | "limit" => q.limit.isNone
  | "intersect" => q.intersect.isNone
  | "union" => q.union.isNone
  | "except" => q.except.isNone
  | _ => false

mutual

/-- The value is a layout of the query. -/
inductive Query.Layout : Query → Json → Prop
  | object {q : Query} {members : List (String × Json)}
      (clauses : ∀ member ∈ members, Query.ClauseLayout q member.1 member.2)
      (complete : ∀ name ∈ Query.Clauses.names, q.lacks name = false →
        name ∈ Keyed.keys members) : Query.Layout q (.object members)

/-- The value may stand under the name in a layout of the query. -/
inductive Query.ClauseLayout : Query → String → Json → Prop
  | selectList {q : Query} : Query.ClauseLayout q "select" q.selectList.toJson
  | sources {q : Query} {v : Json} (clause : Source.ClauseLayout q.sources v) :
      Query.ClauseLayout q "from" v
  | restriction {q : Query} {v : Json} (body : Conditions.Layout q.restriction v) :
      Query.ClauseLayout q "where" v
  | having {q : Query} {v : Json} (body : Conditions.Layout q.having v) :
      Query.ClauseLayout q "having" v
  | groupBy {q : Query} :
      Query.ClauseLayout q "groupBy" (.array (q.groupBy.map ColumnUse.toJson))
  | sortOrder {q : Query} :
      Query.ClauseLayout q "orderBy" (SortOrder.clauseToJson q.sortOrder)
  | limit {q : Query} {n : Number} (limited : q.limit = some n.toBinary64) :
      Query.ClauseLayout q "limit" (.number n)
  | unlimited {q : Query} (absent : q.limit = none) : Query.ClauseLayout q "limit" .null
  | branch {q b : Query} {v : Json} (operation : SetOperation)
      (present : q.branch? operation = some b) (layout : Query.Layout b v) :
      Query.ClauseLayout q operation.name v
  | single {q : Query} (operation : SetOperation) (absent : q.branch? operation = none) :
      Query.ClauseLayout q operation.name .null
  | unknown {q : Query} {name : String} {v : Json} (other : name ∉ Query.Clauses.names) :
      Query.ClauseLayout q name v

/-- The value is a layout of the FROM clause with the sources. -/
inductive Source.ClauseLayout : List Source → Json → Prop
  | object {sources : List Source} {members : List (String × Json)}
      (units : ∀ member ∈ members, member.1 = "table_units" →
        Source.ListLayout sources member.2)
      (complete : "table_units" ∈ Keyed.keys members) :
      Source.ClauseLayout sources (.object members)

/-- The value is a layout of the sources. -/
inductive Source.ListLayout : List Source → Json → Prop
  | array {sources : List Source} {items : List Json}
      (entries : List.Forall₂ Source.Layout sources items) :
      Source.ListLayout sources (.array items)

/-- The value is a layout of the source. -/
inductive Source.Layout : Source → Json → Prop
  | table (id : Nat) : Source.Layout (.table id) (.array [.string "table_unit", .ofNat id])
  | query {q : Query} {v : Json} (layout : Query.Layout q v) :
      Source.Layout (.query q) (.array [.string "sql", v])

/-- The value is a layout of the body of a WHERE or HAVING clause. -/
inductive Conditions.Layout : Option (Chain Condition) → Json → Prop
  | none : Conditions.Layout none (.array [])
  | some {chain : Chain Condition} {items : List Json}
      (entries : List.Forall₂ Condition.EntryLayout chain.mixed items) :
      Conditions.Layout (some chain) (.array items)

/-- The value is a layout of the connective or of the condition. -/
inductive Condition.EntryLayout : Connective ⊕ Condition → Json → Prop
  | connective (c : Connective) : Condition.EntryLayout (.inl c) (.string c.name)
  | condition {c : Condition} {value upper : Json} (layout : Operand.Layout c.value value)
      (layout_upper : Operand.Layout c.upper upper) : Condition.EntryLayout (.inr c)
        (.array [.bool c.negated, .ofNat c.operator.code, c.left.toJson, value, upper])

/-- The value is a layout of the operand. -/
inductive Operand.Layout : Option Operand → Json → Prop
  | none : Operand.Layout none .null
  | query {q : Query} {v : Json} (layout : Query.Layout q v) :
      Operand.Layout (some (.query q)) v
  | number (n : Number) : Operand.Layout (some (.number n.toBinary64)) (.number n)
  | text (s : String) : Operand.Layout (some (.text s)) (.string s)
  | column {use : ColumnUse} {v : Json} (layout : v = use.toJson) :
      Operand.Layout (some (.column use)) v

end

/-! ### Other layouts of the same query -/

namespace Query.Layout

variable {q : Query} {members : List (String × Json)} {name : String}

/-- A member of an unknown name may be added. -/
theorem insert (h : q.Layout (.object members)) (other : name ∉ Clauses.names) (v : Json) :
    q.Layout (.object (Keyed.insert name v members)) := by
  obtain ⟨clauses, complete⟩ := h
  refine .object (fun member hmember => ?_) fun present hpresent hlacks => ?_
  · rcases Keyed.mem_insert hmember with rfl | hmember
    · exact .unknown other
    · exact clauses member hmember
  · exact (Keyed.mem_keys_insert v members).mpr (.inr (complete present hpresent hlacks))

/-- An empty clause may be left out. -/
theorem remove (h : q.Layout (.object members)) (lacks : q.lacks name = true) :
    q.Layout (.object (members.filter fun member => member.1 ≠ name)) := by
  obtain ⟨clauses, complete⟩ := h
  refine .object (fun member hmember => ?_) fun present hpresent hlacks => ?_
  · exact clauses member (List.mem_of_mem_filter hmember)
  · obtain ⟨member, hmember, rfl⟩ := List.mem_map.mp (complete present hpresent hlacks)
    have hne : member.1 ≠ name := by
      rintro rfl
      exact Bool.false_ne_true (hlacks.symm.trans lacks)
    exact List.mem_map_of_mem (List.mem_filter.mpr ⟨hmember, decide_eq_true hne⟩)

end Query.Layout

/-! ### What is written is a layout -/

namespace Query

variable {q : Query}

/-- A branch is laid out under the name of its operation, and the absence of one as null. -/
theorem ClauseLayout.of_branch? (operation : SetOperation)
    (h : ∀ b, q.branch? operation = some b → b.Layout b.toJson) :
    q.ClauseLayout operation.name (branchToJson (q.branch? operation)) := by
  rcases hbranch : q.branch? operation with _ | b
  · rw [branchToJson]
    exact .single operation hbranch
  · rw [branchToJson]
    exact .branch operation hbranch (h b hbranch)

theorem ClauseLayout.of_limit :
    q.ClauseLayout "limit" ((q.limit.map fun x => .number (.float x)).getD .null) := by
  rcases hlimit : q.limit with _ | x
  · exact .unlimited hlimit
  · exact .limit (n := .float x) hlimit

end Query

theorem Source.ClauseLayout.of_list {sources : List Source} {v : Json}
    (h : Source.ListLayout sources v) :
    Source.ClauseLayout sources (.object [("table_units", v)]) := by
  refine .object (fun member hmember _ => ?_) (List.mem_singleton_self _)
  obtain rfl := List.mem_singleton.mp hmember
  exact h

mutual

theorem Query.layout_toJson : (q : Query) → q.Layout q.toJson
  | { selectList, sources, restriction, having, groupBy, sortOrder, limit, intersect, union,
      except } => by
    have hintersect : ∀ b, intersect = some b → b.Layout b.toJson := layout_branchToJson intersect
    have hunion : ∀ b, union = some b → b.Layout b.toJson := layout_branchToJson union
    have hexcept : ∀ b, except = some b → b.Layout b.toJson := layout_branchToJson except
    have hsources := forall₂_sourcesToJson sources
    have hrestriction := layout_bodyToJson restriction
    have hhaving := layout_bodyToJson having
    rw [Query.toJson]
    refine .object ?_ fun name hname _ => ?_
    · simp only [List.forall_mem_cons, List.not_mem_nil, false_implies, implies_true, and_true]
      exact ⟨.of_branch? .except hexcept, .sources (.of_list (.array hsources)), .groupBy,
        .having hhaving, .of_branch? .intersect hintersect, .of_limit, .sortOrder, .selectList,
        .of_branch? .union hunion, .restriction hrestriction⟩
    · have hnames : ∀ name ∈ Query.Clauses.names, name ∈ ["except", "from", "groupBy", "having",
          "intersect", "limit", "orderBy", "select", "union", "where"] := by decide
      exact hnames name hname

theorem layout_branchToJson : (branch : Option Query) → ∀ b, branch = some b → b.Layout b.toJson
  | none => nofun
  | some b => fun _ h => Option.some.inj h ▸ Query.layout_toJson b

theorem forall₂_sourcesToJson :
    (sources : List Source) → List.Forall₂ Source.Layout sources (sourcesToJson sources)
  | [] => by
    rw [sourcesToJson]
    exact .nil
  | source :: rest => by
    rw [sourcesToJson]
    exact .cons (Source.layout_toJson source) (forall₂_sourcesToJson rest)

theorem Source.layout_toJson : (source : Source) → source.Layout source.toJson
  | .table id => by
    rw [Source.toJson]
    exact .table id
  | .query q => by
    rw [Source.toJson]
    exact .query (Query.layout_toJson q)

theorem layout_bodyToJson :
    (body : Option (Chain Condition)) → Conditions.Layout body (.array (bodyToJson body))
  | none => by
    rw [bodyToJson]
    exact .none
  | some chain => by
    rw [bodyToJson]
    exact .some (forall₂_chainToJson chain)

theorem forall₂_chainToJson :
    (chain : Chain Condition) → List.Forall₂ Condition.EntryLayout chain.mixed (chainToJson chain)
  | .last c => by
    rw [chainToJson, Chain.mixed]
    exact .cons (Condition.layout_toJson c) .nil
  | .link c connective rest => by
    rw [chainToJson, Chain.mixed]
    exact .cons (Condition.layout_toJson c)
      (.cons (.connective connective) (forall₂_chainToJson rest))

theorem Condition.layout_toJson : (c : Condition) → Condition.EntryLayout (.inr c) c.toJson
  | { negated, operator, left, value, upper } => by
    rw [Condition.toJson]
    exact Condition.EntryLayout.condition
      (c := { negated, operator, left, value, upper })
      (layout_operandToJson value) (layout_operandToJson upper)

theorem layout_operandToJson :
    (operand : Option Operand) → Operand.Layout operand (operandToJson operand)
  | none => by
    rw [operandToJson]
    exact .none
  | some (.query q) => by
    rw [operandToJson, Operand.toJson]
    exact .query (Query.layout_toJson q)
  | some (.number x) => by
    rw [operandToJson, Operand.toJson]
    exact .number (.float x)
  | some (.text s) => by
    rw [operandToJson, Operand.toJson]
    exact .text s
  | some (.column use) => by
    rw [operandToJson, Operand.toJson]
    exact .column rfl

end

/-! ### Words -/

/-- Whether the number of the column is a word. -/
def ColumnUse.fitsWord (use : ColumnUse) : Bool := decide (use.column < wordBound)

/-- Whether the numbers in a term are words. -/
def Term.fitsWords (term : Term) : Bool :=
  decide (term.operator < 256) && term.left.fitsWord && term.right.all ColumnUse.fitsWord

mutual

/-- Whether the numbers in a query are words. -/
def Query.fitsWords : Query → Bool
  | { selectList, sources, restriction, having, groupBy, sortOrder, limit := _, intersect, union,
      except } =>
    selectList.items.all (·.term.fitsWords) && sourcesFitWords sources &&
      bodyFitsWords restriction && bodyFitsWords having && groupBy.all ColumnUse.fitsWord &&
      sortOrder.all (fun order => order.keys.all Term.fitsWords) &&
      branchFitsWords intersect && branchFitsWords union && branchFitsWords except

/-- Whether the numbers in the branch of a set operation are words. -/
def branchFitsWords : Option Query → Bool
  | none => true
  | some q => Query.fitsWords q

/-- Whether the numbers in sources are words. -/
def sourcesFitWords : List Source → Bool
  | [] => true
  | source :: rest => Source.fitsWords source && sourcesFitWords rest

/-- Whether the numbers in a source are words. -/
def Source.fitsWords : Source → Bool
  | .table id => decide (id < wordBound)
  | .query q => Query.fitsWords q

/-- Whether the numbers in a body are words. -/
def bodyFitsWords : Option (Chain Condition) → Bool
  | none => true
  | some chain => chainFitsWords chain

/-- Whether the numbers in a chain are words. -/
def chainFitsWords : Chain Condition → Bool
  | .last c => Condition.fitsWords c
  | .link c _ rest => Condition.fitsWords c && chainFitsWords rest

/-- Whether the numbers in a condition are words. -/
def Condition.fitsWords : Condition → Bool
  | { negated := _, operator := _, left, value, upper } =>
    left.fitsWords && operandFitsWords value && operandFitsWords upper

/-- Whether the numbers in an operand that may be absent are words. -/
def operandFitsWords : Option Operand → Bool
  | none => true
  | some operand => Operand.fitsWords operand

/-- Whether the numbers in an operand are words. -/
def Operand.fitsWords : Operand → Bool
  | .query q => Query.fitsWords q
  | .number _ | .text _ => true
  | .column use => use.fitsWord

end

end QueryGrammar
