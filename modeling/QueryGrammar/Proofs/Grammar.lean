/-
QueryGrammar/Proofs/Grammar.lean

The grammar, and derivations as its trees.

`Production` lists the productions: which symbols follow the choice that a token makes.  A tree of
tokens is grammatical if the children of every node are what its token produces
(`Tree.Grammatical`); written in preorder it is a sequence of tokens.

Every derivation is such a tree.  Its tokens are the tree in preorder (`Derivation.preorder_tree`),
the tree is grammatical as long as the select lists are neither empty nor too wide for their `N`
(`Derivation.grammatical_tree`), and its `Root` nodes are the trees of the queries that are derived
(`Derivation.rootNodes_tree`).
-/
import Mathlib.Data.List.Forall2
import Mathlib.Tactic.IntervalCases
import QueryGrammar.Proofs.Parts

namespace QueryGrammar

/-! ### Productions -/

/-- The symbols that follow a choice. -/
inductive Production : Token → List Symbol → Prop
  | combined {k : Nat} (choice : k < 3) : Production ⟨.root1, k⟩ [.root, .root]
  | single : Production ⟨.root1, 3⟩ [.root]
  | superlativeFilter : Production ⟨.root, 0⟩ [.sel, .sup, .filter]
  | filterOrder : Production ⟨.root, 1⟩ [.sel, .filter, .order]
  | superlative : Production ⟨.root, 2⟩ [.sel, .sup]
  | filter : Production ⟨.root, 3⟩ [.sel, .filter]
  | order : Production ⟨.root, 4⟩ [.sel, .order]
  | plain : Production ⟨.root, 5⟩ [.sel]
  | select {k : Nat} (choice : k < 2) : Production ⟨.sel, k⟩ [.n]
  | width {k : Nat} (choice : k < 5) : Production ⟨.n, k⟩ (List.replicate (k + 1) .a)
  | aggregate {k : Nat} (choice : k < 6) : Production ⟨.a, k⟩ [.c, .t]
  | column {k : Nat} : Production ⟨.c, k⟩ []
  | table {k : Nat} : Production ⟨.t, k⟩ []
  | most {k : Nat} (choice : k < 2) : Production ⟨.sup, k⟩ [.a]
  | sorted {k : Nat} (choice : k < 2) : Production ⟨.order, k⟩ [.a]
  | joined {k : Nat} (choice : k < 2) : Production ⟨.filter, k⟩ [.filter, .filter]
  | value {k : Nat} (choice : k ∈ [2, 3, 4, 5, 6, 7, 9, 10]) : Production ⟨.filter, k⟩ [.a, .v]
  | between : Production ⟨.filter, 8⟩ [.a, .v, .v]
  | query {k : Nat} (choice : k ∈ [11, 12, 13, 14, 15, 16, 17]) :
      Production ⟨.filter, k⟩ [.a, .root]
  | member {k : Nat} (choice : k ∈ [18, 19]) : Production ⟨.filter, k⟩ [.a]
  | memberOf {k : Nat} (choice : k ∈ [18, 19]) : Production ⟨.filter, k⟩ [.a, .root]
  | literal {k : Nat} : Production ⟨.v, k⟩ []

theorem Token.checked_eq_ok_iff {token : Token} :
    token.checked = .ok token ↔ ∀ limit, token.symbol.productions? = some limit →
      token.choice < limit := by
  unfold checked
  rcases token.symbol.productions? with _ | limit
  · simp
  · by_cases h : token.choice < limit <;> simp [h]

theorem Production.choice_lt {token : Token} {body : List Symbol} {limit : Nat}
    (h : Production token body) (hlimit : token.symbol.productions? = some limit) :
    token.choice < limit := by
  cases h with
  | value choice | query choice | member choice | memberOf choice =>
    simp only [List.mem_cons, List.not_mem_nil, or_false] at choice
    simp only [Symbol.productions?, Option.some.injEq] at hlimit
    dsimp only
    omega
  | column | table | literal => cases hlimit
  | _ =>
    simp only [Symbol.productions?, Option.some.injEq] at hlimit
    dsimp only
    omega

/-- The choices that produce something are exactly those that the symbols have. -/
theorem exists_production_iff {token : Token} :
    (∃ body, Production token body) ↔ token.checked = .ok token := by
  rw [Token.checked_eq_ok_iff]
  constructor
  · rintro ⟨body, h⟩ limit hlimit
    exact h.choice_lt hlimit
  · intro h
    rcases token with ⟨symbol, k⟩
    cases symbol <;> simp only [Symbol.productions?, Option.some.injEq, forall_eq'] at h
    case root1 =>
      rcases Nat.lt_succ_iff_lt_or_eq.mp h with hk | rfl
      · exact ⟨_, .combined hk⟩
      · exact ⟨_, .single⟩
    case root =>
      interval_cases k
      exacts [⟨_, .superlativeFilter⟩, ⟨_, .filterOrder⟩, ⟨_, .superlative⟩, ⟨_, .filter⟩,
        ⟨_, .order⟩, ⟨_, .plain⟩]
    case filter =>
      -- which of the forms of a filter each of the twenty choices announces
      have hcases : ∀ k < 20, k < 2 ∨ k = 8 ∨ k ∈ [2, 3, 4, 5, 6, 7, 9, 10] ∨
          k ∈ [11, 12, 13, 14, 15, 16, 17] ∨ k ∈ [18, 19] := by decide
      rcases hcases k h with hk | rfl | hk | hk | hk
      · exact ⟨_, .joined hk⟩
      · exact ⟨_, .between⟩
      · exact ⟨_, .value hk⟩
      · exact ⟨_, .query hk⟩
      · exact ⟨_, .member hk⟩
    case sel => exact ⟨_, .select h⟩
    case n => exact ⟨_, .width h⟩
    case a => exact ⟨_, .aggregate h⟩
    case c => exact ⟨_, .column⟩
    case t => exact ⟨_, .table⟩
    case sup => exact ⟨_, .most h⟩
    case order => exact ⟨_, .sorted h⟩
    case v => exact ⟨_, .literal⟩

/-! ### Trees of tokens -/

/-- A token with the trees of the symbols that follow it. -/
inductive Tree where
  | node (token : Token) (children : List Tree)

namespace Tree

/-- The token at the root of a tree. -/
def token : Tree → Token
  | node token _ => token

/-- The symbol at the root of a tree. -/
def symbol (tree : Tree) : Symbol := tree.token.symbol

mutual

/-- The subtrees of a tree, in preorder. -/
def subtrees : Tree → List Tree
  | node token children => node token children :: subtreesAll children

/-- The subtrees of some trees, in preorder. -/
def subtreesAll : List Tree → List Tree
  | [] => []
  | tree :: trees => subtrees tree ++ subtreesAll trees

end

/-- The tokens of a tree, in preorder. -/
def preorder (tree : Tree) : List Token := tree.subtrees.map token

/-- The subtrees that derive a query, in preorder. -/
def rootNodes (tree : Tree) : List Tree := tree.subtrees.filter fun t => t.symbol = .root

/-- The tree derives the symbol: the children of every node derive, in order, the symbols that
follow its choice. -/
inductive Derives : Tree → Symbol → Prop
  | node {token : Token} {body : List Symbol} {children : List Tree}
      (production : Production token body) (derives : List.Forall₂ Derives children body) :
      Derives (.node token children) token.symbol

variable {token : Token} {children : List Tree}

@[simp] theorem symbol_node : (node token children).symbol = token.symbol := rfl

theorem subtreesAll_eq_flatMap (trees : List Tree) :
    subtreesAll trees = trees.flatMap subtrees := by
  induction trees with
  | nil => rw [subtreesAll, List.flatMap_nil]
  | cons tree trees ih => rw [subtreesAll, List.flatMap_cons, ih]

theorem preorder_node : (node token children).preorder = token :: children.flatMap preorder := by
  rw [preorder, subtrees, subtreesAll_eq_flatMap, List.map_cons, List.map_flatMap]
  rfl

theorem rootNodes_node_of_ne (h : token.symbol ≠ .root) :
    (node token children).rootNodes = children.flatMap rootNodes := by
  rw [rootNodes, subtrees, subtreesAll_eq_flatMap, List.filter_cons_of_neg (by simp [h]),
    List.filter_flatMap]
  rfl

theorem rootNodes_node_of_eq (h : token.symbol = .root) :
    (node token children).rootNodes = node token children :: children.flatMap rootNodes := by
  rw [rootNodes, subtrees, subtreesAll_eq_flatMap, List.filter_cons_of_pos (by simp [h]),
    List.filter_flatMap]
  rfl

end Tree

/-! ### The trees of derivations -/

/-- The tree of a column. -/
def Column.tree (column : Column) : Tree :=
  .node ⟨.a, column.aggregate.code⟩ [.node ⟨.c, column.identity⟩ [], .node ⟨.t, column.table⟩ []]

/-- The tree of a select list. -/
def SelectNode.tree (select : SelectNode) : Tree :=
  .node ⟨.sel, if select.distinct then 1 else 0⟩
    [.node ⟨.n, select.columns.length - 1⟩ (select.columns.map Column.tree)]

/-- The tree of a superlative or of an order. -/
def SortNode.tree (symbol : Symbol) (sort : SortNode) : Tree :=
  .node ⟨symbol, sort.direction.choice⟩ [sort.column.tree]

/-- The tree of the place of a value. -/
def valueTree (place : Nat) : Tree := .node ⟨.v, place⟩ []

mutual

/-- The tree of a query. -/
def Root.tree : Root Nat → Tree
  | .superlativeFilter select sort filter =>
    .node ⟨.root, 0⟩ [select.tree, sort.tree .sup, Filter.tree filter]
  | .filterOrder select filter sort =>
    .node ⟨.root, 1⟩ [select.tree, Filter.tree filter, sort.tree .order]
  | .superlative select sort => .node ⟨.root, 2⟩ [select.tree, sort.tree .sup]
  | .filter select filter => .node ⟨.root, 3⟩ [select.tree, Filter.tree filter]
  | .order select sort => .node ⟨.root, 4⟩ [select.tree, sort.tree .order]
  | .plain select => .node ⟨.root, 5⟩ [select.tree]

/-- The tree of conditions. -/
def Filter.tree : Filter Nat → Tree
  | .both left right => .node ⟨.filter, 0⟩ [Filter.tree left, Filter.tree right]
  | .either left right => .node ⟨.filter, 1⟩ [Filter.tree left, Filter.tree right]
  | .value test column place => .node ⟨.filter, test.choice⟩ [column.tree, valueTree place]
  | .between column low high => .node ⟨.filter, 8⟩ [column.tree, valueTree low, valueTree high]
  | .query test column root => .node ⟨.filter, test.choice⟩ [column.tree, Root.tree root]
  | .member negated column => .node ⟨.filter, memberChoice negated⟩ [column.tree]
  | .memberOf negated column root =>
    .node ⟨.filter, memberChoice negated⟩ [column.tree, Root.tree root]

end

/-- The tree of a query with at most one set operation. -/
def Derivation.tree : Derivation Nat → Tree
  | .single root => .node ⟨.root1, 3⟩ [root.tree]
  | .combined operation left right => .node ⟨.root1, operation.choice⟩ [left.tree, right.tree]

/-! ### Symbols -/

@[simp] theorem Column.symbol_tree (column : Column) : column.tree.symbol = .a := rfl

@[simp] theorem SelectNode.symbol_tree (select : SelectNode) : select.tree.symbol = .sel := rfl

@[simp] theorem SortNode.symbol_tree (symbol : Symbol) (sort : SortNode) :
    (sort.tree symbol).symbol = symbol := rfl

@[simp] theorem symbol_valueTree (place : Nat) : (valueTree place).symbol = .v := rfl

/-- The choice at the root of the tree of a query is its shape. -/
theorem Root.token_tree (r : Root Nat) : r.tree.token = ⟨.root, r.shape.choice⟩ := by
  cases r <;> rw [Root.tree] <;> rfl

/-- The choice at the root of the tree of conditions is their production. -/
theorem Filter.token_tree (f : Filter Nat) : f.tree.token = ⟨.filter, f.choice⟩ := by
  cases f <;> rw [Filter.tree] <;> rfl

/-- The choice at the root of the tree is the set operation. -/
theorem Derivation.token_tree (d : Derivation Nat) :
    d.tree.token = ⟨.root1, (d.operation?.map SetOperation.choice).getD noSetOperationChoice⟩ := by
  cases d <;> rfl

@[simp] theorem Root.symbol_tree (r : Root Nat) : r.tree.symbol = .root := by
  rw [Tree.symbol, token_tree]

@[simp] theorem Filter.symbol_tree (f : Filter Nat) : f.tree.symbol = .filter := by
  rw [Tree.symbol, token_tree]

/-! ### Preorder -/

@[simp] theorem Column.preorder_tree (column : Column) : column.tree.preorder = column.tokens := rfl

@[simp] theorem SelectNode.preorder_tree (select : SelectNode) :
    select.tree.preorder = select.tokens := by
  simp only [tree, Tree.preorder_node, List.flatMap_cons, List.flatMap_nil, List.append_nil,
    List.flatMap_map, Column.preorder_tree, tokens]

@[simp] theorem SortNode.preorder_tree (symbol : Symbol) (sort : SortNode) :
    (sort.tree symbol).preorder = sort.tokens symbol := rfl

@[simp] theorem preorder_valueTree (place : Nat) : (valueTree place).preorder = [⟨.v, place⟩] := rfl

mutual

@[simp] theorem Root.preorder_tree : (r : Root Nat) → r.tree.preorder = r.tokens
  | .superlativeFilter _ _ f | .filterOrder _ f _ | .filter _ f => by
    simp [Root.tree, Root.tokens, Tree.preorder_node, Filter.preorder_tree f, Shape.choice]
  | .superlative .. | .order .. | .plain .. => by
    simp [Root.tree, Root.tokens, Tree.preorder_node, Shape.choice]

@[simp] theorem Filter.preorder_tree : (f : Filter Nat) → f.tree.preorder = f.tokens
  | .both f g | .either f g => by
    simp [Filter.tree, Filter.tokens, Tree.preorder_node, Filter.preorder_tree f,
      Filter.preorder_tree g]
  | .query _ _ r | .memberOf _ _ r => by
    simp [Filter.tree, Filter.tokens, Tree.preorder_node, Root.preorder_tree r]
  | .value .. | .between .. | .member .. => by
    simp [Filter.tree, Filter.tokens, Tree.preorder_node, betweenChoice]

end

/-- **The tokens of a derivation are its tree in preorder.** -/
theorem Derivation.preorder_tree (d : Derivation Nat) : d.tree.preorder = d.tokens := by
  cases d <;> simp [tree, tokens, Tree.preorder_node, noSetOperationChoice]

/-! ### The grammar -/

theorem Aggregate.code_lt (aggregate : Aggregate) : aggregate.code < 6 := by
  cases aggregate <;> simp [code]

theorem Column.derives_tree (column : Column) : column.tree.Derives .a :=
  .node (.aggregate column.aggregate.code_lt)
    (.cons (.node .column .nil) (.cons (.node .table .nil) .nil))

theorem derives_valueTree (place : Nat) : (valueTree place).Derives .v := .node .literal .nil

/-- A select list of a width that `N` can announce. -/
structure SelectNode.Fits (select : SelectNode) : Prop where
  one_le : 1 ≤ select.columns.length
  le_five : select.columns.length ≤ 5

theorem SelectNode.derives_tree {select : SelectNode} (h : select.Fits) :
    select.tree.Derives .sel := by
  have hcolumns : List.Forall₂ Tree.Derives (select.columns.map Column.tree)
      (List.replicate select.columns.length .a) := by
    rw [← List.map_const, List.forall₂_map_left_iff, List.forall₂_map_right_iff,
      List.forall₂_same]
    exact fun column _ => column.derives_tree
  have hproduction : Production ⟨.n, select.columns.length - 1⟩
      (List.replicate select.columns.length .a) := by
    have hchoice : select.columns.length - 1 < 5 := by
      have := h.le_five
      omega
    simpa only [Nat.sub_add_cancel h.one_le] using Production.width hchoice
  have hdistinct : (if select.distinct then 1 else 0) < 2 := by
    split_ifs <;> omega
  exact .node (.select hdistinct) (.cons (.node hproduction hcolumns) .nil)

theorem Direction.choice_lt (direction : Direction) : direction.choice < 2 := by
  cases direction <;> simp [choice]

theorem SortNode.derives_tree_sup (sort : SortNode) : (sort.tree .sup).Derives .sup :=
  .node (.most sort.direction.choice_lt) (.cons sort.column.derives_tree .nil)

theorem SortNode.derives_tree_order (sort : SortNode) : (sort.tree .order).Derives .order :=
  .node (.sorted sort.direction.choice_lt) (.cons sort.column.derives_tree .nil)

theorem ValueTest.choice_mem (test : ValueTest) :
    test.choice ∈ [2, 3, 4, 5, 6, 7, 9, 10] := by
  cases test <;> simp [choice]

theorem QueryTest.choice_mem (test : QueryTest) :
    test.choice ∈ [11, 12, 13, 14, 15, 16, 17] := by
  cases test <;> simp [choice]

theorem memberChoice_mem (negated : Bool) : memberChoice negated ∈ [18, 19] := by
  cases negated <;> simp [memberChoice]

theorem SetOperation.choice_lt (operation : SetOperation) : operation.choice < 3 := by
  cases operation <;> simp [choice]

mutual

theorem Root.derives_tree :
    (r : Root Nat) → (∀ r' ∈ r.roots, r'.select.Fits) → r.tree.Derives .root
  | .superlativeFilter s k f, h => by
    rw [Root.roots, List.forall_mem_cons] at h
    rw [Root.tree]
    exact .node .superlativeFilter (.cons (SelectNode.derives_tree h.1)
      (.cons k.derives_tree_sup (.cons (Filter.derives_tree f h.2) .nil)))
  | .filterOrder s f k, h => by
    rw [Root.roots, List.forall_mem_cons] at h
    rw [Root.tree]
    exact .node .filterOrder (.cons (SelectNode.derives_tree h.1)
      (.cons (Filter.derives_tree f h.2) (.cons k.derives_tree_order .nil)))
  | .superlative s k, h => by
    rw [Root.roots, List.forall_mem_singleton] at h
    rw [Root.tree]
    exact .node .superlative (.cons (SelectNode.derives_tree h) (.cons k.derives_tree_sup .nil))
  | .filter s f, h => by
    rw [Root.roots, List.forall_mem_cons] at h
    rw [Root.tree]
    exact .node .filter (.cons (SelectNode.derives_tree h.1)
      (.cons (Filter.derives_tree f h.2) .nil))
  | .order s k, h => by
    rw [Root.roots, List.forall_mem_singleton] at h
    rw [Root.tree]
    exact .node .order (.cons (SelectNode.derives_tree h) (.cons k.derives_tree_order .nil))
  | .plain s, h => by
    rw [Root.roots, List.forall_mem_singleton] at h
    rw [Root.tree]
    exact .node .plain (.cons (SelectNode.derives_tree h) .nil)

theorem Filter.derives_tree :
    (f : Filter Nat) → (∀ r ∈ f.roots, r.select.Fits) → f.tree.Derives .filter
  | .both f g, h | .either f g, h => by
    rw [Filter.roots, List.forall_mem_append] at h
    rw [Filter.tree]
    exact .node (.joined (by omega)) (.cons (Filter.derives_tree f h.1)
      (.cons (Filter.derives_tree g h.2) .nil))
  | .value test column place, _ => by
    rw [Filter.tree]
    exact .node (.value test.choice_mem) (.cons column.derives_tree
      (.cons (derives_valueTree place) .nil))
  | .between column low high, _ => by
    rw [Filter.tree]
    exact .node .between (.cons column.derives_tree
      (.cons (derives_valueTree low) (.cons (derives_valueTree high) .nil)))
  | .query test column r, h => by
    rw [Filter.roots] at h
    rw [Filter.tree]
    exact .node (.query test.choice_mem) (.cons column.derives_tree
      (.cons (Root.derives_tree r h) .nil))
  | .member negated column, _ => by
    rw [Filter.tree]
    exact .node (.member (memberChoice_mem negated)) (.cons column.derives_tree .nil)
  | .memberOf negated column r, h => by
    rw [Filter.roots] at h
    rw [Filter.tree]
    exact .node (.memberOf (memberChoice_mem negated)) (.cons column.derives_tree
      (.cons (Root.derives_tree r h) .nil))

end

/-- **A derivation is a tree of the grammar** if its select lists fit. -/
theorem Derivation.derives_tree (d : Derivation Nat) (h : ∀ r ∈ d.roots, r.select.Fits) :
    d.tree.Derives .root1 := by
  rcases d with r | ⟨operation, l, r⟩
  · exact .node .single (.cons (Root.derives_tree r h) .nil)
  · rw [roots, List.forall_mem_append] at h
    exact .node (.combined operation.choice_lt)
      (.cons (Root.derives_tree l h.1) (.cons (Root.derives_tree r h.2) .nil))

/-! ### Nodes of queries -/

@[simp] theorem Column.rootNodes_tree (column : Column) : column.tree.rootNodes = [] := rfl

@[simp] theorem rootNodes_valueTree (place : Nat) : (valueTree place).rootNodes = [] := rfl

@[simp] theorem SelectNode.rootNodes_tree (select : SelectNode) : select.tree.rootNodes = [] := by
  rw [tree, Tree.rootNodes_node_of_ne (by simp), List.flatMap_singleton,
    Tree.rootNodes_node_of_ne (by simp), List.flatMap_map, List.flatMap_eq_nil_iff]
  exact fun column _ => column.rootNodes_tree

@[simp] theorem SortNode.rootNodes_tree (sort : SortNode) {symbol : Symbol} (h : symbol ≠ .root) :
    (sort.tree symbol).rootNodes = [] := by
  rw [tree, Tree.rootNodes_node_of_ne h, List.flatMap_singleton, Column.rootNodes_tree]

mutual

@[simp] theorem Root.rootNodes_tree : (r : Root Nat) → r.tree.rootNodes = r.roots.map Root.tree
  | .superlativeFilter _ _ f | .filterOrder _ f _ | .filter _ f => by
    simp [Root.tree, Root.roots, Tree.rootNodes_node_of_eq, Filter.rootNodes_tree f]
  | .superlative .. | .order .. | .plain .. => by
    simp [Root.tree, Root.roots, Tree.rootNodes_node_of_eq]

@[simp] theorem Filter.rootNodes_tree :
    (f : Filter Nat) → f.tree.rootNodes = f.roots.map Root.tree
  | .both f g | .either f g => by
    simp [Filter.tree, Filter.roots, Tree.rootNodes_node_of_ne, Filter.rootNodes_tree f,
      Filter.rootNodes_tree g]
  | .query _ _ r | .memberOf _ _ r => by
    simp [Filter.tree, Filter.roots, Tree.rootNodes_node_of_ne, Root.rootNodes_tree r]
  | .value .. | .between .. | .member .. => by
    simp [Filter.tree, Filter.roots, Tree.rootNodes_node_of_ne]

end

/-- The nodes that derive a query are the trees of the derivations of queries, in order. -/
theorem Derivation.rootNodes_tree (d : Derivation Nat) :
    d.tree.rootNodes = d.roots.map Root.tree := by
  cases d <;> simp [tree, roots, Tree.rootNodes_node_of_ne]

end QueryGrammar
