/-
QueryGrammar/Proofs/Junction.lean

How conditions are joined.

A `Junction` is a tree of `and` and `or` over its leaves.  A chain of at most three has one, in
which `and` binds tighter than `or` (`Chain.junction?`), and joining derived conditions is joining
them along that tree (`Context.joinConditions_eq`).  So what a filter is made of is said by
recursion over a tree (`Junction.Builds`), not by patterns of connectives.  The leaves are labels of
any type, so that two occurrences of the same condition can be told apart.

Main result: if the conditions of two bodies, WHERE and HAVING, are joined, the tree has a leaf for
each condition of the first and for the head of the second, and it holds exactly if the bodies do
(`exists_builds_of_deriveFilter`).
-/
import QueryGrammar.Encoding
import QueryGrammar.Proofs.Expansion
import QueryGrammar.Proofs.Outcome

namespace QueryGrammar

/-! ### Trees of `and` and `or` -/

/-- A tree of `and` and `or`. -/
inductive Junction (ι : Type) where
  | leaf (label : ι)
  | and (left right : Junction ι)
  | or (left right : Junction ι)

namespace Junction

variable {ι κ : Type}

/-- The leaves of a tree, from left to right. -/
def leaves : Junction ι → List ι
  | .leaf i => [i]
  | .and l r | .or l r => l.leaves ++ r.leaves

/-- Whether a tree holds, by which of its leaves do. -/
def eval (w : ι → Bool) : Junction ι → Bool
  | .leaf i => w i
  | .and l r => l.eval w && r.eval w
  | .or l r => l.eval w || r.eval w

/-- Apply a function to every leaf. -/
def map (g : ι → κ) : Junction ι → Junction κ
  | .leaf i => .leaf (g i)
  | .and l r => .and (l.map g) (r.map g)
  | .or l r => .or (l.map g) (r.map g)

@[simp] theorem leaves_map (g : ι → κ) (tree : Junction ι) :
    (tree.map g).leaves = tree.leaves.map g := by
  induction tree with
  | leaf i => rfl
  | and l r hl hr | or l r hl hr => rw [map, leaves, leaves, hl, hr, List.map_append]

@[simp] theorem eval_map (g : ι → κ) (w : κ → Bool) (tree : Junction ι) :
    (tree.map g).eval w = tree.eval fun i => w (g i) := by
  induction tree with
  | leaf i => rfl
  | and l r hl hr | or l r hl hr => rw [map, eval, eval, hl, hr]

/-- Join what is derived for the labels along the tree. -/
def join (derive : ι → Logged (Filter Literal)) : Junction ι → Logged (Filter Literal)
  | .leaf i => derive i
  | .and l r => return .both (← l.join derive) (← r.join derive)
  | .or l r => return .either (← l.join derive) (← r.join derive)

/-- The filter joins what is derived for the labels as the tree does. -/
inductive Builds (derive : ι → Logged (Filter Literal)) : Junction ι → Filter Literal → Prop
  | leaf {i : ι} {f : Filter Literal} (derived : (derive i).outcome = .ok f) :
      Builds derive (.leaf i) f
  | and {l r : Junction ι} {f g : Filter Literal} (left : Builds derive l f)
      (right : Builds derive r g) : Builds derive (.and l r) (.both f g)
  | or {l r : Junction ι} {f g : Filter Literal} (left : Builds derive l f)
      (right : Builds derive r g) : Builds derive (.or l r) (.either f g)

variable {derive : ι → Logged (Filter Literal)}

theorem builds_of_join {tree : Junction ι} {f : Filter Literal}
    (h : (tree.join derive).outcome = .ok f) : tree.Builds derive f := by
  induction tree generalizing f with
  | leaf i => exact .leaf h
  | and l r hl hr =>
    simp only [join, Logged.outcome_bind_eq_ok_iff, Logged.outcome_pure, Except.ok.injEq] at h
    obtain ⟨g, hg, g', hg', rfl⟩ := h
    exact .and (hl hg) (hr hg')
  | or l r hl hr =>
    simp only [join, Logged.outcome_bind_eq_ok_iff, Logged.outcome_pure, Except.ok.injEq] at h
    obtain ⟨g, hg, g', hg', rfl⟩ := h
    exact .or (hl hg) (hr hg')

end Junction

/-! ### The tree of a chain -/

namespace Chain

variable {ι : Type}

/-- The tree of a chain of at most three; `and` binds tighter than `or`, and the pair that it joins
is written first. -/
def junction? : Chain ι → Option (Junction ι)
  | .last p => some (.leaf p)
  | .link p .and (.last q) => some (.and (.leaf p) (.leaf q))
  | .link p .or (.last q) => some (.or (.leaf p) (.leaf q))
  | .link p .and (.link q .and (.last r)) => some (.and (.leaf p) (.and (.leaf q) (.leaf r)))
  | .link p .and (.link q .or (.last r)) => some (.or (.and (.leaf p) (.leaf q)) (.leaf r))
  | .link p .or (.link q .and (.last r)) => some (.or (.and (.leaf q) (.leaf r)) (.leaf p))
  | .link p .or (.link q .or (.last r)) => some (.or (.or (.leaf p) (.leaf q)) (.leaf r))
  | _ => none

/-- A chain has a tree exactly if it has at most three items. -/
theorem isSome_junction? (chain : Chain ι) : chain.junction?.isSome ↔ chain.length ≤ 3 := by
  rcases chain with p | ⟨p, _ | _, q | ⟨q, _ | _, r | ⟨r, c, s | ⟨s, c', rest⟩⟩⟩⟩ <;>
    simp [junction?, length, items]

theorem leaves_junction? {chain : Chain ι} {tree : Junction ι} (h : chain.junction? = some tree) :
    tree.leaves = chain.written := by
  rcases chain with p | ⟨p, _ | _, q | ⟨q, _ | _, r | ⟨r, c, rest⟩⟩⟩ <;>
    simp only [junction?, Option.some.injEq, reduceCtorEq] at h <;> subst h <;> rfl

/-- The tree of a chain holds exactly if the chain does. -/
theorem eval_junction? {chain : Chain ι} {tree : Junction ι} (h : chain.junction? = some tree)
    (w : ι → Bool) : tree.eval w = chain.holds w := by
  rcases chain with p | ⟨p, _ | _, q | ⟨q, _ | _, r | ⟨r, c, rest⟩⟩⟩ <;>
    simp only [junction?, Option.some.injEq, reduceCtorEq] at h <;> subst h <;>
    simp only [Junction.eval, holds, holdsAfter, Bool.true_and]
  case link.and.link.and.last => rw [Bool.and_assoc]
  case link.or.link.and.last => rw [Bool.or_comm]
  case link.or.link.or.last => rw [Bool.or_assoc]

end Chain

/-! ### Joining conditions -/

namespace Context

variable {context : Context} {ι : Type}

/-- Conditions are joined along the tree of their chain. -/
theorem joinConditions_eq (derive : ι → Logged (Filter Literal)) (chain : Chain ι) :
    joinConditions (chain.map derive) =
      chain.junction?.elim (Logged.fail (.malformed (.conditionCount chain.length
        chain.connectives.length))) (Junction.join derive) := by
  -- one case for each pattern of connectives, and one for the chains that are too long
  rcases chain with p | ⟨p, _ | _, q | ⟨q, _ | _, r | ⟨r, c, rest⟩⟩⟩ <;>
    simp [Chain.map, joinConditions, Chain.junction?, Junction.join, Chain.length, Chain.items,
      Chain.connectives]

theorem outcome_deriveRestriction (chain : Chain (Logged (Filter Literal))) :
    (context.deriveRestriction chain).outcome =
      if context.maxConditions < chain.length then
        .error (.tooManyConditions chain.length context.maxConditions)
      else (joinConditions chain).outcome := by
  unfold deriveRestriction
  split_ifs
  · rfl
  · rfl

theorem outcome_deriveHaving (chain : Chain (Logged (Filter Literal))) :
    (context.deriveHaving chain).outcome = chain.head.outcome := by
  unfold deriveHaving
  split_ifs
  · rw [Logged.outcome_bind]
    rfl
  · rfl

end Context

section Joining

open Junction

variable {context : Context} {ι : Type} {derive : ι → Logged (Filter Literal)} {f : Filter Literal}

theorem exists_builds_of_deriveRestriction {chain : Chain ι}
    (h : (context.deriveRestriction (chain.map derive)).outcome = .ok f) :
    chain.length ≤ min context.maxConditions 3 ∧ ∃ tree : Junction ι, tree.Builds derive f ∧
      tree.leaves = chain.written ∧ ∀ w, tree.eval w = chain.holds w := by
  rw [Context.outcome_deriveRestriction, Chain.length_map] at h
  split_ifs at h with hcount
  rw [Context.joinConditions_eq] at h
  rcases htree : chain.junction? with _ | tree
  · simp [htree] at h
  · rw [htree] at h
    have hlength : chain.length ≤ 3 := by
      rw [← chain.isSome_junction?, htree]
      rfl
    exact ⟨by omega, tree, builds_of_join h, Chain.leaves_junction? htree,
      Chain.eval_junction? htree⟩

theorem builds_of_deriveHaving {chain : Chain ι}
    (h : (context.deriveHaving (chain.map derive)).outcome = .ok f) :
    Builds derive (.leaf chain.head) f := by
  rw [Context.outcome_deriveHaving, Chain.head_map] at h
  exact .leaf h

/-- The conditions of two bodies are joined to a tree over those of the first and the head of the
second, which holds exactly if both bodies do. -/
theorem exists_builds_of_deriveFilter {first second : Option (Chain ι)}
    (h : (context.deriveFilter (first.map (Chain.map derive))
      (second.map (Chain.map derive))).outcome = .ok f) :
    (∀ chain, first = some chain → chain.length ≤ min context.maxConditions 3) ∧
      ∃ tree : Junction ι, tree.Builds derive f ∧
        tree.leaves = (first.map Chain.written).getD [] ++ (second.map Chain.head).toList ∧
        ∀ w, tree.eval w = ((first.map (Chain.holds w)).getD true &&
          (second.map fun chain => w chain.head).getD true) := by
  -- neither body, the second alone, the first alone, or both
  rcases first with _ | first <;> rcases second with _ | second <;>
    simp only [Option.map_some, Option.map_none, Context.deriveFilter, Logged.outcome_fail,
      reduceCtorEq, Logged.outcome_bind_eq_ok_iff, Logged.outcome_pure, Except.ok.injEq] at h
  · refine ⟨by simp, .leaf second.head, builds_of_deriveHaving h, rfl, fun w => ?_⟩
    simp [eval]
  · obtain ⟨hlength, tree, hbuilds, hleaves, heval⟩ := exists_builds_of_deriveRestriction h
    refine ⟨by simpa using hlength, tree, hbuilds, by simpa using hleaves, fun w => ?_⟩
    simpa using heval w
  · obtain ⟨g, hg, g', hg', rfl⟩ := h
    obtain ⟨hlength, tree, hbuilds, hleaves, heval⟩ := exists_builds_of_deriveRestriction hg
    refine ⟨by simpa using hlength, .and tree (.leaf second.head),
      .and hbuilds (builds_of_deriveHaving hg'), ?_, fun w => ?_⟩
    · simp [leaves, hleaves]
    · simp [eval, heval]

end Joining

end QueryGrammar
