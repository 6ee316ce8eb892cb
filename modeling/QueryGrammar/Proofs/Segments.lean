/-
QueryGrammar/Proofs/Segments.lean

What the tokens of a filter mean.

The tokens of a filter are the tree that joins its conditions, in preorder: `Filter(0)` and
`Filter(1)` are the inner nodes, and at the leaves stand the segments that the conditions are
written as.  A segment may be of any length and hold such tokens itself, those of a nested query;
still the tree can be recovered from the tokens alone (`Junction.read`).

Conditions are written one after the other, each over the pool that the one before it leaves
(`Writes`).  Main result: the tree that is recovered from the tokens of a filter has exactly these
segments at its leaves, and it holds exactly if the conditions of the query do
(`Query.exists_junction`).
-/
import QueryGrammar.Proofs.Reading

namespace QueryGrammar

/-! ### Trees over segments -/

namespace Junction

/-- The tokens of a tree whose leaves are segments of tokens, in preorder. -/
def tokens : Junction (List Token) → List Token
  | .leaf segment => segment
  | .and l r => ⟨.filter, 0⟩ :: (l.tokens ++ r.tokens)
  | .or l r => ⟨.filter, 1⟩ :: (l.tokens ++ r.tokens)

/-- The tree of a filter, with the tokens of its conditions at the leaves. -/
def ofFilter : Filter Nat → Junction (List Token)
  | .both f g => .and (ofFilter f) (ofFilter g)
  | .either f g => .or (ofFilter f) (ofFilter g)
  | condition => .leaf condition.tokens

theorem tokens_ofFilter : (f : Filter Nat) → (ofFilter f).tokens = f.tokens
  | .both f g | .either f g => by
    rw [ofFilter, tokens, Filter.tokens, tokens_ofFilter f, tokens_ofFilter g]
  | .value .. | .between .. | .query .. | .member .. | .memberOf .. => by
    simp only [ofFilter, tokens]

/-- The tree in the tokens of a filter. -/
def read (tokens : List Token) : Option (Junction (List Token)) :=
  match Piece.addAll tokens [] with
  | [.filter f] => some (ofFilter f)
  | _ => none

/-- What is read is a tree of the tokens. -/
theorem tokens_of_read {ts : List Token} {tree : Junction (List Token)}
    (h : read ts = some tree) : tree.tokens = ts := by
  unfold read at h
  split at h
  · next f hpieces =>
    cases h
    have htokens := Piece.tokens_addAll ts []
    rw [hpieces, List.flatMap_singleton, List.flatMap_nil, List.append_nil] at htokens
    rw [tokens_ofFilter]
    exact htokens
  · cases h

/-- The tree of a filter is read back, as nothing follows the tokens of the filter. -/
theorem read_tokens {f : Filter Nat} (fits : ∀ r ∈ f.roots, r.select.Fits) :
    read f.tokens = some (ofFilter f) := by
  have hpieces : Piece.addAll f.tokens [] = [.filter f] :=
    Piece.addAll_filter f [] fits (.inr Piece.noRoot_nil)
  rw [read, hpieces]

end Junction

/-! ### Numbering changes the values alone -/

mutual

theorem Root.map_number {β : Type} (b : β) (pool : LiteralPool) : (r : Root Literal) →
    (r.number pool).1.map (fun _ => b) = r.map fun _ => b
  | .superlativeFilter s k f => by
    show Root.map _ (.superlativeFilter s k (f.number pool).1) = _
    rw [Root.map, Root.map, Filter.map_number b pool f]
  | .filterOrder s f k => by
    show Root.map _ (.filterOrder s (f.number pool).1 k) = _
    rw [Root.map, Root.map, Filter.map_number b pool f]
  | .filter s f => by
    show Root.map _ (.filter s (f.number pool).1) = _
    rw [Root.map, Root.map, Filter.map_number b pool f]
  | .superlative s k => by
    show Root.map _ (.superlative s k) = _
    rw [Root.map, Root.map]
  | .order s k => by
    show Root.map _ (.order s k) = _
    rw [Root.map, Root.map]
  | .plain s => by
    show Root.map _ (.plain s) = _
    rw [Root.map, Root.map]

theorem Filter.map_number {β : Type} (b : β) (pool : LiteralPool) : (f : Filter Literal) →
    (f.number pool).1.map (fun _ => b) = f.map fun _ => b
  | .both f g => by
    show Filter.map _ (.both (f.number pool).1 (g.number (f.number pool).2).1) = _
    rw [Filter.map, Filter.map, Filter.map_number b pool f, Filter.map_number b _ g]
  | .either f g => by
    show Filter.map _ (.either (f.number pool).1 (g.number (f.number pool).2).1) = _
    rw [Filter.map, Filter.map, Filter.map_number b pool f, Filter.map_number b _ g]
  | .value test column literal => by
    show Filter.map _ (.value test column (pool.insert literal).1) = _
    rw [Filter.map, Filter.map]
  | .between column low high => by
    show Filter.map _ (.between column (pool.insert low).1
      ((pool.insert low).2.insert high).1) = _
    rw [Filter.map, Filter.map]
  | .query test column r => by
    show Filter.map _ (.query test column (r.number pool).1) = _
    rw [Filter.map, Filter.map, Root.map_number b pool r]
  | .member negated column => by
    show Filter.map _ (.member negated column) = _
    rw [Filter.map, Filter.map]
  | .memberOf negated column r => by
    show Filter.map _ (.memberOf negated column (r.number pool).1) = _
    rw [Filter.map, Filter.map, Root.map_number b pool r]

end

/-- Numbering leaves the select lists of all queries in a filter as they are. -/
theorem Filter.fits_number {f : Filter Literal} (fits : ∀ r ∈ f.roots, r.select.Fits)
    (pool : LiteralPool) : ∀ r ∈ (f.number pool).1.roots, r.select.Fits := by
  intro r hr
  have hmem : r.map (fun _ => ()) ∈ f.roots.map (Root.map fun _ => ()) := by
    rw [← Filter.roots_map, ← Filter.map_number () pool f, Filter.roots_map]
    exact List.mem_map_of_mem hr
  obtain ⟨r', hr', hmap⟩ := List.mem_map.mp hmem
  have hselect : r'.select = r.select := by
    rw [← Root.select_map fun _ => (), hmap, Root.select_map]
  rw [← hselect]
  exact fits r' hr'

/-! ### Writing conditions one after the other -/

section Writing

variable {ι : Type} {derive : ι → Logged (Filter Literal)}

/-- What is derived for the labels is written one after the other, each label as its segment, from
the first pool to the last. -/
inductive Writes (derive : ι → Logged (Filter Literal)) :
    LiteralPool → List (ι × List Token) → LiteralPool → Prop
  | nil {pool : LiteralPool} : Writes derive pool [] pool
  | cons {pool last : LiteralPool} {i : ι} {f : Filter Literal} {rest : List (ι × List Token)}
      (derived : (derive i).outcome = .ok f) (writes : Writes derive (f.number pool).2 rest last) :
      Writes derive pool ((i, (f.number pool).1.tokens) :: rest) last

theorem Writes.append {pool middle last : LiteralPool} {ls ms : List (ι × List Token)}
    (h : Writes derive pool ls middle) (h' : Writes derive middle ms last) :
    Writes derive pool (ls ++ ms) last := by
  induction h with
  | nil => exact h'
  | cons derived _ ih => exact .cons derived (ih h')

/-- A filter that is built along a tree is written along it: every leaf of the tree as a segment of
its own, over the pool that the leaves before it leave. -/
theorem Junction.Builds.exists_segments {tree : Junction ι} {f : Filter Literal}
    (h : tree.Builds derive f)
    (single : ∀ i f, (derive i).outcome = .ok f → ∀ pool,
      ofFilter (f.number pool).1 = .leaf (f.number pool).1.tokens) (pool : LiteralPool) :
    ∃ segments : Junction (ι × List Token), segments.map Prod.fst = tree ∧
      segments.map Prod.snd = ofFilter (f.number pool).1 ∧
      Writes derive pool segments.leaves (f.number pool).2 := by
  induction h generalizing pool with
  | @leaf i f derived =>
    refine ⟨.leaf (i, (f.number pool).1.tokens), rfl, ?_, .cons derived .nil⟩
    rw [single i f derived pool]
    rfl
  | @and l r f g _ _ hl hr =>
    obtain ⟨sl, hsl, hfl, hwl⟩ := hl pool
    obtain ⟨sr, hsr, hfr, hwr⟩ := hr (f.number pool).2
    refine ⟨.and sl sr, by rw [map, hsl, hsr], ?_, hwl.append hwr⟩
    show _ = ofFilter (.both (f.number pool).1 (g.number (f.number pool).2).1)
    rw [map, hfl, hfr, ofFilter]
  | @or l r f g _ _ hl hr =>
    obtain ⟨sl, hsl, hfl, hwl⟩ := hl pool
    obtain ⟨sr, hsr, hfr, hwr⟩ := hr (f.number pool).2
    refine ⟨.or sl sr, by rw [map, hsl, hsr], ?_, hwl.append hwr⟩
    show _ = ofFilter (.either (f.number pool).1 (g.number (f.number pool).2).1)
    rw [map, hfl, hfr, ofFilter]

end Writing

/-! ### The filter of a query -/

/-- The filter that a query is derived to. -/
def Query.deriveFilter (context : Context) (q : Query) : Logged (Filter Literal) :=
  let derive := Condition.derive context (context.wildcardTable q)
  context.deriveFilter (q.restriction.map (Chain.map derive)) (q.having.map (Chain.map derive))

variable {context : Context} {q : Query}

/-- A query that is derived has the filter that it is derived to. -/
theorem Query.deriveFilter_of_derive {r : Root Literal} {f : Filter Literal}
    (h : (q.derive context).outcome = .ok r) (hf : r.filter? = some f) :
    (q.deriveFilter context).outcome = .ok f := by
  rw [derive_eq] at h
  obtain ⟨-, -, -, hfilter⟩ := clauses_of_deriveClauses h
  exact hfilter f hf

theorem Query.fits_of_derive {r : Root Literal} (h : (q.derive context).outcome = .ok r) :
    ∀ r' ∈ r.roots, r'.select.Fits := by
  intro r' hr'
  obtain ⟨n, -, hn⟩ := exists_left_of_forall₂ (q.derivesTo_expansion h) hr'
  exact hn.select.fits

namespace Condition.DerivesTo

variable {c : Condition} {f : Filter Literal}

theorem fits (h : c.DerivesTo context q f) : ∀ r ∈ f.roots, r.select.Fits := by
  cases h with
  | value | between | member =>
    rw [Filter.roots]
    exact fun r hr => absurd hr List.not_mem_nil
  | query _ _ _ derivation | memberOf _ _ _ derivation =>
    rw [Filter.roots]
    exact Query.fits_of_derive derivation

/-- A condition is written as one segment. -/
theorem ofFilter_number (h : c.DerivesTo context q f) (pool : LiteralPool) :
    Junction.ofFilter (f.number pool).1 = .leaf (f.number pool).1.tokens := by
  cases h <;> rfl

end Condition.DerivesTo

theorem Query.fits_of_deriveFilter {f : Filter Literal}
    (h : (q.deriveFilter context).outcome = .ok f) : ∀ r ∈ f.roots, r.select.Fits := by
  obtain ⟨-, hjoins⟩ := joins_of_deriveFilter h
  intro r hr
  rw [Filter.roots_eq_flatMap, List.mem_flatMap] at hr
  obtain ⟨leaf, hleaf, hr⟩ := hr
  obtain ⟨c, -, hc⟩ := exists_left_of_forall₂ hjoins.leaves hleaf
  exact hc.fits r hr

/-- The filter of a query whose conditions are told apart by labels. -/
theorem Query.deriveFilter_eq {ι : Type} {condition : ι → Condition}
    {first second : Option (Chain ι)}
    (restriction : q.restriction = first.map (Chain.map condition))
    (having : q.having = second.map (Chain.map condition)) :
    q.deriveFilter context = context.deriveFilter
      (first.map (Chain.map fun i => (condition i).derive context (context.wildcardTable q)))
      (second.map (Chain.map fun i => (condition i).derive context (context.wildcardTable q))) := by
  have hmap (body : Option (Chain ι)) : (body.map (Chain.map condition)).map
      (Chain.map (Condition.derive context (context.wildcardTable q))) =
        body.map (Chain.map fun i => (condition i).derive context (context.wildcardTable q)) := by
    rw [Option.map_map]
    congr 1
    funext chain
    exact Chain.map_map condition _ chain
  rw [deriveFilter, restriction, having, hmap, hmap]

/-- **What the tokens of a filter mean.**  Let the labels of two chains tell the conditions of WHERE
and HAVING apart.  From the tokens that the filter is written as, over any pool, a tree of `and` and
`or` can be read whose leaves are the segments of the WHERE conditions, each once, and of the first
HAVING condition, as they are written one after the other.  The tree holds exactly if WHERE does,
in which `and` binds tighter than `or`, and the first HAVING condition does; an absent body
holds. -/
theorem Query.exists_junction {ι : Type} {condition : ι → Condition}
    {first second : Option (Chain ι)}
    (restriction : q.restriction = first.map (Chain.map condition))
    (having : q.having = second.map (Chain.map condition)) {f : Filter Literal}
    (h : (q.deriveFilter context).outcome = .ok f) (pool : LiteralPool) :
    ∃ tree : Junction (ι × List Token),
      Junction.read (f.number pool).1.tokens = some (tree.map Prod.snd) ∧
      (tree.map Prod.snd).tokens = (f.number pool).1.tokens ∧
      Writes (fun i => (condition i).derive context (context.wildcardTable q)) pool tree.leaves
        (f.number pool).2 ∧
      (tree.leaves.map Prod.fst).Perm
        ((first.map Chain.items).getD [] ++ (second.map Chain.head).toList) ∧
      ∀ w : ι → Bool, tree.eval (fun leaf => w leaf.1) =
        ((first.map (Chain.holds w)).getD true &&
          (second.map fun chain => w chain.head).getD true) := by
  have hread := Junction.read_tokens (Filter.fits_number (fits_of_deriveFilter h) pool)
  rw [deriveFilter_eq restriction having] at h
  obtain ⟨-, labels, hbuilds, hleaves, heval⟩ := exists_builds_of_deriveFilter h
  -- every condition is written as a segment of its own
  obtain ⟨tree, hlabels, hsegments, hwrites⟩ := hbuilds.exists_segments
    (fun i f hf pool => (Condition.derivesTo_of_derive hf).ofFilter_number pool) pool
  refine ⟨tree, ?_, ?_, hwrites, ?_, fun w => ?_⟩
  · rw [hsegments]
    exact hread
  · rw [hsegments, Junction.tokens_ofFilter]
  · rw [← Junction.leaves_map, hlabels, hleaves]
    apply List.Perm.append_right
    rcases first with _ | chain
    · exact .refl _
    · exact chain.written_perm
  · rw [← heval w, ← hlabels, Junction.eval_map]

namespace Sample

/-- The filter of the inner query. -/
def innerFilter : Filter Literal :=
  .either
    (.both (.value .less { aggregate := .none, identity := 1, table := 1 } (.text "7"))
      (.value .equal { aggregate := .none, identity := 1, table := 1 } (.text "x")))
    (.value .equal { aggregate := .none, identity := 1, table := 1 } (.text "7"))

/-- The derivation of the inner query. -/
def innerRoot : Root Literal :=
  .filter
    { distinct := false, columns := [{ aggregate := .none, identity := 2, table := 1 }] }
    innerFilter

end Sample

/-- The conditions of the inner query, `p or q and r`, are its labels here. -/
theorem Query.exists_junction_sample :
    ∃ tree : Junction (Condition × List Token),
      Junction.read (Sample.innerTokens.drop 6) = some (tree.map Prod.snd) ∧
      (tree.map Prod.snd).tokens = Sample.innerTokens.drop 6 ∧
      Writes (fun c => c.derive Sample.shop (Sample.shop.wildcardTable Sample.inner)) {} tree.leaves
        (Sample.innerFilter.number {}).2 ∧
      (tree.leaves.map Prod.fst).Perm
        ((Sample.inner.restriction.map Chain.items).getD [] ++ []) ∧
      ∀ w : Condition → Bool, tree.eval (fun leaf => w leaf.1) =
        ((Sample.inner.restriction.map (Chain.holds w)).getD true && true) := by
  have hderive : (Sample.inner.derive Sample.shop).outcome = .ok Sample.innerRoot := rfl
  have hfilter : (Sample.inner.deriveFilter Sample.shop).outcome = .ok Sample.innerFilter :=
    deriveFilter_of_derive hderive rfl
  exact Query.exists_junction (show Sample.inner.restriction =
      Sample.inner.restriction.map (Chain.map fun c => c) by rfl)
    (show Sample.inner.having = (none : Option (Chain Condition)).map (Chain.map fun c => c) by rfl)
    hfilter {}

end QueryGrammar
