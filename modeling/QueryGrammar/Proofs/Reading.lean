/-
QueryGrammar/Proofs/Reading.lean

Reading derivations back from their tokens.

The tokens of a derivation have no marks of closing: where a select list, a filter or a query ends
follows from the choices alone.  They are read from the right.  Every token is put before the
pieces that have been read so far; if these begin with what its choice produces, they become the
node of that token, and if not, the token stands by itself (`Piece.add`).  So whatever follows a
derivation is kept piece by piece, and no token is lost (`Piece.tokens_addAll`).

The one choice that does not say what follows is that of a membership test, which may stand with a
query or without.  The reader takes the query if there is one.  Therefore reading gives back every
derivation in which no membership test stands without a query (`Derivation.read_tokens`), and the
encodings of queries of that kind are a prefix code (`Query.read_encode`).
-/
import QueryGrammar.Proofs.Mirror

namespace QueryGrammar

/-! ### Choices -/

/-- The first item of a list that has a choice. -/
def ofChoice? {α : Type} (choice : α → Nat) (items : List α) (k : Nat) : Option α :=
  items.find? fun a => choice a = k

theorem choice_of_ofChoice? {α : Type} {choice : α → Nat} {items : List α} {k : Nat} {a : α}
    (h : ofChoice? choice items k = some a) : choice a = k := by
  simpa using List.find?_some h

/-- The shapes in the order of their choices. -/
def Shape.all : List Shape :=
  [.superlativeFilter, .filterOrder, .superlative, .filter, .order, .plain]

/-- The directions in the order of their choices. -/
def Direction.all : List Direction := [.descending, .ascending]

/-- The set operations in the order of their choices. -/
def SetOperation.all : List SetOperation := [.intersect, .union, .except]

/-- The choice for a select list that is distinct or not. -/
def distinctChoice (distinct : Bool) : Nat := if distinct then 1 else 0

/-- What the choice for a filter announces. -/
inductive FilterForm where
  | both
  | either
  | value (test : ValueTest)
  | between
  | query (test : QueryTest)
  | member (negated : Bool)

namespace FilterForm

/-- The forms in the order of their choices. -/
def all : List FilterForm :=
  [.both, .either, .value .equal, .value .unequal, .value .less, .value .greater,
    .value .lessEqual, .value .greaterEqual, .between, .value .like, .value .unlike, .query .equal,
    .query .less, .query .greater, .query .unequal, .query .between, .query .greaterEqual,
    .query .lessEqual, .member false, .member true]

/-- The choice that announces a form. -/
def choice : FilterForm → Nat
  | both => 0
  | either => 1
  | value test => test.choice
  | between => betweenChoice
  | query test => test.choice
  | member negated => memberChoice negated

end FilterForm

section Choices

@[simp] theorem ofChoice?_aggregate (aggregate : Aggregate) :
    ofChoice? Aggregate.code Aggregate.all aggregate.code = some aggregate := by
  cases aggregate <;> rfl

@[simp] theorem ofChoice?_shape (shape : Shape) :
    ofChoice? Shape.choice Shape.all shape.choice = some shape := by
  cases shape <;> rfl

@[simp] theorem ofChoice?_direction (direction : Direction) :
    ofChoice? Direction.choice Direction.all direction.choice = some direction := by
  cases direction <;> rfl

@[simp] theorem ofChoice?_operation (operation : SetOperation) :
    ofChoice? SetOperation.choice SetOperation.all operation.choice = some operation := by
  cases operation <;> rfl

@[simp] theorem ofChoice?_distinct (distinct : Bool) :
    ofChoice? distinctChoice [false, true] (distinctChoice distinct) = some distinct := by
  cases distinct <;> rfl

@[simp] theorem ofChoice?_form (form : FilterForm) :
    ofChoice? FilterForm.choice FilterForm.all form.choice = some form := by
  rcases form with _ | _ | test | _ | test | negated
  case value => cases test <;> rfl
  case query => cases test <;> rfl
  case member => cases negated <;> rfl
  all_goals rfl

end Choices

/-! ### Pieces -/

/-- What has been read: a token that stands by itself, or a complete part of a derivation. -/
inductive Piece where
  | token (token : Token)
  | column (column : Column)
  | columns (columns : List Column)
  | select (select : SelectNode)
  | superlative (sort : SortNode)
  | order (sort : SortNode)
  | filter (filter : Filter Nat)
  | root (root : Root Nat)
  | derivation (derivation : Derivation Nat)

namespace Piece

/-- The tokens of a piece. -/
def tokens : Piece → List Token
  | .token t => [t]
  | .column c => c.tokens
  | .columns cs => ⟨.n, cs.length - 1⟩ :: cs.flatMap Column.tokens
  | .select s => s.tokens
  | .superlative k => k.tokens .sup
  | .order k => k.tokens .order
  | .filter f => f.tokens
  | .root r => r.tokens
  | .derivation d => d.tokens

/-! ### Completing a node -/

/-- Take so many columns off the front. -/
def takeColumns : Nat → List Piece → Option (List Column × List Piece)
  | 0, pieces => some ([], pieces)
  | k + 1, .column c :: pieces =>
    (takeColumns k pieces).map fun (cs, rest) => (c :: cs, rest)
  | _ + 1, _ => none

/-- Complete a filter of a form.  A membership test takes a query if there is one. -/
def completeFilter : FilterForm → List Piece → Option (List Piece)
  | .both, .filter f :: .filter g :: rest => some (.filter (.both f g) :: rest)
  | .either, .filter f :: .filter g :: rest => some (.filter (.either f g) :: rest)
  | .value test, .column c :: .token ⟨.v, place⟩ :: rest =>
    some (.filter (.value test c place) :: rest)
  | .between, .column c :: .token ⟨.v, low⟩ :: .token ⟨.v, high⟩ :: rest =>
    some (.filter (.between c low high) :: rest)
  | .query test, .column c :: .root r :: rest => some (.filter (.query test c r) :: rest)
  | .member negated, .column c :: .root r :: rest =>
    some (.filter (.memberOf negated c r) :: rest)
  | .member negated, .column c :: rest => some (.filter (.member negated c) :: rest)
  | _, _ => none

/-- Complete a query of a shape, after its select list. -/
def completeRoot (s : SelectNode) : Shape → List Piece → Option (List Piece)
  | .superlativeFilter, .superlative k :: .filter f :: rest =>
    some (.root (.superlativeFilter s k f) :: rest)
  | .filterOrder, .filter f :: .order k :: rest => some (.root (.filterOrder s f k) :: rest)
  | .superlative, .superlative k :: rest => some (.root (.superlative s k) :: rest)
  | .filter, .filter f :: rest => some (.root (.filter s f) :: rest)
  | .order, .order k :: rest => some (.root (.order s k) :: rest)
  | .plain, rest => some (.root (.plain s) :: rest)
  | _, _ => none

/-- Complete a derivation after its first query: alone, or with that of the branch. -/
def completeDerivation (k : Nat) (l : Root Nat) (pieces : List Piece) : Option (List Piece) :=
  if k = noSetOperationChoice then some (.derivation (.single l) :: pieces)
  else
    match pieces with
    | .root r :: rest =>
      (ofChoice? SetOperation.choice SetOperation.all k).map fun operation =>
        .derivation (.combined operation l r) :: rest
    | _ => none

/-- Complete the node of a token, if the pieces begin with what its choice produces. -/
def complete : Token → List Piece → Option (List Piece)
  | ⟨.a, k⟩, .token ⟨.c, identity⟩ :: .token ⟨.t, table⟩ :: rest =>
    (ofChoice? Aggregate.code Aggregate.all k).map fun aggregate =>
      .column { aggregate, identity, table } :: rest
  | ⟨.n, k⟩, pieces => (takeColumns (k + 1) pieces).map fun (cs, rest) => .columns cs :: rest
  | ⟨.sel, k⟩, .columns cs :: rest =>
    (ofChoice? distinctChoice [false, true] k).map fun distinct =>
      .select { distinct, columns := cs } :: rest
  | ⟨.sup, k⟩, .column c :: rest =>
    (ofChoice? Direction.choice Direction.all k).map fun direction =>
      .superlative { direction, column := c } :: rest
  | ⟨.order, k⟩, .column c :: rest =>
    (ofChoice? Direction.choice Direction.all k).map fun direction =>
      .order { direction, column := c } :: rest
  | ⟨.filter, k⟩, pieces =>
    (ofChoice? FilterForm.choice FilterForm.all k).bind fun form => completeFilter form pieces
  | ⟨.root, k⟩, .select s :: rest =>
    (ofChoice? Shape.choice Shape.all k).bind fun shape => completeRoot s shape rest
  | ⟨.root1, k⟩, .root l :: rest => completeDerivation k l rest
  | _, _ => none

/-- Put a token before the pieces. -/
def add (token : Token) (pieces : List Piece) : List Piece :=
  (complete token pieces).getD (.token token :: pieces)

/-- Put some tokens before the pieces, the last of them first. -/
def addAll (tokens : List Token) (pieces : List Piece) : List Piece := tokens.foldr add pieces

@[simp] theorem addAll_nil (pieces : List Piece) : addAll [] pieces = pieces := rfl

@[simp] theorem addAll_cons (token : Token) (tokens : List Token) (pieces : List Piece) :
    addAll (token :: tokens) pieces = add token (addAll tokens pieces) := rfl

@[simp] theorem addAll_append (ts us : List Token) (pieces : List Piece) :
    addAll (ts ++ us) pieces = addAll ts (addAll us pieces) := List.foldr_append

theorem add_of_complete {token : Token} {pieces pieces' : List Piece}
    (h : complete token pieces = some pieces') : add token pieces = pieces' := by
  rw [add, h, Option.getD_some]

end Piece

/-- The derivation at the front of a sequence of tokens, and the tokens after it. -/
def Derivation.read (tokens : List Token) : Option (Derivation Nat × List Token) :=
  match Piece.addAll tokens [] with
  | .derivation d :: rest => some (d, rest.flatMap Piece.tokens)
  | _ => none

/-! ### No token is lost -/

namespace Piece

variable {pieces pieces' : List Piece}

theorem tokens_takeColumns {k : Nat} {cs : List Column}
    (h : takeColumns k pieces = some (cs, pieces')) :
    cs.length = k ∧
      pieces.flatMap tokens = cs.flatMap Column.tokens ++ pieces'.flatMap tokens := by
  induction k generalizing pieces cs with
  | zero =>
    cases h
    exact ⟨rfl, rfl⟩
  | succ k ih =>
    rcases pieces with _ | ⟨piece, rest⟩
    · cases h
    · cases piece <;> simp only [takeColumns, Option.map_eq_some_iff, reduceCtorEq] at h
      case column c =>
        obtain ⟨⟨cs', rest'⟩, htake, h⟩ := h
        obtain ⟨rfl, rfl⟩ := Prod.mk.inj h
        obtain ⟨hlength, htokens⟩ := ih htake
        refine ⟨by rw [List.length_cons, hlength], ?_⟩
        rw [List.flatMap_cons, htokens, List.flatMap_cons, List.append_assoc]
        rfl

theorem tokens_completeFilter {form : FilterForm} (h : completeFilter form pieces = some pieces') :
    pieces'.flatMap tokens = ⟨.filter, form.choice⟩ :: pieces.flatMap tokens := by
  unfold completeFilter at h
  split at h <;> cases h <;> simp [tokens, Filter.tokens, FilterForm.choice]

theorem tokens_completeRoot {s : SelectNode} {shape : Shape}
    (h : completeRoot s shape pieces = some pieces') :
    pieces'.flatMap tokens = ⟨.root, shape.choice⟩ :: (s.tokens ++ pieces.flatMap tokens) := by
  unfold completeRoot at h
  split at h <;> cases h <;> simp [tokens, Root.tokens]

theorem tokens_completeDerivation {k : Nat} {l : Root Nat}
    (h : completeDerivation k l pieces = some pieces') :
    pieces'.flatMap tokens = ⟨.root1, k⟩ :: (l.tokens ++ pieces.flatMap tokens) := by
  unfold completeDerivation at h
  split_ifs at h with hk
  · cases h
    simp [tokens, Derivation.tokens, hk]
  · split at h
    · obtain ⟨operation, hoperation, rfl⟩ := Option.map_eq_some_iff.mp h
      simp [tokens, Derivation.tokens, choice_of_ofChoice? hoperation]
    · cases h

theorem tokens_complete {t : Token} (h : complete t pieces = some pieces') :
    pieces'.flatMap tokens = t :: pieces.flatMap tokens := by
  unfold complete at h
  -- one case for each kind of node, and one for the tokens that complete none
  split at h
  · obtain ⟨aggregate, haggregate, rfl⟩ := Option.map_eq_some_iff.mp h
    simp [tokens, Column.tokens, choice_of_ofChoice? haggregate]
  · obtain ⟨⟨cs, rest⟩, htake, rfl⟩ := Option.map_eq_some_iff.mp h
    obtain ⟨hlength, htokens⟩ := tokens_takeColumns htake
    simp [tokens, hlength, htokens]
  · obtain ⟨distinct, hdistinct, rfl⟩ := Option.map_eq_some_iff.mp h
    simp [tokens, SelectNode.tokens, ← choice_of_ofChoice? hdistinct, distinctChoice]
  · obtain ⟨direction, hdirection, rfl⟩ := Option.map_eq_some_iff.mp h
    simp [tokens, SortNode.tokens, choice_of_ofChoice? hdirection]
  · obtain ⟨direction, hdirection, rfl⟩ := Option.map_eq_some_iff.mp h
    simp [tokens, SortNode.tokens, choice_of_ofChoice? hdirection]
  · obtain ⟨form, hform, h⟩ := Option.bind_eq_some_iff.mp h
    rw [tokens_completeFilter h, choice_of_ofChoice? hform]
  · obtain ⟨shape, hshape, h⟩ := Option.bind_eq_some_iff.mp h
    rw [tokens_completeRoot h, choice_of_ofChoice? hshape]
    rfl
  · rw [tokens_completeDerivation h]
    rfl
  · cases h

theorem tokens_add (t : Token) (pieces : List Piece) :
    (add t pieces).flatMap tokens = t :: pieces.flatMap tokens := by
  unfold add
  rcases h : complete t pieces with _ | pieces'
  · rfl
  · rw [Option.getD_some, tokens_complete h]

/-- Reading keeps every token. -/
theorem tokens_addAll (ts : List Token) (pieces : List Piece) :
    (addAll ts pieces).flatMap tokens = ts ++ pieces.flatMap tokens := by
  induction ts with
  | nil => rfl
  | cons t ts ih => rw [addAll_cons, tokens_add, ih, List.cons_append]

end Piece

/-- What is read is what is written: the tokens are those of the derivation and the rest. -/
theorem Derivation.tokens_of_read {ts rest : List Token} {d : Derivation Nat}
    (h : read ts = some (d, rest)) : d.tokens ++ rest = ts := by
  unfold read at h
  split at h
  · next d' pieces hpieces =>
    cases h
    have htokens := Piece.tokens_addAll ts []
    rw [hpieces, List.flatMap_cons, List.flatMap_nil, List.append_nil] at htokens
    exact htokens
  · cases h

/-! ### Every part is read back -/

namespace Piece

@[simp] theorem add_c (k : Nat) (pieces : List Piece) :
    add ⟨.c, k⟩ pieces = .token ⟨.c, k⟩ :: pieces := rfl

@[simp] theorem add_t (k : Nat) (pieces : List Piece) :
    add ⟨.t, k⟩ pieces = .token ⟨.t, k⟩ :: pieces := rfl

@[simp] theorem add_v (k : Nat) (pieces : List Piece) :
    add ⟨.v, k⟩ pieces = .token ⟨.v, k⟩ :: pieces := rfl

@[simp] theorem addAll_column (column : Column) (pieces : List Piece) :
    addAll column.tokens pieces = .column column :: pieces := by
  rw [Column.tokens, addAll_cons, addAll_cons, addAll_cons, addAll_nil, add_t, add_c]
  apply add_of_complete
  rw [complete, ofChoice?_aggregate, Option.map_some]

theorem addAll_columns (cs : List Column) (pieces : List Piece) :
    addAll (cs.flatMap Column.tokens) pieces = cs.map .column ++ pieces := by
  induction cs with
  | nil => rfl
  | cons c cs ih => rw [List.flatMap_cons, addAll_append, ih, addAll_column]; rfl

theorem takeColumns_append (cs : List Column) (pieces : List Piece) :
    takeColumns cs.length (cs.map .column ++ pieces) = some (cs, pieces) := by
  induction cs with
  | nil => rfl
  | cons c cs ih =>
    rw [List.length_cons, List.map_cons, List.cons_append, takeColumns, ih, Option.map_some]

theorem addAll_select {select : SelectNode} (h : select.Fits) (pieces : List Piece) :
    addAll select.tokens pieces = .select select :: pieces := by
  have hwidth : add ⟨.n, select.columns.length - 1⟩ (select.columns.map .column ++ pieces) =
      .columns select.columns :: pieces := by
    apply add_of_complete
    rw [complete, Nat.sub_add_cancel h.one_le, takeColumns_append, Option.map_some]
  rw [SelectNode.tokens, addAll_cons, addAll_cons, addAll_columns, hwidth]
  apply add_of_complete
  rw [complete]
  show Option.map _ (ofChoice? distinctChoice [false, true] (distinctChoice select.distinct)) = _
  rw [ofChoice?_distinct, Option.map_some]

@[simp] theorem addAll_superlative (sort : SortNode) (pieces : List Piece) :
    addAll (sort.tokens .sup) pieces = .superlative sort :: pieces := by
  rw [SortNode.tokens, addAll_cons, addAll_column]
  apply add_of_complete
  rw [complete, ofChoice?_direction, Option.map_some]

@[simp] theorem addAll_order (sort : SortNode) (pieces : List Piece) :
    addAll (sort.tokens .order) pieces = .order sort :: pieces := by
  rw [SortNode.tokens, addAll_cons, addAll_column]
  apply add_of_complete
  rw [complete, ofChoice?_direction, Option.map_some]

theorem add_filter (form : FilterForm) {pieces pieces' : List Piece}
    (h : completeFilter form pieces = some pieces') :
    add ⟨.filter, form.choice⟩ pieces = pieces' := by
  apply add_of_complete
  rw [complete, ofChoice?_form, Option.bind_some, h]

theorem add_root {select : SelectNode} {shape : Shape} {pieces pieces' : List Piece}
    (h : completeRoot select shape pieces = some pieces') :
    add ⟨.root, shape.choice⟩ (.select select :: pieces) = pieces' := by
  apply add_of_complete
  rw [complete, ofChoice?_shape, Option.bind_some, h]

/-- No query stands at the front of the pieces. -/
def NoRoot (pieces : List Piece) : Prop := ∀ r rest, pieces ≠ .root r :: rest

theorem noRoot_nil : NoRoot [] := fun _ _ h => by cases h

theorem noRoot_filter (f : Filter Nat) (pieces : List Piece) : NoRoot (.filter f :: pieces) :=
  fun _ _ h => by cases h

theorem noRoot_order (k : SortNode) (pieces : List Piece) : NoRoot (.order k :: pieces) :=
  fun _ _ h => by cases h

/-- A membership test stands without a query if none follows. -/
theorem completeFilter_member (negated : Bool) (c : Column) {pieces : List Piece}
    (h : NoRoot pieces) : completeFilter (.member negated) (.column c :: pieces) =
      some (.filter (.member negated c) :: pieces) := by
  rcases pieces with _ | ⟨piece, rest⟩
  · rfl
  · cases piece
    case root r => exact absurd rfl (h r rest)
    all_goals rfl

end Piece

/-- Every membership test of the filter itself stands with a query. -/
def Filter.MembersNested {α : Type} (f : Filter α) : Prop :=
  ∀ negated column, .member negated column ∉ f.leaves

/-- Every membership test of the query itself stands with a query. -/
def Root.MembersNested {α : Type} (r : Root α) : Prop :=
  ∀ negated column, .member negated column ∉ r.leaves

/-- Every membership test of the filter and of the queries in it stands with a query. -/
structure Filter.AllNested {α : Type} (f : Filter α) : Prop where
  members : f.MembersNested
  roots : ∀ r ∈ f.roots, r.MembersNested

/-- A filter that is joined with another one after it has no membership tests but those of the
joined filter. -/
theorem Filter.AllNested.right {α : Type} {f g joined : Filter α} (h : joined.AllNested)
    (leaves : joined.leaves = f.leaves ++ g.leaves) (roots : joined.roots = f.roots ++ g.roots) :
    g.AllNested where
  members negated column hmem := by
    apply h.members negated column
    rw [leaves]
    exact List.mem_append_right _ hmem
  roots r hr := by
    apply h.roots r
    rw [roots]
    exact List.mem_append_right _ hr

namespace Piece

-- a part is read back whatever follows if all is nested, and if no query follows anyway
mutual

theorem addAll_root : (r : Root Nat) → (pieces : List Piece) →
    (∀ r' ∈ r.roots, r'.select.Fits) →
    ((∀ r' ∈ r.roots, r'.MembersNested) ∨ NoRoot pieces) →
    addAll r.tokens pieces = .root r :: pieces
  | .superlativeFilter s k f, pieces, fits, nested => by
    rw [Root.roots, List.forall_mem_cons] at fits nested
    have hs : s.Fits := fits.1
    have hf : addAll f.tokens pieces = .filter f :: pieces :=
      addAll_filter f pieces fits.2 (nested.imp_left fun h => ⟨h.1, h.2⟩)
    rw [Root.tokens, addAll_cons, addAll_append, addAll_append, hf, addAll_superlative,
      addAll_select hs]
    exact add_root rfl
  | .filterOrder s f k, pieces, fits, _ => by
    rw [Root.roots, List.forall_mem_cons] at fits
    have hs : s.Fits := fits.1
    have hf : addAll f.tokens (.order k :: pieces) = .filter f :: .order k :: pieces :=
      addAll_filter f _ fits.2 (.inr (noRoot_order k pieces))
    rw [Root.tokens, addAll_cons, addAll_append, addAll_append, addAll_order, hf, addAll_select hs]
    exact add_root rfl
  | .superlative s k, pieces, fits, _ => by
    rw [Root.roots, List.forall_mem_singleton] at fits
    have hs : s.Fits := fits
    rw [Root.tokens, addAll_cons, addAll_append, addAll_superlative, addAll_select hs]
    exact add_root rfl
  | .filter s f, pieces, fits, nested => by
    rw [Root.roots, List.forall_mem_cons] at fits nested
    have hs : s.Fits := fits.1
    have hf : addAll f.tokens pieces = .filter f :: pieces :=
      addAll_filter f pieces fits.2 (nested.imp_left fun h => ⟨h.1, h.2⟩)
    rw [Root.tokens, addAll_cons, addAll_append, hf, addAll_select hs]
    exact add_root rfl
  | .order s k, pieces, fits, _ => by
    rw [Root.roots, List.forall_mem_singleton] at fits
    have hs : s.Fits := fits
    rw [Root.tokens, addAll_cons, addAll_append, addAll_order, addAll_select hs]
    exact add_root rfl
  | .plain s, pieces, fits, _ => by
    rw [Root.roots, List.forall_mem_singleton] at fits
    have hs : s.Fits := fits
    rw [Root.tokens, addAll_cons, addAll_select hs]
    exact add_root rfl

theorem addAll_filter : (f : Filter Nat) → (pieces : List Piece) →
    (∀ r ∈ f.roots, r.select.Fits) → (f.AllNested ∨ NoRoot pieces) →
    addAll f.tokens pieces = .filter f :: pieces
  | .both f g, pieces, fits, nested => by
    have hleaves : (Filter.both f g).leaves = f.leaves ++ g.leaves := by rw [Filter.leaves]
    have hroots : (Filter.both f g).roots = f.roots ++ g.roots := by rw [Filter.roots]
    rw [hroots, List.forall_mem_append] at fits
    have hg : addAll g.tokens pieces = .filter g :: pieces :=
      addAll_filter g pieces fits.2 (nested.imp_left fun h => h.right hleaves hroots)
    have hf : addAll f.tokens (.filter g :: pieces) = .filter f :: .filter g :: pieces :=
      addAll_filter f _ fits.1 (.inr (noRoot_filter g pieces))
    rw [Filter.tokens, addAll_cons, addAll_append, hg, hf]
    exact add_filter .both rfl
  | .either f g, pieces, fits, nested => by
    have hleaves : (Filter.either f g).leaves = f.leaves ++ g.leaves := by rw [Filter.leaves]
    have hroots : (Filter.either f g).roots = f.roots ++ g.roots := by rw [Filter.roots]
    rw [hroots, List.forall_mem_append] at fits
    have hg : addAll g.tokens pieces = .filter g :: pieces :=
      addAll_filter g pieces fits.2 (nested.imp_left fun h => h.right hleaves hroots)
    have hf : addAll f.tokens (.filter g :: pieces) = .filter f :: .filter g :: pieces :=
      addAll_filter f _ fits.1 (.inr (noRoot_filter g pieces))
    rw [Filter.tokens, addAll_cons, addAll_append, hg, hf]
    exact add_filter .either rfl
  | .value test c place, pieces, _, _ => by
    rw [Filter.tokens, addAll_cons, addAll_append, addAll_cons, addAll_nil, add_v, addAll_column]
    exact add_filter (.value test) rfl
  | .between c low high, pieces, _, _ => by
    rw [Filter.tokens, addAll_cons, addAll_append, addAll_cons, addAll_cons, addAll_nil, add_v,
      add_v, addAll_column]
    exact add_filter .between rfl
  | .query test c r, pieces, fits, nested => by
    rw [Filter.roots] at fits
    have hr : addAll r.tokens pieces = .root r :: pieces := by
      refine addAll_root r pieces fits (nested.imp_left fun h => ?_)
      simpa only [Filter.roots] using h.roots
    rw [Filter.tokens, addAll_cons, addAll_append, hr, addAll_column]
    exact add_filter (.query test) rfl
  | .memberOf negated c r, pieces, fits, nested => by
    rw [Filter.roots] at fits
    have hr : addAll r.tokens pieces = .root r :: pieces := by
      refine addAll_root r pieces fits (nested.imp_left fun h => ?_)
      simpa only [Filter.roots] using h.roots
    rw [Filter.tokens, addAll_cons, addAll_append, hr, addAll_column]
    exact add_filter (.member negated) rfl
  | .member negated c, pieces, _, nested => by
    have hroot : NoRoot pieces := by
      rcases nested with h | h
      · exact absurd (by simp [Filter.leaves]) (h.members negated c)
      · exact h
    rw [Filter.tokens, addAll_cons, addAll_column]
    exact add_filter (.member negated) (completeFilter_member negated c hroot)

end

theorem add_single (r : Root Nat) (pieces : List Piece) :
    add ⟨.root1, noSetOperationChoice⟩ (.root r :: pieces) = .derivation (.single r) :: pieces :=
  add_of_complete rfl

theorem add_combined (operation : SetOperation) (l r : Root Nat) (pieces : List Piece) :
    add ⟨.root1, operation.choice⟩ (.root l :: .root r :: pieces) =
      .derivation (.combined operation l r) :: pieces := by
  have hchoice : operation.choice ≠ noSetOperationChoice :=
    Nat.ne_of_lt operation.choice_lt
  apply add_of_complete
  rw [complete, completeDerivation, if_neg hchoice, ofChoice?_operation, Option.map_some]

end Piece

namespace Derivation

/-- The first piece of what is read is the derivation that is read. -/
theorem read_of_addAll {ts rest : List Token} {d : Derivation Nat}
    (h : Piece.addAll ts (Piece.addAll rest []) = .derivation d :: Piece.addAll rest []) :
    read (ts ++ rest) = some (d, rest) := by
  rw [read, Piece.addAll_append, h]
  show some (d, (Piece.addAll rest []).flatMap Piece.tokens) = some (d, rest)
  rw [Piece.tokens_addAll, List.flatMap_nil, List.append_nil]

/-- **A derivation is read back from its tokens**, whatever follows them, if its select lists fit
and every membership test in it stands with a query. -/
theorem read_tokens (d : Derivation Nat) (fits : ∀ r ∈ d.roots, r.select.Fits)
    (nested : ∀ r ∈ d.roots, r.MembersNested) (rest : List Token) :
    read (d.tokens ++ rest) = some (d, rest) := by
  apply read_of_addAll
  rcases d with r | ⟨operation, l, r⟩
  · rw [tokens, Piece.addAll_cons, Piece.addAll_root r _ fits (.inl nested), Piece.add_single]
  · rw [roots, List.forall_mem_append] at fits nested
    -- the second query is read first, and then stands after the first
    have hr : Piece.addAll r.tokens (Piece.addAll rest []) = .root r :: Piece.addAll rest [] :=
      Piece.addAll_root r _ fits.2 (.inl nested.2)
    have hl : Piece.addAll l.tokens (.root r :: Piece.addAll rest []) =
        .root l :: .root r :: Piece.addAll rest [] :=
      Piece.addAll_root l _ fits.1 (.inl nested.1)
    rw [tokens, Piece.addAll_cons, Piece.addAll_append, hr, hl, Piece.add_combined]

/-- Where nothing follows the derivation of one query, it need not matter how its membership tests
stand. -/
theorem read_single (r : Root Nat) (fits : ∀ r' ∈ r.roots, r'.select.Fits) :
    read (single r).tokens = some (single r, []) := by
  rw [← List.append_nil (single r).tokens]
  apply read_of_addAll
  have hr : Piece.addAll r.tokens [] = [.root r] :=
    Piece.addAll_root r [] fits (.inr Piece.noRoot_nil)
  rw [tokens, Piece.addAll_cons, Piece.addAll_nil, hr, Piece.add_single]

end Derivation

/-! ### Reading encodings -/

namespace Query

variable {context : Context} {q : Query} {e : Encoding}

/-- The derivation of a query, with the places of its literals. -/
def numbered (context : Context) (q : Query) : Except Failure (Derivation Nat) :=
  (q.derivation context).outcome.map fun d => (d.number {}).1

/-- Every membership test that the encoding writes has a query on its right-hand side. -/
def MembersNested (q : Query) : Prop :=
  ∀ n ∈ q.expanded, ∀ c ∈ n.conditions, c.operator = .member → c.nested?.isSome

/-- The tokens of an encoding are those of the numbered derivation. -/
theorem exists_numbered (h : (q.encode context).outcome = .ok e) :
    ∃ d, q.numbered context = .ok d ∧ e.tokens = d.tokens ∧ d.Mirrors context.schema q := by
  obtain ⟨d, hd, rfl⟩ := encode_eq_ok_iff.mp h
  refine ⟨(d.number {}).1, ?_, rfl, ?_⟩
  · rw [numbered, derivation_eq_ok_iff.mpr hd, Except.map]
  · rw [d.number_empty.1]
    exact hd.mirrors.map _

end Query

/-- A membership test without a query stands for a condition that has none. -/
theorem Filter.Represents.of_member {α : Type} {schema : Schema} {q : Query} {c : Condition}
    {negated : Bool} {column : Column}
    (h : Filter.Represents schema q c (.member negated column : Filter α)) :
    c.operator = .member ∧ c.nested?.isSome = false := by
  have hnested : c.nested?.isSome = false := h.nested.symm
  have hchoice := h.choice
  rw [hnested] at hchoice
  refine ⟨?_, hnested⟩
  cases hoperator : c.operator <;> cases hnegated : c.negated <;> cases negated <;>
    simp [hoperator, hnegated, filterChoice, DirectTest.ofOperator, DirectTest.choice,
      ValueTest.choice, betweenChoice, Filter.choice, memberChoice, Except.map] at hchoice ⊢

theorem Derivation.Mirrors.membersNested {α : Type} {schema : Schema} {q : Query}
    {d : Derivation α} (h : d.Mirrors schema q) (nested : q.MembersNested) :
    ∀ r ∈ d.roots, r.MembersNested := by
  intro r hr negated column hmem
  obtain ⟨n, hn, hrepresents⟩ := exists_left_of_forall₂ h.roots hr
  obtain ⟨c, hc, hleaf⟩ := exists_left_of_forall₂ hrepresents.leaves hmem
  obtain ⟨hoperator, hnone⟩ := hleaf.of_member
  simp [nested n hn c hc hoperator] at hnone

theorem Query.exists_read {context : Context} {q : Query} {e : Encoding}
    (h : (q.encode context).outcome = .ok e) (nested : q.MembersNested) :
    ∃ d, q.numbered context = .ok d ∧ d.Mirrors context.schema q ∧
      ∀ rest, Derivation.read (e.tokens ++ rest) = some (d, rest) := by
  obtain ⟨d, hd, htokens, hmirrors⟩ := exists_numbered h
  refine ⟨d, hd, hmirrors, ?_⟩
  intro rest
  rw [htokens]
  exact d.read_tokens hmirrors.fits (hmirrors.membersNested nested) rest

/-- **Encodings are uniquely readable.**  If every membership test in a query stands over a query,
its derivation is read back from the tokens, whatever follows them.  Hence these tokens begin those
of another such query only if they are all of them, and then the derivations are the same. -/
theorem Query.read_encode {context : Context} {q : Query} {e : Encoding}
    (h : (q.encode context).outcome = .ok e) (nested : q.MembersNested) :
    ∃ d, q.numbered context = .ok d ∧ d.Mirrors context.schema q ∧
      (∀ rest, Derivation.read (e.tokens ++ rest) = some (d, rest)) ∧
      ∀ (context' : Context) (q' : Query) (e' : Encoding),
        (q'.encode context').outcome = .ok e' → q'.MembersNested → e.tokens <+: e'.tokens →
          e'.tokens = e.tokens ∧ q'.numbered context' = .ok d := by
  obtain ⟨d, hd, hmirrors, hread⟩ := exists_read h nested
  refine ⟨d, hd, hmirrors, hread, ?_⟩
  rintro context' q' e' h' nested' ⟨rest, hrest⟩
  obtain ⟨d', hd', -, hread'⟩ := exists_read h' nested'
  -- the tokens of the other query are read in two ways
  have hboth : some (d, rest) = some (d', []) := by
    rw [← hread rest, ← hread' [], hrest, List.append_nil]
  obtain ⟨rfl, rfl⟩ := Prod.mk.inj (Option.some.inj hboth)
  rw [List.append_nil] at hrest
  exact ⟨hrest.symm, hd'⟩

namespace Sample

theorem membersNested_outer : outer.MembersNested := by
  have hinner : inner.expansion = [inner] := by
    rw [Query.expansion_eq]
    rfl
  have houter : outer.expanded = [outer, inner, inner] := by
    rw [Query.expanded, Query.expansion_eq]
    show outer :: (inner.expansion ++ []) ++ (inner.expansion ++ []) = _
    rw [hinner]
    rfl
  rw [Query.MembersNested, houter]
  simp only [List.forall_mem_cons, List.not_mem_nil, false_implies, implies_true, and_true]
  decide

/-- `SELECT * FROM customer WHERE id IN (inner)` -/
def nested : Query := { outer with intersect := none }

/-- The same query, the right-hand side of its condition being missing. -/
def bare : Query where
  selectList := .single 0
  sources := [.table 0]
  restriction := some (.last
    { negated := false, operator := .member, left := .plain 1, value := none, upper := none })

/-- The tokens of the query without a right-hand side. -/
def bareTokens : List Token :=
  [⟨.root1, 3⟩, ⟨.root, 3⟩, ⟨.sel, 0⟩, ⟨.n, 0⟩, ⟨.a, 0⟩, ⟨.c, 0⟩, ⟨.t, 0⟩, ⟨.filter, 18⟩, ⟨.a, 0⟩,
    ⟨.c, 1⟩, ⟨.t, 0⟩]

end Sample

theorem Query.read_encode_sample :
    ∃ d, Sample.outer.numbered Sample.shop = .ok d ∧
      d.Mirrors Sample.shop.schema Sample.outer ∧
      (∀ rest, Derivation.read (Sample.encoding.tokens ++ rest) = some (d, rest)) ∧
      ∀ (context' : Context) (q' : Query) (e' : Encoding),
        (q'.encode context').outcome = .ok e' → q'.MembersNested →
          Sample.encoding.tokens <+: e'.tokens →
            e'.tokens = Sample.encoding.tokens ∧ q'.numbered context' = .ok d :=
  Query.read_encode
    (show (Sample.outer.encode Sample.shop).outcome = .ok Sample.encoding by decide)
    Sample.membersNested_outer

/-- Without the queries of the membership tests the encodings are no prefix code: the tokens of a
bare test begin those of the test over a query. -/
theorem Query.encode_bare_prefix :
    (Sample.bare.encode Sample.shop).outcome = .ok { tokens := Sample.bareTokens, values := [] } ∧
      (Sample.nested.encode Sample.shop).outcome =
        .ok { tokens := Sample.bareTokens ++ Sample.innerTokens,
              values := [.text "7", .text "x"] } := by
  decide

end QueryGrammar
