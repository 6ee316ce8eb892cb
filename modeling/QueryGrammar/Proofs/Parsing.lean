/-
QueryGrammar/Proofs/Parsing.lean

Reading undoes writing.

Columns, terms, select lists and sort orders are flat, and each of them is read back by itself
(`Term.ofJson_toJson` and the like).  The clauses of a query are read one member at a time: when
members of some names have been read, what is there of the query are its clauses of these names
(`Query.Clauses.ofNames`), since a member adds its clause, or nothing if its name is unknown
(`Query.ClauseLayout.add_ofNames`).

An operand is told by its kind, except that the layout of a column is an array and is tried as an
array of clauses first; but its first element is a number, which is no select list.

Main result: every layout of a query is read as that query (`Query.ofJson_layout`).
-/
import QueryGrammar.Proofs.Alternation
import QueryGrammar.Proofs.Layout
import QueryGrammar.Proofs.Mirror

namespace QueryGrammar

open Json (element tuple)

/-! ### Flat parts -/

theorem Operator.ofJson_code (operator : Operator) :
    Operator.ofJson (.ofNat operator.code) = .ok operator := by
  cases operator <;> rfl

theorem Connective.ofJson_name (c : Connective) : Connective.ofJson (.string c.name) = .ok c := by
  cases c <;> rfl

theorem Direction.ofJson_name (direction : Direction) :
    Direction.ofJson (.string direction.name) = .ok direction := by
  cases direction <;> rfl

namespace Json

variable {α : Type} {value : Json → Except ReadError α} {write : α → Json}

@[simp] theorem ok_bind {β : Type} (a : α) (next : α → Except ReadError β) :
    Except.ok a >>= next = next a := rfl

@[simp] theorem pure_eq_ok (a : α) : (pure a : Except ReadError α) = .ok a := rfl

theorem nat_ofNat {n : Nat} (h : n < wordBound) : nat (.ofNat n) = .ok n := by
  rw [nat, natBelow_ofNat, if_pos h]

theorem byte_ofNat {n : Nat} (h : n < 256) : byte (.ofNat n) = .ok n := by
  rw [byte, natBelow_ofNat, if_pos h]

/-- A reading of elements begins with the first of them. -/
theorem bind_element {β : Type} {v : Json} {a : α} (h : value v = .ok a)
    (next : α → Elements β) (rest : List Json) :
    (element value >>= next) (v :: rest) = next a rest := by
  show element value (v :: rest) >>= (fun p => next p.1 p.2) = _
  rw [element, h]
  rfl

/-- The elements of an array are read back if each of them is. -/
theorem list_map {items : List α} (h : ∀ a ∈ items, value (write a) = .ok a) :
    list value (.array (items.map write)) = .ok items := by
  show (items.map write).mapM value = .ok items
  induction items with
  | nil => rfl
  | cons a items ih =>
    rw [List.forall_mem_cons] at h
    rw [List.map_cons, List.mapM_cons, h.1, ih h.2]
    rfl

end Json

namespace Term

variable {term : Term}

theorem ofJson_right {right : Option ColumnUse} (h : right.all ColumnUse.fitsWord) :
    Json.optional ColumnUse.ofJson ((right.map ColumnUse.toJson).getD .null) = .ok right := by
  rcases right with _ | use
  · rfl
  · show some <$> ColumnUse.ofJson use.toJson = _
    rw [use.ofJson_toJson (of_decide_eq_true h)]
    rfl

theorem ofJson_toJson (h : term.fitsWords) : Term.ofJson term.toJson = .ok term := by
  simp only [fitsWords, Bool.and_eq_true, decide_eq_true_eq] at h
  obtain ⟨⟨hoperator, hleft⟩, hright⟩ := h
  rw [Term.ofJson, toJson, Json.tuple_element, Json.byte_ofNat hoperator]
  show tuple _ (.array _) = _
  rw [Json.tuple_element, term.left.ofJson_toJson (of_decide_eq_true hleft)]
  show tuple _ (.array _) = _
  rw [Json.tuple_element, ofJson_right hright]
  rfl

end Term

theorem SelectItem.ofJson_toJson {item : SelectItem} (h : item.term.fitsWords) :
    SelectItem.ofJson item.toJson = .ok item := by
  rw [SelectItem.ofJson, toJson, Json.tuple_element, Aggregate.ofJson_code]
  show tuple _ (.array _) = _
  rw [Json.tuple_element, Term.ofJson_toJson h]
  rfl

theorem SelectList.ofJson_toJson {list : SelectList}
    (h : ∀ item ∈ list.items, item.term.fitsWords) :
    SelectList.ofJson list.toJson = .ok list := by
  rw [SelectList.ofJson, toJson, Json.tuple_element]
  show tuple _ (.array _) = _
  rw [Json.tuple_element, Json.list_map fun item hitem => SelectItem.ofJson_toJson (h item hitem)]
  rfl

namespace SortOrder

theorem ofJson_toJson {order : SortOrder} (h : ∀ key ∈ order.keys, key.fitsWords) :
    SortOrder.ofJson order.toJson = .ok order := by
  rw [SortOrder.ofJson, toJson, Json.tuple_element, Direction.ofJson_name]
  show tuple _ (.array _) = _
  rw [Json.tuple_element, Json.list_map fun key hkey => Term.ofJson_toJson (h key hkey)]
  rfl

theorem clauseOfJson_clauseToJson {clause : Option SortOrder}
    (h : ∀ order, clause = some order → ∀ key ∈ order.keys, key.fitsWords) :
    clauseOfJson (clauseToJson clause) = .ok clause := by
  rcases clause with _ | order
  · rfl
  · have horder : SortOrder.ofJson (.array
        [.string order.direction.name, .array (order.keys.map Term.toJson)]) = .ok order :=
      ofJson_toJson (h order rfl)
    rw [clauseToJson, toJson, clauseOfJson, horder]

end SortOrder

/-! ### Alternating lists -/

namespace Chain

variable {α : Type}

theorem mixed_eq_interleave (chain : Chain α) :
    chain.mixed = interleave chain.items chain.connectives := by
  induction chain with
  | last x => rfl
  | link x c rest ih => rw [mixed, items, connectives, interleave, ih]

/-- A chain is put together again from its items and connectives. -/
theorem ofMixed_mixed (chain : Chain α) : ofMixed chain.mixed = .ok (some chain) := by
  rw [chain.mixed_eq_interleave, chain.ofMixed_interleave]

end Chain

/-! ### Clauses -/

namespace Query.Clauses

/-- The clauses of a query that have one of the names. -/
def ofNames (q : Query) (names : List String) : Clauses where
  selectList := if "select" ∈ names then some q.selectList else none
  sources := if "from" ∈ names then some q.sources else none
  restriction := if "where" ∈ names then q.restriction else none
  having := if "having" ∈ names then q.having else none
  groupBy := if "groupBy" ∈ names then q.groupBy else []
  sortOrder := if "orderBy" ∈ names then q.sortOrder else none
  limit := if "limit" ∈ names then q.limit else none
  intersect := if "intersect" ∈ names then q.intersect else none
  union := if "union" ∈ names then q.union else none
  except := if "except" ∈ names then q.except else none

variable {q : Query}

theorem ofNames_nil : ofNames q [] = {} := by
  simp [ofNames]

/-- If no clause is missing but empty ones, the query is complete. -/
theorem named_ofNames {present : List String}
    (h : ∀ name ∈ names, q.lacks name = false → name ∈ present) :
    (ofNames q present).named = .ok q := by
  have hclause {α : Type} (name : String) (hname : name ∈ names) (empty clause : α)
      (hlacks : q.lacks name = true → clause = empty) :
      (if name ∈ present then clause else empty) = clause := by
    split_ifs with hpresent
    · rfl
    · refine (hlacks ?_).symm
      simpa using mt (h name hname) hpresent
  have hselect : "select" ∈ present := h _ (by decide) rfl
  have hfrom : "from" ∈ present := h _ (by decide) rfl
  have hclauses : ofNames q present =
      { selectList := some q.selectList, sources := some q.sources, restriction := q.restriction,
        having := q.having, groupBy := q.groupBy, sortOrder := q.sortOrder, limit := q.limit,
        intersect := q.intersect, union := q.union, except := q.except } := by
    rw [ofNames, if_pos hselect, if_pos hfrom,
      hclause "where" (by decide) _ _ Option.isNone_iff_eq_none.mp,
      hclause "having" (by decide) _ _ Option.isNone_iff_eq_none.mp,
      hclause "groupBy" (by decide) _ _ List.isEmpty_iff.mp,
      hclause "orderBy" (by decide) _ _ Option.isNone_iff_eq_none.mp,
      hclause "limit" (by decide) _ _ Option.isNone_iff_eq_none.mp,
      hclause "intersect" (by decide) _ _ Option.isNone_iff_eq_none.mp,
      hclause "union" (by decide) _ _ Option.isNone_iff_eq_none.mp,
      hclause "except" (by decide) _ _ Option.isNone_iff_eq_none.mp]
  rw [hclauses]
  rcases q
  rfl

end Query.Clauses

namespace Query

variable {q : Query}

theorem Clauses.add_of_notMem {name : String} (h : name ∉ Clauses.names) (clauses : Clauses)
    (v : Json) (query : Unit → Except ReadError Query)
    (sources : Unit → Except ReadError (List Source))
    (conditions : Unit → Except ReadError Conditions) :
    clauses.add name v query sources conditions = .ok clauses := by
  unfold add
  extract_lets branch
  split <;> first | rfl | exact absurd (by decide) h

theorem Clauses.ofNames_concat_of_notMem {name : String} (h : name ∉ Clauses.names)
    (names : List String) : ofNames q (names ++ [name]) = ofNames q names := by
  have hne (other : String) (hother : other ∈ Clauses.names) :
      other ∈ names ++ [name] ↔ other ∈ names := by
    rw [List.mem_append, List.mem_singleton, or_iff_left]
    rintro rfl
    exact h hother
  rw [ofNames, ofNames]
  simp only [hne "select" (by decide), hne "from" (by decide), hne "where" (by decide),
    hne "having" (by decide), hne "groupBy" (by decide), hne "orderBy" (by decide),
    hne "limit" (by decide), hne "intersect" (by decide), hne "union" (by decide),
    hne "except" (by decide)]

/-- The numbers in a query are words exactly if they are so in every clause. -/
theorem fitsWords_iff : q.fitsWords ↔ (∀ item ∈ q.selectList.items, item.term.fitsWords) ∧
    sourcesFitWords q.sources ∧ bodyFitsWords q.restriction ∧ bodyFitsWords q.having ∧
    (∀ use ∈ q.groupBy, use.fitsWord) ∧
    (∀ order, q.sortOrder = some order → ∀ key ∈ order.keys, key.fitsWords) ∧
    ∀ operation b, q.branch? operation = some b → b.fitsWords := by
  have hbranch (branch : Option Query) :
      branchFitsWords branch ↔ ∀ b, branch = some b → b.fitsWords := by
    rcases branch with _ | b <;> simp [branchFitsWords]
  have hbranches : (∀ operation b, q.branch? operation = some b → b.fitsWords) ↔
      branchFitsWords q.intersect ∧ branchFitsWords q.union ∧ branchFitsWords q.except := by
    rw [hbranch, hbranch, hbranch]
    refine ⟨fun h => ⟨h .intersect, h .union, h .except⟩, ?_⟩
    rintro ⟨hintersect, hunion, hexcept⟩ (_ | _ | _)
    · exact hintersect
    · exact hunion
    · exact hexcept
  rw [hbranches]
  rcases q
  simp only [fitsWords, Bool.and_eq_true, List.all_eq_true, Option.all_eq_true, and_assoc]

/-- A member of a layout adds its clause to those that have been read. -/
theorem ClauseLayout.add_ofNames {name : String} {v : Json} (fits : q.fitsWords)
    (h : q.ClauseLayout name v) (names : List String)
    (hquery : ∀ b : Query, b.fitsWords → b.Layout v → Query.ofJson v = .ok b)
    (hsources : ∀ sources, sourcesFitWords sources → Source.ClauseLayout sources v →
      Query.sourcesOfJson v = .ok sources)
    (hconditions : ∀ body, bodyFitsWords body → Conditions.Layout body v →
      Query.conditionsOfJson v = .ok body) :
    (Clauses.ofNames q names).add name v (fun _ => Query.ofJson v)
      (fun _ => Query.sourcesOfJson v) (fun _ => Query.conditionsOfJson v) =
        .ok (Clauses.ofNames q (names ++ [name])) := by
  obtain ⟨hselect, hfrom, hwhere, hhaving, hgroup, horder, hbranch⟩ := fitsWords_iff.mp fits
  cases h with
  | selectList =>
    have hread := SelectList.ofJson_toJson hselect
    simp [Clauses.add, hread, Clauses.ofNames]
  | sources clause =>
    have hread := hsources _ hfrom clause
    simp [Clauses.add, hread, Clauses.ofNames]
  | restriction body =>
    have hread := hconditions _ hwhere body
    simp [Clauses.add, hread, Clauses.ofNames]
  | having body =>
    have hread := hconditions _ hhaving body
    simp [Clauses.add, hread, Clauses.ofNames]
  | groupBy =>
    have hread := Json.list_map fun use huse =>
      ColumnUse.ofJson_toJson use (of_decide_eq_true (hgroup use huse))
    simp [Clauses.add, hread, Clauses.ofNames]
  | sortOrder =>
    have hread := SortOrder.clauseOfJson_clauseToJson horder
    simp [Clauses.add, hread, Clauses.ofNames]
  | @limit _ n limited =>
    have hread : Json.optional Json.real (.number n) = .ok (some n.toBinary64) := rfl
    simp [Clauses.add, hread, limited, Clauses.ofNames]
  | unlimited absent =>
    have hread : Json.optional Json.real .null = .ok none := rfl
    simp [Clauses.add, hread, absent, Clauses.ofNames]
  | branch operation present layout =>
    have hread := hquery _ (hbranch operation _ present) layout
    -- a layout is an object, so the member is not null
    obtain @⟨b, members, -, -⟩ := layout
    rcases operation <;> rw [branch?] at present <;>
      simp [Clauses.add, SetOperation.name, hread, present, Clauses.ofNames]
  | single operation absent =>
    rcases operation <;> rw [branch?] at absent <;>
      simp [Clauses.add, SetOperation.name, absent, Clauses.ofNames]
  | unknown other =>
    rw [Clauses.add_of_notMem other, Clauses.ofNames_concat_of_notMem other]

end Query

/-! ### Conditions -/

/-- The layout of a column is no array of clauses, so it is read as the column. -/
theorem Operand.ofJson_columnUse {use : ColumnUse} (h : use.fitsWord) :
    Operand.ofJson use.toJson = .ok (some (.column use)) := by
  have hclauses : Query.clausesOfItems {} Query.Clauses.names
      [.ofNat use.aggregate.code, .ofNat use.column, .bool use.distinct] >>=
        Query.Clauses.positional = .error .wrongKind := rfl
  have huse : ColumnUse.ofJson
      (.array [.ofNat use.aggregate.code, .ofNat use.column, .bool use.distinct]) = .ok use :=
    use.ofJson_toJson (of_decide_eq_true h)
  rw [ColumnUse.toJson, Operand.ofJson, hclauses]
  simp only [huse]

/-- An operand is read back if queries are. -/
theorem Operand.ofJson_of_layout {operand : Option Operand} {v : Json}
    (fits : operandFitsWords operand) (h : Operand.Layout operand v)
    (hquery : ∀ q : Query, q.fitsWords → q.Layout v → Query.ofJson v = .ok q) :
    Operand.ofJson v = .ok operand := by
  cases h with
  | none | number n | text s => rw [Operand.ofJson]
  | query layout =>
    rw [operandFitsWords, Operand.fitsWords] at fits
    have hread := hquery _ fits layout
    obtain @⟨q, members, -, -⟩ := layout
    rw [Query.ofJson] at hread
    rw [Operand.ofJson, hread]
  | column layout =>
    rw [operandFitsWords, Operand.fitsWords] at fits
    rw [layout, Operand.ofJson_columnUse fits]

theorem Condition.fitsWords_iff {c : Condition} : c.fitsWords ↔
    c.left.fitsWords ∧ operandFitsWords c.value ∧ operandFitsWords c.upper := by
  rcases c
  simp only [fitsWords, Bool.and_eq_true, and_assoc]

/-- A condition is read back if its operands are. -/
theorem Condition.ofItems_of_layout {c : Condition} {value upper : Json} (fits : c.left.fitsWords)
    (hvalue : Operand.ofJson value = .ok c.value) (hupper : Operand.ofJson upper = .ok c.upper) :
    Condition.ofItems [.bool c.negated, .ofNat c.operator.code, c.left.toJson, value, upper] =
      .ok c := by
  have hhead : Condition.headOfItems
      [.bool c.negated, .ofNat c.operator.code, c.left.toJson, value, upper] =
        .ok (c.negated, c.operator, c.left) := by
    have hnegated : Json.boolean (.bool c.negated) = .ok c.negated := rfl
    rw [Condition.headOfItems, Json.bind_element hnegated,
      Json.bind_element c.operator.ofJson_code, Json.bind_element (Term.ofJson_toJson fits)]
    rfl
  rw [Condition.ofItems, hhead]
  show (Operand.ofJson value >>= fun value => Operand.ofJson upper >>= fun upper => pure _) = _
  rw [hvalue, hupper]
  rcases c
  rfl

/-! ### Queries -/

theorem sourcesFitWords_iff {sources : List Source} :
    sourcesFitWords sources ↔ ∀ source ∈ sources, source.fitsWords := by
  induction sources with
  | nil => simp [sourcesFitWords]
  | cons source sources ih => simp [sourcesFitWords, ih]

theorem chainFitsWords_iff {chain : Chain Condition} :
    chainFitsWords chain ↔ ∀ c, .inr c ∈ chain.mixed → c.fitsWords := by
  induction chain with
  | last c => simp [chainFitsWords, Chain.mixed]
  | link c connective rest ih => simp [chainFitsWords, Chain.mixed, ih]

/-! The recursion is that of the reading, along the value that is read; what is said about a part
of the value is said for all that it may be a layout of. -/

mutual

/-- Every layout of a query is read as that query. -/
theorem Query.ofJson_of_layout :
    (v : Json) → (q : Query) → q.fitsWords → q.Layout v → Query.ofJson v = .ok q
  | .object members, q, fits, h => by
    have hmembers := Query.clausesOfMembers_of_layout members q fits
    obtain ⟨clauses, complete⟩ := h
    rw [Query.ofJson, ← Query.Clauses.ofNames_nil (q := q), hmembers clauses []]
    exact Query.Clauses.named_ofNames complete
  | .null, _, _, h | .bool _, _, _, h | .number _, _, _, h | .string _, _, _, h
  | .array _, _, _, h => by cases h

theorem Query.clausesOfMembers_of_layout : (members : List (String × Json)) → (q : Query) →
    q.fitsWords → (∀ member ∈ members, q.ClauseLayout member.1 member.2) →
      (names : List String) → Query.clausesOfMembers (Query.Clauses.ofNames q names) members =
        .ok (Query.Clauses.ofNames q (names ++ Keyed.keys members))
  | [], q, _, _, names => by
    rw [Query.clausesOfMembers, Keyed.keys, List.map_nil, List.append_nil]
  | (name, v) :: rest, q, fits, h, names => by
    rw [List.forall_mem_cons] at h
    have hclause := h.1.add_ofNames fits names (Query.ofJson_of_layout v)
      (Query.sourcesOfJson_of_layout v) (Query.conditionsOfJson_of_layout v)
    have hrest := Query.clausesOfMembers_of_layout rest q fits h.2 (names ++ [name])
    rw [List.append_assoc] at hrest
    rw [Query.clausesOfMembers, hclause]
    exact hrest

theorem Query.sourcesOfJson_of_layout : (v : Json) → (sources : List Source) →
    sourcesFitWords sources → Source.ClauseLayout sources v →
      Query.sourcesOfJson v = .ok sources
  | .object members, sources, fits, h => by
    have hmembers := Query.sourcesOfMembers_of_layout members sources fits
    obtain ⟨units, complete⟩ := h
    rw [Query.sourcesOfJson]
    exact hmembers units none (.inr complete)
  | .null, _, _, h | .bool _, _, _, h | .number _, _, _, h | .string _, _, _, h
  | .array _, _, _, h => by cases h

theorem Query.sourcesOfMembers_of_layout : (members : List (String × Json)) →
    (sources : List Source) → sourcesFitWords sources →
      (∀ member ∈ members, member.1 = "table_units" → Source.ListLayout sources member.2) →
      (found : Option (List Source)) →
        (found = some sources ∨ "table_units" ∈ Keyed.keys members) →
          Query.sourcesOfMembers found members = .ok sources
  | [], sources, _, _, found, hcomplete => by
    obtain rfl : found = some sources := by simpa [Keyed.keys] using hcomplete
    rw [Query.sourcesOfMembers]
  | (name, v) :: rest, sources, fits, h, found, hcomplete => by
    rw [List.forall_mem_cons] at h
    have hrest := Query.sourcesOfMembers_of_layout rest sources fits h.2
    have hv := Source.listOfJson_of_layout v sources fits
    rw [Query.sourcesOfMembers]
    split_ifs with hname
    · rw [hv (h.1 hname)]
      exact hrest (some sources) (.inl rfl)
    · apply hrest found
      simpa [Keyed.keys, Ne.symm hname] using hcomplete

theorem Source.listOfJson_of_layout : (v : Json) → (sources : List Source) →
    sourcesFitWords sources → Source.ListLayout sources v → Source.listOfJson v = .ok sources
  | .array items, sources, fits, h => by
    have hitems := Source.listOfItems_of_layout items sources (sourcesFitWords_iff.mp fits)
    obtain ⟨entries⟩ := h
    rw [Source.listOfJson]
    exact hitems entries
  | .null, _, _, h | .bool _, _, _, h | .number _, _, _, h | .string _, _, _, h
  | .object _, _, _, h => by cases h

theorem Source.listOfItems_of_layout : (items : List Json) → (sources : List Source) →
    (∀ source ∈ sources, source.fitsWords) → List.Forall₂ Source.Layout sources items →
      Source.listOfItems items = .ok sources
  | [], sources, _, h => by
    cases h
    rw [Source.listOfItems]
  | v :: rest, sources, fits, h => by
    have hv := Source.ofJson_of_layout v
    have hrest := Source.listOfItems_of_layout rest
    obtain _ | ⟨hsource, hsources⟩ := h
    rw [List.forall_mem_cons] at fits
    rw [Source.listOfItems, hv _ fits.1 hsource, hrest _ fits.2 hsources]
    rfl

theorem Source.ofJson_of_layout : (v : Json) → (source : Source) → source.fitsWords →
    source.Layout v → Source.ofJson v = .ok source
  | .array (kind :: content :: rest), source, fits, h => by
    have hcontent := Query.ofJson_of_layout content
    cases h with
    | table id =>
      rw [Source.fitsWords, decide_eq_true_eq] at fits
      rw [Source.ofJson]
      show ((Json.nat (.ofNat id)).map Source.table).mapError ReadError.invalidTable = _
      rw [Json.nat_ofNat fits]
      rfl
    | query layout =>
      rw [Source.fitsWords] at fits
      rw [Source.ofJson]
      show ((Query.ofJson content).map Source.query).mapError ReadError.invalidSubquery = _
      rw [hcontent _ fits layout]
      rfl
  | .null, _, _, h | .bool _, _, _, h | .number _, _, _, h | .string _, _, _, h
  | .array [], _, _, h | .array [_], _, _, h | .object _, _, _, h => by cases h

theorem Query.conditionsOfJson_of_layout : (v : Json) → (body : Conditions) →
    bodyFitsWords body → Conditions.Layout body v → Query.conditionsOfJson v = .ok body
  | .array items, body, fits, h => by
    have hitems := Condition.mixedOfItems_of_layout items
    rw [Query.conditionsOfJson]
    cases h with
    | none => rfl
    | some entries =>
      rw [bodyFitsWords, chainFitsWords_iff] at fits
      rw [hitems _ fits entries]
      exact Chain.ofMixed_mixed _
  | .null, _, _, h | .bool _, _, _, h | .number _, _, _, h | .string _, _, _, h
  | .object _, _, _, h => by cases h

theorem Condition.mixedOfItems_of_layout : (items : List Json) →
    (entries : List (Connective ⊕ Condition)) → (∀ c, .inr c ∈ entries → c.fitsWords) →
      List.Forall₂ Condition.EntryLayout entries items →
      Condition.mixedOfItems items = .ok entries
  | [], entries, _, h => by
    cases h
    rw [Condition.mixedOfItems]
  | v :: rest, entries, fits, h => by
    have hv := Condition.mixedOfJson_of_layout v
    have hrest := Condition.mixedOfItems_of_layout rest
    obtain _ | ⟨hentry, hentries⟩ := h
    rw [Condition.mixedOfItems,
      hv _ (fun c hc => fits c (hc ▸ List.mem_cons_self)) hentry,
      hrest _ (fun c hc => fits c (List.mem_cons_of_mem _ hc)) hentries]
    rfl

theorem Condition.mixedOfJson_of_layout : (v : Json) → (entry : Connective ⊕ Condition) →
    (∀ c, entry = .inr c → c.fitsWords) → Condition.EntryLayout entry v →
      Condition.mixedOfJson v = .ok entry
  | .string s, entry, _, h => by
    obtain ⟨c⟩ := h
    rw [Condition.mixedOfJson]
    · rw [c.ofJson_name]
    · nofun
  | .array (negated :: operator :: left :: value :: upper :: rest), entry, fits, h => by
    have hvalue := Query.ofJson_of_layout value
    have hupper := Query.ofJson_of_layout upper
    obtain _ | @⟨c, _, _, layout, layout_upper⟩ := h
    obtain ⟨hleft, hv, hu⟩ := Condition.fitsWords_iff.mp (fits c rfl)
    rw [Condition.mixedOfJson, Condition.ofItems_of_layout hleft
      (Operand.ofJson_of_layout hv layout hvalue)
      (Operand.ofJson_of_layout hu layout_upper hupper)]
  | .null, _, _, h | .bool _, _, _, h | .number _, _, _, h | .object _, _, _, h
  | .array [], _, _, h | .array [_], _, _, h | .array [_, _], _, _, h | .array [_, _, _], _, _, h
  | .array [_, _, _, _], _, _, h => by cases h

end

/-- **Reading undoes writing.**  A query whose numbers are words is read back from what is written,
and from every other layout of it; a layout stays one if members of unknown names are added to it
and if empty clauses are left out. -/
theorem Query.ofJson_layout (q : Query) (fits : q.fitsWords) :
    q.Layout q.toJson ∧ Query.ofJson q.toJson = .ok q ∧
      (∀ v, q.Layout v → Query.ofJson v = .ok q) ∧
      ∀ members, q.Layout (.object members) →
        (∀ name v, name ∉ Clauses.names → q.Layout (.object (Keyed.insert name v members))) ∧
        ∀ name, q.lacks name = true →
          q.Layout (.object (members.filter fun member => member.1 ≠ name)) := by
  have hread (v : Json) (h : q.Layout v) : Query.ofJson v = .ok q := ofJson_of_layout v q fits h
  exact ⟨q.layout_toJson, hread _ q.layout_toJson, hread,
    fun members h => ⟨fun name v other => h.insert other v, fun name lacks => h.remove lacks⟩⟩

namespace Sample

/-- `SELECT customer FROM sale LIMIT 3` -/
def few : Query where
  selectList := .single 2
  sources := [.table 1]
  limit := some (Number.int 3).toBinary64

/-- `SELECT * FROM (few) WHERE id IN (few) OR id = 'x' EXCEPT few` -/
def composite : Query where
  selectList := .single 0
  sources := [.query few]
  restriction := some (.link
    { negated := false, operator := .member, left := .plain 1, value := some (.query few),
      upper := none } .or (.last
    { negated := false, operator := .equal, left := .plain 1, value := some (.text "'x'"),
      upper := none }))
  except := some few

/-- A layout of the first query that leaves out empty clauses and has further members. -/
def fewLayout : Json :=
  .object
    [("from", .object [("conds", .array []),
        ("table_units", .array [.array [.string "table_unit", .ofNat 1]])]),
      ("limit", .number (.int 3)), ("remark", .bool true), ("select", (SelectList.single 2).toJson)]

/-- A layout of the other query, in which these layouts occur. -/
def compositeLayout : Json :=
  .object
    [("except", fewLayout),
      ("from", .object [("table_units", .array [.array [.string "sql", fewLayout]])]),
      ("select", (SelectList.single 0).toJson),
      ("where", .array
        [.array [.bool false, .ofNat 8, (Term.plain 1).toJson, fewLayout, .null], .string "or",
          .array [.bool false, .ofNat 2, (Term.plain 1).toJson, .string "'x'", .null]])]

theorem layout_few : few.Layout fewLayout := by
  refine .object ?_ (by decide)
  simp only [List.forall_mem_cons, List.not_mem_nil, false_implies, implies_true, and_true]
  refine ⟨.sources (.object ?_ (by decide)), .limit rfl, .unknown (by decide), .selectList⟩
  simp only [List.forall_mem_cons, List.not_mem_nil, false_implies, implies_true, and_true]
  exact ⟨fun h => absurd h (by decide), fun _ => .array (.cons (.table 1) .nil)⟩

theorem layout_composite : composite.Layout compositeLayout := by
  refine .object ?_ (by decide)
  simp only [List.forall_mem_cons, List.not_mem_nil, false_implies, implies_true, and_true]
  refine ⟨.branch .except rfl layout_few, .sources (.of_list (.array (.cons ?_ .nil))),
    .selectList, .restriction (.some (.cons ?_ (.cons (.connective .or) (.cons ?_ .nil))))⟩
  · exact .query layout_few
  · exact .condition (.query layout_few) .none
  · exact .condition (.text "'x'") .none

end Sample

theorem Query.ofJson_layout_sample :
    Sample.composite.fitsWords = true ∧ Sample.composite.Layout Sample.compositeLayout ∧
      Query.ofJson Sample.compositeLayout = .ok Sample.composite ∧
      Query.ofJson Sample.composite.toJson = .ok Sample.composite := by
  have fits : Sample.composite.fitsWords = true := by decide
  obtain ⟨-, hwritten, hread, -⟩ := Query.ofJson_layout Sample.composite fits
  exact ⟨fits, Sample.layout_composite, hread _ Sample.layout_composite, hwritten⟩

end QueryGrammar
