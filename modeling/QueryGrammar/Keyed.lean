/-
QueryGrammar/Keyed.lean

Association lists in key order.

A list of pairs that grows by `insert` from the empty list has its keys in increasing order, each
once.  What `find?` says after an insertion holds for every list:

    find? k (insert k v l) = some v,        find? j (insert k v l) = find? j l   for j ≠ k,

and its keys are those of the list and the inserted one.  Of several insertions of one key the last
one stays, and the order in which different keys are inserted does not matter.  A list whose keys
are in order is the one that its own pairs make (`ofList_of_sorted`).
-/

namespace QueryGrammar.Keyed

variable {κ α : Type} [DecidableEq κ] [LT κ] [DecidableLT κ]

/-- The value of a key. -/
def find? (key : κ) : List (κ × α) → Option α
  | [] => none
  | (k, v) :: rest => if k = key then some v else find? key rest

/-- Set the value of a key: in place if the key is there, before the first larger key if not. -/
def insert (key : κ) (value : α) : List (κ × α) → List (κ × α)
  | [] => [(key, value)]
  | (k, v) :: rest =>
    if k = key then (key, value) :: rest
    else if key < k then (key, value) :: (k, v) :: rest
    else (k, v) :: insert key value rest

/-- The association list of some pairs, of which a later one replaces an earlier one of its
key. -/
def ofList (pairs : List (κ × α)) : List (κ × α) :=
  pairs.foldl (fun l pair => insert pair.1 pair.2 l) []

/-- The keys, in order. -/
def keys (l : List (κ × α)) : List κ := l.map Prod.fst

/-! ### Looking up after an insertion -/

theorem find?_insert_self (key : κ) (value : α) (l : List (κ × α)) :
    find? key (insert key value l) = some value := by
  induction l with
  | nil => simp [insert, find?]
  | cons pair rest ih =>
    simp only [insert]
    split
    · simp [find?]
    · next hk =>
      split
      · simp [find?]
      · simpa [find?, hk] using ih

theorem find?_insert_of_ne {key other : κ} (h : other ≠ key) (value : α) (l : List (κ × α)) :
    find? other (insert key value l) = find? other l := by
  induction l with
  | nil => simp [insert, find?, Ne.symm h]
  | cons pair rest ih =>
    simp only [insert]
    split
    · next hk => simp [find?, hk, Ne.symm h]
    · split
      · simp [find?, Ne.symm h]
      · simp [find?, ih]

/-- Looking up after an insertion, whether or not it is of the same key. -/
theorem find?_insert (key other : κ) (value : α) (l : List (κ × α)) :
    find? other (insert key value l) = if key = other then some value else find? other l := by
  split
  · next h => rw [h, find?_insert_self]
  · next h => exact find?_insert_of_ne (Ne.symm h) value l

theorem mem_keys_insert {key other : κ} (value : α) (l : List (κ × α)) :
    other ∈ keys (insert key value l) ↔ other = key ∨ other ∈ keys l := by
  induction l with
  | nil => simp [insert, keys]
  | cons pair rest ih =>
    simp only [keys] at ih
    simp only [insert]
    split
    · next hk => simp [keys, hk]
    · split
      · simp [keys]
      · simp only [keys, List.map_cons, List.mem_cons, ih]
        exact or_left_comm

theorem mem_insert {key : κ} {value : α} {l : List (κ × α)} {pair : κ × α}
    (h : pair ∈ insert key value l) : pair = (key, value) ∨ pair ∈ l := by
  induction l with
  | nil => exact .inl (List.mem_singleton.mp h)
  | cons first rest ih =>
    simp only [insert] at h
    split at h
    · exact (List.mem_cons.mp h).imp_right (List.mem_cons_of_mem _)
    · split at h
      · exact List.mem_cons.mp h
      · rcases List.mem_cons.mp h with rfl | h
        · exact .inr List.mem_cons_self
        · exact (ih h).imp_right (List.mem_cons_of_mem _)

/-- The association list has no pairs but the given ones. -/
theorem mem_ofList {pairs : List (κ × α)} {pair : κ × α} (h : pair ∈ ofList pairs) :
    pair ∈ pairs := by
  have hfold : ∀ l, pair ∈ pairs.foldl (fun l pair => insert pair.1 pair.2 l) l →
      pair ∈ l ∨ pair ∈ pairs := by
    clear h
    induction pairs with
    | nil => exact fun l => .inl
    | cons first rest ih =>
      intro l h
      rcases ih _ h with h | h
      · exact (mem_insert h).elim (fun h => .inr (h ▸ List.mem_cons_self)) .inl
      · exact .inr (List.mem_cons_of_mem _ h)
  exact (hfold [] h).resolve_left List.not_mem_nil

/-! ### Inserting twice -/

/-- A later insertion of a key replaces an earlier one. -/
theorem insert_insert_self (key : κ) (value later : α) (l : List (κ × α)) :
    insert key later (insert key value l) = insert key later l := by
  induction l with
  | nil => simp [insert]
  | cons pair rest ih =>
    obtain ⟨k, v⟩ := pair
    by_cases hk : k = key
    · simp [insert, hk]
    · by_cases hlt : key < k
      · simp [insert, hk, hlt]
      · simp [insert, hk, hlt, ih]

section Order

variable [LE κ] [Std.IsLinearOrder κ] [Std.LawfulOrderLT κ]

/-- Insertions of two keys may be exchanged. -/
theorem insert_comm {key other : κ} (h : key < other) (value value' : α) (l : List (κ × α)) :
    insert key value (insert other value' l) = insert other value' (insert key value l) := by
  have hne : key ≠ other := by
    rintro rfl
    exact Std.lt_irrefl h
  have hnlt : ¬other < key := fun h' => Std.lt_irrefl (Std.lt_trans h h')
  induction l with
  | nil => simp [insert, h, hne, hne.symm, hnlt]
  | cons pair rest ih =>
    obtain ⟨k, v⟩ := pair
    by_cases hk : k = key
    · subst hk
      simp [insert, hne, hnlt]
    · by_cases hlt : key < k
      · by_cases hk' : k = other
        · subst hk'
          simp [insert, h, hne, hne.symm, hnlt]
        · by_cases hlt' : other < k <;> simp [insert, hk, hlt, hk', hlt', h, hne, hne.symm, hnlt]
      · -- both keys go behind this one
        have hk' : k ≠ other := by
          rintro rfl
          exact hlt h
        have hlt' : ¬other < k := fun h' => hlt (Std.lt_trans h h')
        simp [insert, hk, hlt, hk', hlt', ih]

/-- Insertion keeps the keys in increasing order, each once. -/
theorem sorted_insert {l : List (κ × α)} (h : (keys l).Pairwise (· < ·)) (key : κ) (value : α) :
    (keys (insert key value l)).Pairwise (· < ·) := by
  induction l with
  | nil => exact List.pairwise_singleton _ _
  | cons pair rest ih =>
    obtain ⟨k, v⟩ := pair
    obtain ⟨hfirst, hrest⟩ := List.pairwise_cons.mp h
    by_cases hk : k = key
    · subst hk
      rw [insert, if_pos rfl]
      exact h
    · by_cases hlt : key < k
      · simp only [insert, hk, hlt, if_true, if_false]
        refine List.pairwise_cons.mpr ⟨fun other hother => ?_, h⟩
        rcases List.mem_cons.mp hother with rfl | hother
        · exact hlt
        · exact Std.lt_trans hlt (hfirst other hother)
      · have hlt' : k < key := Std.lt_of_le_of_ne (Std.not_lt.mp hlt) hk
        simp only [insert, hk, hlt, if_false]
        refine List.pairwise_cons.mpr ⟨fun other hother => ?_, ih hrest⟩
        rcases (mem_keys_insert value rest).mp hother with rfl | hother
        · exact hlt'
        · exact hfirst other hother

/-! ### Lists in key order -/

theorem sorted_ofList (pairs : List (κ × α)) : (keys (ofList pairs)).Pairwise (· < ·) := by
  have hfold : ∀ l : List (κ × α), (keys l).Pairwise (· < ·) →
      (keys (pairs.foldl (fun l pair => insert pair.1 pair.2 l) l)).Pairwise (· < ·) := by
    induction pairs with
    | nil => exact fun l h => h
    | cons first rest ih => exact fun l h => ih _ (sorted_insert h first.1 first.2)
  exact hfold [] .nil

/-- A key that is larger than all others goes to the end. -/
theorem insert_of_lt {key : κ} {l : List (κ × α)} (h : ∀ k ∈ keys l, k < key) (value : α) :
    insert key value l = l ++ [(key, value)] := by
  induction l with
  | nil => rfl
  | cons pair rest ih =>
    obtain ⟨k, v⟩ := pair
    obtain ⟨hfirst, hrest⟩ := List.forall_mem_cons.mp h
    have hne : k ≠ key := fun heq => Std.lt_irrefl (heq ▸ hfirst)
    have hnlt : ¬key < k := fun hlt => Std.lt_irrefl (Std.lt_trans hlt hfirst)
    rw [insert, if_neg hne, if_neg hnlt, ih hrest]
    rfl

/-- Pairs that are in key order already stay as they are. -/
theorem ofList_of_sorted {pairs : List (κ × α)} (h : (keys pairs).Pairwise (· < ·)) :
    ofList pairs = pairs := by
  have hfold : ∀ l, (keys (l ++ pairs)).Pairwise (· < ·) →
      pairs.foldl (fun l pair => insert pair.1 pair.2 l) l = l ++ pairs := by
    clear h
    induction pairs with
    | nil => exact fun l _ => (List.append_nil l).symm
    | cons first rest ih =>
      intro l h
      have hlast : ∀ k ∈ keys l, k < first.1 := by
        rw [keys, List.map_append, List.map_cons] at h
        exact fun k hk => (List.pairwise_append.mp h).2.2 k hk _ List.mem_cons_self
      rw [List.append_cons] at h
      rw [List.foldl_cons, insert_of_lt hlast, ih _ h, ← List.append_cons]
  exact hfold [] h

end Order

end QueryGrammar.Keyed
