/-
QueryGrammar/Proofs/ReadBack.lean

Reading back the list of literals.

The list that comes with an encoding is written as JSON values, and each of them is laid out as an
operand is.  What an operand becomes as a literal is therefore read as an operand again, and as one
that stands for the same literal (`Literal.Readable`): a number keeps its sign, also that of a
zero, a column is no array of clauses, and a text has lost its quotation marks already, so that
there are none left to take away (`trimQuotationMarks_trimQuotationMarks`).

A list without repetitions is stored as it is, every entry at its own place.

Main result: the stored literals of a sequence of operands are read back from their JSON values,
and storing them again gives the places in order and the same list
(`LiteralPool.insertAll_readBack`).
-/
import Mathlib.Data.List.DropRight
import QueryGrammar.Proofs.Parsing
import QueryGrammar.Proofs.Storing
import QueryGrammar.Proofs.Values

namespace QueryGrammar

/-! ### Quotation marks -/

theorem dropWhile_of_prefix {α : Type} {p : α → Bool} {xs ys : List α} (h : xs <+: ys)
    (hys : ys.dropWhile p = ys) : xs.dropWhile p = xs := by
  rcases xs with _ | ⟨x, xs⟩
  · rfl
  · obtain ⟨rest, rfl⟩ := h
    have hx : ¬p x := List.dropWhile_eq_self_iff.mp hys (Nat.zero_lt_succ _)
    rw [List.dropWhile_cons_of_neg hx]

theorem toList_trimQuotationMarks (s : String) : (trimQuotationMarks s).toList =
    (s.toList.dropWhile isQuotationMark).rdropWhile isQuotationMark :=
  String.toList_ofList

/-- Quotation marks are taken away once and for all. -/
theorem trimQuotationMarks_trimQuotationMarks (s : String) :
    trimQuotationMarks (trimQuotationMarks s) = trimQuotationMarks s := by
  apply String.toList_injective
  rw [toList_trimQuotationMarks (trimQuotationMarks s), toList_trimQuotationMarks]
  -- what is left begins as the text without its first marks, unless it is empty
  have hfirst := dropWhile_of_prefix
    (List.rdropWhile_prefix isQuotationMark (s.toList.dropWhile isQuotationMark))
    (List.dropWhile_idempotent isQuotationMark s.toList)
  rw [hfirst, List.rdropWhile_idempotent]

/-! ### Literals of operands -/

namespace Literal

/-- Whether the JSON value of a literal is read as an operand that stands for the literal. -/
def Readable (l : Literal) : Prop :=
  ∃ operand, Operand.requiredOfJson l.toJson = .ok operand ∧ ofOperand operand = .ok l

theorem readable_of_ofJson {l : Literal} {operand : Operand}
    (hread : Operand.ofJson l.toJson = .ok (some operand)) (hl : ofOperand operand = .ok l) :
    l.Readable := by
  refine ⟨operand, ?_, hl⟩
  rw [Operand.requiredOfJson, hread]
  rfl

/-- An operand other than a query stands for a literal, which is read back. -/
theorem exists_ofOperand {operand : Operand} (plain : ∀ q, operand ≠ .query q)
    (fits : operand.fitsWords) : ∃ l, ofOperand operand = .ok l ∧ l.Readable := by
  rcases operand with q | x | s | use
  · exact absurd rfl (plain q)
  · have hread : Operand.ofJson (.number (.float x)) = .ok (some (.number x)) := by
      rw [Operand.ofJson]
      rfl
    exact ⟨.number (.finite x), rfl, readable_of_ofJson hread rfl⟩
  · have hread : Operand.ofJson (.string (trimQuotationMarks s)) =
        .ok (some (.text (trimQuotationMarks s))) := by
      rw [Operand.ofJson]
    have hl : ofOperand (.text (trimQuotationMarks s)) = .ok (.text (trimQuotationMarks s)) := by
      rw [ofOperand, trimQuotationMarks_trimQuotationMarks]
    exact ⟨.text (trimQuotationMarks s), rfl, readable_of_ofJson hread hl⟩
  · rw [Operand.fitsWords] at fits
    exact ⟨.column use, rfl, readable_of_ofJson (Operand.ofJson_columnUse fits) rfl⟩

theorem exists_mapM_ofOperand {operands : List Operand}
    (plain : ∀ operand ∈ operands, ∀ q, operand ≠ .query q)
    (fits : ∀ operand ∈ operands, operand.fitsWords) :
    ∃ literals, operands.mapM ofOperand = .ok literals ∧ ∀ l ∈ literals, l.Readable := by
  induction operands with
  | nil => exact ⟨[], rfl, by simp⟩
  | cons operand operands ih =>
    rw [List.forall_mem_cons] at plain fits
    obtain ⟨l, hl, hreadable⟩ := exists_ofOperand plain.1 fits.1
    obtain ⟨literals, hliterals, hall⟩ := ih plain.2 fits.2
    refine ⟨l :: literals, ?_, List.forall_mem_cons.mpr ⟨hreadable, hall⟩⟩
    rw [List.mapM_cons, hl, hliterals]
    rfl

/-- A list of literals is read back if each of them is. -/
theorem exists_read_of_readable {values : List Literal} (h : ∀ l ∈ values, l.Readable) :
    ∃ read, Json.list Operand.requiredOfJson (.array (values.map toJson)) = .ok read ∧
      read.mapM ofOperand = .ok values := by
  show ∃ read, (values.map toJson).mapM Operand.requiredOfJson = .ok read ∧ _
  induction values with
  | nil => exact ⟨[], rfl, rfl⟩
  | cons l values ih =>
    rw [List.forall_mem_cons] at h
    obtain ⟨operand, hoperand, hl⟩ := h.1
    obtain ⟨read, hread, hvalues⟩ := ih h.2
    refine ⟨operand :: read, ?_, ?_⟩
    · rw [List.map_cons, List.mapM_cons, hoperand, hread]
      rfl
    · rw [List.mapM_cons, hl, hvalues]
      rfl

/-! ### Lists without repetitions -/

variable {values literals : List Literal} {l : Literal}

/-- Nothing is stored but the literals of the sequence. -/
theorem mem_of_mem_stored (h : l ∈ stored literals) : l ∈ literals := by
  induction literals using List.reverseRecOn with
  | nil => exact h
  | append_singleton literals k ih =>
    rw [stored_concat] at h
    rw [List.mem_append]
    rcases hk : (stored literals).any (·.same k)
    · rw [store_of_not_any hk, List.mem_append] at h
      exact h.imp_left ih
    · rw [store_of_any hk] at h
      exact .inl (ih h)

/-- A list without repetitions is stored as it is. -/
theorem stored_of_pairwise (distinct : values.Pairwise fun k l => k.same l = false) :
    stored values = values := by
  induction values using List.reverseRecOn with
  | nil => rfl
  | append_singleton values l ih =>
    obtain ⟨hvalues, -, hl⟩ := List.pairwise_append.mp distinct
    have hnew : values.any (·.same l) = false := by
      rw [List.any_eq_false]
      intro k hk
      rw [hl k hk l (List.mem_singleton_self l)]
      exact Bool.false_ne_true
    rw [stored_concat, ih hvalues, store_of_not_any hnew]

/-- In a list without repetitions every entry is at its own place. -/
theorem map_place_of_pairwise (distinct : values.Pairwise fun k l => k.same l = false) :
    values.map (place values) = List.range values.length := by
  apply List.ext_getElem
  · rw [List.length_map, List.length_range]
  · intro i hi _
    rw [List.length_map] at hi
    rw [List.getElem_map, List.getElem_range]
    exact place_of_getElem? distinct (List.getElem?_eq_getElem hi) (same_self _)

end Literal

/-! ### Storing what has been read -/

namespace LiteralPool

/-- **The list of literals is read back.**  Operands that are no queries stand for literals.  Once
these are stored, the JSON value of every entry of the list is read as an operand that stands for
the entry, and storing the entries again gives the places in order and the same list. -/
theorem insertAll_readBack {operands : List Operand}
    (plain : ∀ operand ∈ operands, ∀ q, operand ≠ .query q)
    (fits : ∀ operand ∈ operands, operand.fitsWords) :
    ∃ literals, operands.mapM Literal.ofOperand = .ok literals ∧
      let values := (insertAll literals {}).2.toList
      ∃ read, Json.list Operand.requiredOfJson (.array (values.map Literal.toJson)) = .ok read ∧
        read.mapM Literal.ofOperand = .ok values ∧
        (insertAll values {}).1 = List.range values.length ∧
        (insertAll values {}).2.toList = values := by
  obtain ⟨literals, hliterals, hreadable⟩ := Literal.exists_mapM_ofOperand plain fits
  refine ⟨literals, hliterals, ?_⟩
  intro values
  have hvalues : values = Literal.stored literals := (insertAll_empty literals).2
  have hdistinct : values.Pairwise fun k l => k.same l = false :=
    hvalues ▸ Literal.pairwise_stored literals
  have hentries : ∀ l ∈ values, l.Readable := by
    intro l hl
    rw [hvalues] at hl
    exact hreadable l (Literal.mem_of_mem_stored hl)
  obtain ⟨read, hread, hback⟩ := Literal.exists_read_of_readable hentries
  obtain ⟨hplaces, hlist⟩ := insertAll_empty values
  rw [Literal.stored_of_pairwise hdistinct] at hplaces hlist
  exact ⟨read, hread, hback, hplaces.trans (Literal.map_place_of_pairwise hdistinct), hlist⟩

end LiteralPool

namespace Sample

/-- A text in mixed quotation marks and without, a zero of either sign, a text of quotation marks
alone, and a column. -/
def operands : List Operand :=
  [.text "'\"x\"'", .text "x", .number Binary64.zero.neg, .number .zero, .text "\"''",
    .column ⟨.count, 3, true⟩]

/-- What is stored of them: the zero that comes first stays. -/
def literals : List Literal :=
  [.text "x", .number (.finite Binary64.zero.neg), .text "", .column ⟨.count, 3, true⟩]

end Sample

theorem LiteralPool.insertAll_readBack_sample :
    ∃ literals, Sample.operands.mapM Literal.ofOperand = .ok literals ∧
      (insertAll literals {}).2.toList = Sample.literals ∧
      ∃ read, Json.list Operand.requiredOfJson (.array (Sample.literals.map Literal.toJson)) =
          .ok read ∧
        read.mapM Literal.ofOperand = .ok Sample.literals ∧
        (insertAll Sample.literals {}).1 = [0, 1, 2, 3] ∧
        (insertAll Sample.literals {}).2.toList = Sample.literals := by
  have plain : ∀ operand ∈ Sample.operands, ∀ q, operand ≠ .query q := by simp [Sample.operands]
  have fits : ∀ operand ∈ Sample.operands, operand.fitsWords := by decide
  obtain ⟨literals, hliterals, hread⟩ := insertAll_readBack plain fits
  have hvalues : (insertAll literals {}).2.toList = Sample.literals := by
    cases hliterals
    decide
  rw [hvalues] at hread
  exact ⟨literals, hliterals, hvalues, hread⟩

end QueryGrammar
