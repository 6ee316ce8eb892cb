/-
QueryGrammar/Proofs/Rendering.lean

The text of a derivation and the tokens it came from.

A text is read back in three steps: it is split at spaces, each part is split at its brackets, and
what stands before and inside them is looked up as a label and read as a numeral
(`Token.parse?`).  Splitting at a character undoes joining by it if no part contains the character,
so the question is which characters occur where: labels have neither brackets nor spaces, numerals
consist of digits.

A numeral is the one that a number is written as if it has a digit and does not begin with a
needless zero (`Token.decimal?_eq_some_iff`).  `Root1(3)` and `Root(13)` have the same letters and
digits in the same order; the bracket tells them apart.

Main result: the texts that can be read are the texts of tokens, and each of them is the text of
only one sequence of tokens (`Token.render_lossless`).
-/
import QueryGrammar.Token

namespace QueryGrammar

/-! ### Labels -/

namespace Symbol

/-- The symbol with a label. -/
def ofLabel? (label : List Char) : Option Symbol :=
  all.find? fun symbol => decide (symbol.label.toList = label)

theorem ofLabel?_label (symbol : Symbol) : ofLabel? symbol.label.toList = some symbol := by
  cases symbol <;> decide

theorem ofLabel?_eq_some_iff {label : List Char} {symbol : Symbol} :
    ofLabel? label = some symbol ↔ label = symbol.label.toList := by
  constructor
  · intro h
    have hlabel : decide (symbol.label.toList = label) = true :=
      List.find?_some (p := fun symbol : Symbol => decide (symbol.label.toList = label)) h
    exact (of_decide_eq_true hlabel).symm
  · rintro rfl
    exact symbol.ofLabel?_label

/-- Labels consist of letters and digits. -/
theorem isAlphanum_of_mem_label (symbol : Symbol) : ∀ c ∈ symbol.label.toList, c.isAlphanum := by
  have hall : symbol.label.toList.all Char.isAlphanum := by cases symbol <;> rfl
  exact List.all_eq_true.mp hall

end Symbol

namespace Token

/-! ### Numerals -/

/-- Digits that a number is written with: at least one, and no zero before others. -/
structure IsNumeral (text : List Char) : Prop where
  nonempty : text ≠ []
  digits : ∀ c ∈ text, c.isDigit
  zero : text.head? = some '0' → text = ['0']

instance (text : List Char) : Decidable (IsNumeral text) :=
  decidable_of_iff
    (text ≠ [] ∧ text.all Char.isDigit ∧ (text.head? = some '0' → text = ['0']))
    ⟨fun ⟨nonempty, digits, zero⟩ => ⟨nonempty, List.all_eq_true.mp digits, zero⟩,
      fun ⟨nonempty, digits, zero⟩ => ⟨nonempty, List.all_eq_true.mpr digits, zero⟩⟩

/-- The number that a decimal numeral writes. -/
def decimal? (digits : List Char) : Option Nat :=
  if IsNumeral digits then some (Nat.ofDigitChars 10 digits 0) else none

/-- Digits are the characters of the numbers below ten. -/
theorem exists_digitChar {c : Char} (h : c.isDigit) :
    ∃ d < 10, c = Nat.digitChar d ∧ c.toNat - '0'.toNat = d := by
  obtain ⟨hlow, hhigh⟩ : 48 ≤ c.toNat ∧ c.toNat ≤ 57 := Char.isDigit_iff_toNat.mp h
  have hlt : c.toNat - 48 < 10 := by omega
  refine ⟨c.toNat - 48, hlt, Char.toNat_inj.mp ?_, rfl⟩
  rw [Nat.toNat_digitChar_of_lt_ten hlt]
  omega

/-- More digits after those of a positive number. -/
theorem toDigits_append {value : Nat} (pos : 0 < value) {digits : List Char}
    (h : ∀ c ∈ digits, c.isDigit) :
    Nat.toDigits 10 value ++ digits = Nat.toDigits 10 (Nat.ofDigitChars 10 digits value) := by
  induction digits generalizing value with
  | nil => rw [List.append_nil, Nat.ofDigitChars_nil]
  | cons c digits ih =>
    rw [List.forall_mem_cons] at h
    obtain ⟨d, hd, hc, hvalue⟩ := exists_digitChar h.1
    have hnext : Nat.toDigits 10 value ++ [c] = Nat.toDigits 10 (10 * value + d) := by
      rw [hc, ← Nat.toDigits_of_lt_base hd, Nat.toDigits_append_toDigits (by decide) pos hd]
    rw [List.append_cons, hnext, ih (by omega) h.2, Nat.ofDigitChars_cons, hvalue]

theorem toDigits_of_isNumeral {digits : List Char} (h : IsNumeral digits) :
    Nat.toDigits 10 (Nat.ofDigitChars 10 digits 0) = digits := by
  rcases digits with _ | ⟨c, digits⟩
  · exact absurd rfl h.nonempty
  · obtain ⟨hc, hdigits⟩ := List.forall_mem_cons.mp h.digits
    obtain ⟨d, hd, rfl, hvalue⟩ := exists_digitChar hc
    rw [Nat.ofDigitChars_cons, hvalue, Nat.mul_zero, Nat.zero_add]
    rcases Nat.eq_zero_or_pos d with rfl | hpos
    · -- a zero stands alone
      obtain rfl : digits = [] := (List.cons.inj (h.zero rfl)).2
      rfl
    · rw [← toDigits_append hpos hdigits, Nat.toDigits_of_lt_base hd]
      rfl

theorem head?_toDigits {n : Nat} (pos : 0 < n) : (Nat.toDigits 10 n).head? ≠ some '0' := by
  induction n using Nat.strongRecOn with
  | ind n ih =>
    by_cases hlt : n < 10
    · rw [Nat.toDigits_of_lt_base hlt]
      intro h
      have hzero : n = 0 := Nat.digitChar_eq_zero.mp (Option.some.inj h)
      omega
    · have hle : 10 ≤ n := by omega
      rw [Nat.toDigits_of_base_le (by decide) hle, List.head?_append,
        Option.or_of_isSome (by simp)]
      exact ih (n / 10) (by omega) (by omega)

theorem isNumeral_toDigits (n : Nat) : IsNumeral (Nat.toDigits 10 n) where
  nonempty := Nat.toDigits_ne_nil
  digits _ hc := Nat.isDigit_of_mem_toDigits (by decide) (by decide) hc
  zero h := by
    rcases Nat.eq_zero_or_pos n with rfl | hpos
    · rfl
    · exact absurd h (head?_toDigits hpos)

/-- A number is read from the numeral that it is written as, and from no other. -/
theorem decimal?_eq_some_iff {digits : List Char} {n : Nat} :
    decimal? digits = some n ↔ digits = Nat.toDigits 10 n := by
  rw [decimal?, Option.ite_none_right_eq_some]
  constructor
  · rintro ⟨h, hn⟩
    rw [← Option.some.inj hn, toDigits_of_isNumeral h]
  · rintro rfl
    exact ⟨isNumeral_toDigits n, congrArg some Nat.ofDigitChars_ten_toDigits⟩

/-! ### One token -/

/-- The token with a text. -/
def ofText? (text : List Char) : Option Token :=
  match text.splitOn '(' with
  | [label, rest] =>
    match rest.splitOn ')' with
    | [digits, []] => do
      let symbol ← Symbol.ofLabel? label
      let choice ← decimal? digits
      some ⟨symbol, choice⟩
    | _ => none
  | _ => none

theorem toList_text (token : Token) : token.text.toList =
    token.symbol.label.toList ++ '(' :: (Nat.toDigits 10 token.choice ++ [')']) := by
  rw [text, String.toList_append, String.toList_append, String.toList_append,
    Nat.toString_eq_repr, Nat.toList_repr, List.append_assoc, List.append_assoc]
  rfl

/-- A token is written without spaces. -/
theorem space_notMem_text (token : Token) : ' ' ∉ token.text.toList := by
  have hlabel : ' ' ∉ token.symbol.label.toList := fun h =>
    absurd (token.symbol.isAlphanum_of_mem_label _ h) (by decide)
  have hdigits : ' ' ∉ Nat.toDigits 10 token.choice := fun h =>
    absurd ((isNumeral_toDigits _).digits _ h) (by decide)
  simp [toList_text, hlabel, hdigits]

theorem ofText?_text (token : Token) : ofText? token.text.toList = some token := by
  have hopen : '(' ∉ token.symbol.label.toList := fun h =>
    absurd (token.symbol.isAlphanum_of_mem_label _ h) (by decide)
  have hopen' : '(' ∉ Nat.toDigits 10 token.choice ++ [')'] := by
    intro h
    rcases List.mem_append.mp h with h | h
    · exact absurd ((isNumeral_toDigits _).digits _ h) (by decide)
    · exact absurd h (by decide)
  have hclose : ')' ∉ Nat.toDigits 10 token.choice := fun h =>
    absurd ((isNumeral_toDigits _).digits _ h) (by decide)
  have hsymbol : Symbol.ofLabel? token.symbol.label.toList = some token.symbol :=
    token.symbol.ofLabel?_label
  have hchoice : decimal? (Nat.toDigits 10 token.choice) = some token.choice :=
    decimal?_eq_some_iff.mpr rfl
  rw [ofText?, toList_text, List.splitOn_append_cons_self_of_not_mem hopen,
    List.splitOn_eq_singleton hopen']
  simp only
  rw [List.splitOn_append_cons_self_of_not_mem hclose, List.splitOn_nil]
  simp only [hsymbol, hchoice]
  rfl

/-- A text that is split into two parts is these parts around the separator. -/
theorem eq_of_splitOn {separator : Char} {text before after : List Char}
    (h : text.splitOn separator = [before, after]) : text = before ++ separator :: after := by
  have hjoined : [separator].intercalate (text.splitOn separator) = text :=
    List.intercalate_splitOn separator
  rw [← hjoined, h, List.intercalate_cons_cons, List.intercalate_singleton, List.append_assoc]
  rfl

/-- A token is read from the text that it is written as, and from no other. -/
theorem ofText?_eq_some_iff {text : List Char} {token : Token} :
    ofText? text = some token ↔ text = token.text.toList := by
  constructor
  · intro h
    unfold ofText? at h
    split at h
    next label rest hopen =>
      split at h
      next digits hclose =>
        obtain ⟨symbol, hsymbol, h⟩ := Option.bind_eq_some_iff.mp h
        obtain ⟨choice, hchoice, h⟩ := Option.bind_eq_some_iff.mp h
        obtain rfl : ⟨symbol, choice⟩ = token := Option.some.inj h
        rw [toList_text, eq_of_splitOn hopen, eq_of_splitOn hclose,
          Symbol.ofLabel?_eq_some_iff.mp hsymbol, decimal?_eq_some_iff.mp hchoice]
      next => cases h
    next => cases h
  · rintro rfl
    exact token.ofText?_text

/-! ### Derivations -/

/-- The tokens with a text.  Nothing is the text of no tokens. -/
def parse? (text : String) : Option (List Token) :=
  if text = "" then some [] else (text.toList.splitOn ' ').mapM ofText?

theorem mapM_ofText?_eq_some_iff {parts : List (List Char)} {tokens : List Token} :
    parts.mapM ofText? = some tokens ↔ parts = tokens.map fun token => token.text.toList := by
  induction parts generalizing tokens with
  | nil => cases tokens <;> simp
  | cons part parts ih =>
    simp only [List.mapM_cons, Option.bind_eq_bind, Option.bind_eq_some_iff, ofText?_eq_some_iff,
      ih]
    constructor
    · rintro ⟨token, rfl, tokens, rfl, h⟩
      obtain rfl : token :: tokens = _ := Option.some.inj h
      rfl
    · intro h
      rcases tokens with _ | ⟨token, tokens⟩
      · cases h
      · obtain ⟨hpart, hparts⟩ := List.cons.inj h
        exact ⟨token, hpart, tokens, hparts, rfl⟩

theorem toList_render (tokens : List Token) : (render tokens).toList =
    [' '].intercalate (tokens.map fun token => token.text.toList) := by
  rw [render, String.toList_intercalate, List.map_map]
  rfl

theorem splitOn_render {tokens : List Token} (h : tokens ≠ []) :
    (render tokens).toList.splitOn ' ' = tokens.map fun token => token.text.toList := by
  rw [toList_render]
  refine List.splitOn_intercalate ' ' (fun part hpart => ?_) (mt List.map_eq_nil_iff.mp h)
  obtain ⟨token, -, rfl⟩ := List.mem_map.mp hpart
  exact token.space_notMem_text

theorem render_ne_empty {tokens : List Token} (h : tokens ≠ []) : render tokens ≠ "" := by
  intro hempty
  have hparts : tokens.map (fun token => token.text.toList) = [[]] := by
    rw [← splitOn_render h, hempty]
    rfl
  -- there would be a token with an empty text
  have hread : [[]].mapM ofText? = some tokens := mapM_ofText?_eq_some_iff.mpr hparts.symm
  cases hread

/-- A sequence of tokens is read from the text that it is written as, and from no other. -/
theorem parse?_eq_some_iff {text : String} {tokens : List Token} :
    parse? text = some tokens ↔ text = render tokens := by
  constructor
  · intro h
    by_cases hempty : text = ""
    · rw [parse?, if_pos hempty] at h
      obtain rfl : [] = tokens := Option.some.inj h
      exact hempty
    · rw [parse?, if_neg hempty] at h
      apply String.toList_inj.mp
      rw [toList_render, ← mapM_ofText?_eq_some_iff.mp h, List.intercalate_splitOn]
  · rintro rfl
    by_cases hnil : tokens = []
    · rw [hnil]
      rfl
    · rw [parse?, if_neg (render_ne_empty hnil), splitOn_render hnil]
      exact mapM_ofText?_eq_some_iff.mpr rfl

/-- **Rendering is lossless.**  There is a reader of space-separated labels with their choices that
reads every sequence of tokens from the text that it is written as, and no other text; so no two
sequences are written alike, and only the empty one is written as nothing. -/
theorem render_lossless :
    (∀ tokens : List Token, parse? (render tokens) = some tokens) ∧
      (∀ (text : String) (tokens : List Token), parse? text = some tokens → text = render tokens) ∧
      (∀ ts us : List Token, render ts = render us → ts = us) ∧
      ∀ tokens : List Token, render tokens = "" ↔ tokens = [] := by
  refine ⟨fun tokens => parse?_eq_some_iff.mpr rfl, fun text tokens => parse?_eq_some_iff.mp,
    fun ts us h => ?_, fun tokens => ⟨fun h => ?_, fun h => h ▸ rfl⟩⟩
  · have hread : parse? (render ts) = some us := parse?_eq_some_iff.mpr h
    exact Option.some.inj ((parse?_eq_some_iff.mpr rfl).symm.trans hread)
  · exact Decidable.byContradiction fun hne => render_ne_empty hne h

/-- The same letters and digits, with the bracket in another place. -/
example : parse? "Root1(3) Root(13)" = some [⟨.root1, 3⟩, ⟨.root, 13⟩] := by rfl

end Token

end QueryGrammar
