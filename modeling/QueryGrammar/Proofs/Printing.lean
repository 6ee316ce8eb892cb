/-
QueryGrammar/Proofs/Printing.lean

The compact text of a value is read back as the value.

A text may be scanned in parts where a part is followed by a mark, a character that separates or
closes (`scanFrom_append`).  So the lexemes of a compact text are spelled after the value (`spell`),
quoted texts with all their escapes included.  The reader takes the lexemes of a value, has a tree
that stands for the value, and hands it to the container that waits for it (`Delivers`).

Two things have to be known about the value.  It is nested no deeper than the reader goes, and its
keys are in order (`Fits`): so are the values that are read.  Its numbers are read back from their
own texts (`Number.ReadsBack`): so are the integers of a word; other numbers are read with two
roundings, and some of them come out as their neighbours.

Main results: `parse?_compact` and `parseArray_compact`.
-/
import Mathlib.Tactic.IntervalCases
import QueryGrammar.Json.Document
import QueryGrammar.Json.Printer
import QueryGrammar.Proofs.Rendering

namespace QueryGrammar

namespace Json

/-! ### Scanning in parts -/

/-- The character separates or closes. -/
def IsMark (c : Char) : Prop := c = ',' ∨ c = ':' ∨ c = ']' ∨ c = '\x7d'

/-- A mark follows, or nothing does. -/
def Ends (rest : List Char) : Prop := ∀ c ∈ rest.head?, IsMark c

theorem ends_nil : Ends [] := nofun

theorem ends_cons {c : Char} (h : IsMark c) (rest : List Char) : Ends (c :: rest) := by
  rintro _ ⟨⟩
  exact h

/-- A mark is no part of a numeral. -/
theorem next?_of_isMark {c : Char} (h : IsMark c) (stage : NumberStage) (n : Numeral) :
    stage.next? n c = none := by
  rcases h with rfl | rfl | rfl | rfl <;> cases stage <;> rfl

/-- A mark may follow a numeral that is complete. -/
theorem rejects_of_isMark {c : Char} (h : IsMark c) {stage : NumberStage}
    (complete : stage.complete) : stage.rejects c = false := by
  revert complete
  rcases h with rfl | rfl | rfl | rfl <;> cases stage <;> decide

/-- Between lexemes the next character begins one, unless it is a blank. -/
theorem scanFrom_gap_cons (c : Char) (rest : List Char) : scanFrom .gap (c :: rest) =
    match start c with
    | .blank => scanFrom .gap rest
    | .whole lexeme => lexeme :: scanFrom .gap rest
    | .scan scan => scanFrom scan rest
    | .nothing => [.malformed] := rfl

/-- A character that does not belong to a numeral begins something else, if it may follow. -/
theorem scanFrom_number_cons (stage : NumberStage) (n : Numeral) (c : Char) (rest : List Char) :
    scanFrom (.number stage n) (c :: rest) =
      match stage.next? n c with
      | some (stage, n) => scanFrom (.number stage n) rest
      | none =>
        if stage.rejects c then [.malformed]
        else .number n.toNumber? :: scanFrom .gap (c :: rest) := rfl

theorem scanFrom_word_cons (lexeme : Lexeme) (x : Char) (letters : List Char) (c : Char)
    (rest : List Char) : scanFrom (.word lexeme (x :: letters)) (c :: rest) =
      if c = x then
        if letters = [] then lexeme :: scanFrom .gap rest else scanFrom (.word lexeme letters) rest
      else [.malformed] := by
  cases letters with
  | nil => rfl
  | cons y letters => rfl

theorem scanFrom_quoted_cons (q : Quoted) (c : Char) (rest : List Char) :
    scanFrom (.quoted q) (c :: rest) =
      if c = '"' then .string q.text? :: scanFrom .gap rest
      else if c = '\\' then scanFrom (.escape q) rest
      else if c.toNat < 32 then [.malformed]
      else scanFrom (.quoted (q.push c)) rest := rfl

theorem scanFrom_escape_cons (q : Quoted) (c : Char) (rest : List Char) :
    scanFrom (.escape q) (c :: rest) =
      if c = 'u' then scanFrom (.unit q 4 0) rest
      else match escape? c with
        | some c => scanFrom (.quoted (q.push c)) rest
        | none => [.malformed] := rfl

theorem scanFrom_unit_cons (q : Quoted) (missing value : Nat) (c : Char) (rest : List Char) :
    scanFrom (.unit q missing value) (c :: rest) =
      match hexDigit? c with
      | none => [.malformed]
      | some d =>
        if missing ≤ 1 then scanFrom (.quoted (q.pushUnit (value * 16 + d))) rest
        else scanFrom (.unit q (missing - 1) (value * 16 + d)) rest := rfl

/-- A numeral ends where a mark follows. -/
theorem scanFrom_number {stage : NumberStage} (complete : stage.complete) (n : Numeral)
    {rest : List Char} (ends : Ends rest) :
    scanFrom (.number stage n) rest = .number n.toNumber? :: scanFrom .gap rest := by
  cases rest with
  | nil => exact if_pos complete
  | cons c rest =>
    have hmark : IsMark c := ends c rfl
    rw [scanFrom_number_cons, next?_of_isMark hmark, rejects_of_isMark hmark complete]
    rfl

/-- A text is scanned in two parts if a mark follows the first one. -/
theorem scanFrom_append {rest : List Char} (ends : Ends rest) {text : List Char} {scan : Scan}
    (h : .malformed ∉ scanFrom scan text) :
    scanFrom scan (text ++ rest) = scanFrom scan text ++ scanFrom .gap rest := by
  induction text generalizing scan with
  | nil =>
    cases scan with
    | gap => rfl
    | number stage n =>
      by_cases complete : stage.complete
      · show scanFrom (.number stage n) rest = (if stage.complete then _ else _) ++ _
        rw [if_pos complete]
        exact scanFrom_number complete n ends
      · have hend : scanFrom (.number stage n) [] = [.malformed] := if_neg complete
        exact absurd (hend ▸ List.mem_cons_self) h
    | _ => exact absurd List.mem_cons_self h
  | cons c text ih =>
    have hgap (h : .malformed ∉ scanFrom .gap (c :: text)) :
        scanFrom .gap (c :: text ++ rest) = scanFrom .gap (c :: text) ++ scanFrom .gap rest := by
      rw [List.cons_append, scanFrom_gap_cons, scanFrom_gap_cons]
      rw [scanFrom_gap_cons] at h
      cases hstart : start c with
      | blank =>
        rw [hstart] at h
        exact ih h
      | whole lexeme =>
        rw [hstart] at h
        exact congrArg _ (ih (List.not_mem_of_not_mem_cons h))
      | scan scan =>
        rw [hstart] at h
        exact ih h
      | nothing =>
        rw [hstart] at h
        exact absurd List.mem_cons_self h
    rw [List.cons_append]
    cases scan with
    | gap => exact hgap h
    | word lexeme letters =>
      cases letters with
      | nil => exact absurd List.mem_cons_self h
      | cons x letters =>
        rw [scanFrom_word_cons] at h ⊢
        rw [scanFrom_word_cons]
        split_ifs at h ⊢
        · exact congrArg _ (ih (List.not_mem_of_not_mem_cons h))
        · exact ih h
        · exact absurd List.mem_cons_self h
    | number stage n =>
      rw [scanFrom_number_cons] at h ⊢
      rw [scanFrom_number_cons]
      rcases hnext : stage.next? n c with _ | ⟨stage', n'⟩
      · -- the numeral is over, and the character is looked at again
        rw [hnext] at h
        dsimp only at h ⊢
        split_ifs at h ⊢
        · exact absurd List.mem_cons_self h
        · exact congrArg _ (hgap (List.not_mem_of_not_mem_cons h))
      · rw [hnext] at h
        exact ih h
    | quoted q =>
      rw [scanFrom_quoted_cons] at h ⊢
      rw [scanFrom_quoted_cons]
      split_ifs at h ⊢
      · exact congrArg _ (ih (List.not_mem_of_not_mem_cons h))
      · exact ih h
      · exact absurd List.mem_cons_self h
      · exact ih h
    | escape q =>
      rw [scanFrom_escape_cons] at h ⊢
      rw [scanFrom_escape_cons]
      split_ifs at h ⊢
      · exact ih h
      · rcases hescape : escape? c with _ | c'
        · rw [hescape] at h
          exact absurd List.mem_cons_self h
        · rw [hescape] at h
          exact ih h
    | unit q missing value =>
      rw [scanFrom_unit_cons] at h ⊢
      rw [scanFrom_unit_cons]
      rcases hdigit : hexDigit? c with _ | d
      · rw [hdigit] at h
        exact absurd List.mem_cons_self h
      · rw [hdigit] at h
        dsimp only at h ⊢
        split_ifs at h ⊢
        · exact ih h
        · exact ih h

/-! ### Quoted texts -/

theorem hexDigit?_hexDigit (n : Nat) : hexDigit? (hexDigit n) = some (n % 16) := by
  have hlt : n % 16 < 16 := Nat.mod_lt n (by decide)
  rw [hexDigit]
  generalize n % 16 = d at hlt
  interval_cases d <;> rfl

/-- A character is read back from its escape, or from itself. -/
theorem scanFrom_escapeChar (chars : List Char) (c : Char) (rest : List Char) :
    scanFrom (.quoted { chars }) (escapeChar c ++ rest) =
      scanFrom (.quoted { chars := c :: chars }) rest := by
  unfold escapeChar
  split
  case h_8 hquote hbackslash _ _ _ _ _ =>
    split_ifs with hcontrol
    · have hunit : Quoted.pushUnit { chars }
          ((((0 * 16 + 0) * 16 + 0) * 16 + c.toNat / 16 % 16) * 16 + c.toNat % 16) =
            { chars := c :: chars } := by
        have hvalue : (((0 * 16 + 0) * 16 + 0) * 16 + c.toNat / 16 % 16) * 16 + c.toNat % 16 =
            c.toNat := by omega
        rw [hvalue, Quoted.pushUnit]
        dsimp only
        rw [if_neg (by omega), if_neg (by omega), Char.ofNat_toNat]
      show scanFrom (.unit { chars } 2 ((0 * 16 + 0) * 16 + 0))
        (hexDigit (c.toNat / 16) :: hexDigit c.toNat :: rest) = _
      rw [scanFrom_unit_cons, hexDigit?_hexDigit]
      show scanFrom (.unit { chars } 1 _) _ = _
      rw [scanFrom_unit_cons, hexDigit?_hexDigit]
      show scanFrom (.quoted (Quoted.pushUnit { chars } _)) _ = _
      rw [hunit]
    · rw [List.cons_append, scanFrom_quoted_cons, if_neg hquote, if_neg hbackslash,
        if_neg hcontrol]
      rfl
  all_goals rfl

/-- A text is read back from its quotation. -/
theorem lexemes_quote (s : String) : lexemes (quote s) = [.string (some s)] := by
  have hchars : ∀ (l chars : List Char),
      scanFrom (.quoted { chars }) (l.flatMap escapeChar ++ ['"']) =
        [.string (some (String.ofList (chars.reverse ++ l)))] := by
    intro l
    induction l with
    | nil =>
      intro chars
      rw [List.append_nil]
      rfl
    | cons c l ih =>
      intro chars
      rw [List.flatMap_cons, List.append_assoc, scanFrom_escapeChar, ih, List.reverse_cons,
        List.append_assoc]
      rfl
  have hquote : (quote s).toList = '"' :: (s.toList.flatMap escapeChar ++ ['"']) := by
    simp [quote]
  rw [lexemes, hquote]
  exact (hchars s.toList []).trans (by rw [List.reverse_nil, List.nil_append, String.ofList_toList])

end Json

/-! ### Numbers -/

/-- The number is read back from its text. -/
def Number.ReadsBack (n : Number) : Prop := Json.lexemes n.text = [.number (some n)]

instance : DecidablePred Number.ReadsBack := fun n =>
  inferInstanceAs (Decidable (Json.lexemes n.text = [.number (some n)]))

namespace Json

/-- The value of a digit. -/
def digitValue (c : Char) : Nat := c.toNat - '0'.toNat

theorem digit?_of_isDigit {c : Char} (h : c.isDigit) : digit? c = some (digitValue c) := by
  obtain ⟨d, hd, rfl, -⟩ := Token.exists_digitChar h
  interval_cases d <;> rfl

theorem ofDigits_map_digitValue (digits : List Char) :
    ofDigits 10 (digits.map digitValue) = Nat.ofDigitChars 10 digits 0 := by
  have hfold : ∀ value, (digits.map digitValue).foldl (fun value d => value * 10 + d) value =
      Nat.ofDigitChars 10 digits value := by
    induction digits with
    | nil => exact fun value => rfl
    | cons c digits ih =>
      intro value
      rw [List.map_cons, List.foldl_cons, ih, Nat.ofDigitChars_cons, Nat.mul_comm]
      rfl
  exact hfold 0

theorem next?_whole {c : Char} (h : c.isDigit) (n : Numeral) : NumberStage.whole.next? n c =
    some (.whole, { n with whole := n.whole ++ [digitValue c] }) := by
  unfold NumberStage.next?
  rw [digit?_of_isDigit h]

theorem next?_minus {c : Char} (h : c.isDigit) (n : Numeral) : NumberStage.minus.next? n c =
    some (if digitValue c = 0 then .zero else .whole, { n with whole := [digitValue c] }) := by
  unfold NumberStage.next?
  rw [digit?_of_isDigit h]

/-- Digits after the first one are gathered up to the end. -/
theorem scanFrom_whole {digits : List Char} (h : ∀ c ∈ digits, c.isDigit) (n : Numeral) :
    scanFrom (.number .whole n) digits =
      [.number { n with whole := n.whole ++ digits.map digitValue }.toNumber?] := by
  induction digits generalizing n with
  | nil =>
    rw [List.map_nil, List.append_nil]
    rfl
  | cons c digits ih =>
    obtain ⟨hc, hdigits⟩ := List.forall_mem_cons.mp h
    rw [scanFrom_number_cons, next?_whole hc]
    refine (ih hdigits _).trans ?_
    rw [List.map_cons, List.append_assoc]
    rfl

/-- A numeral is gathered from its first digit. -/
theorem scanFrom_toDigits (negative : Bool) (n : Nat) :
    scanFrom (.number .minus { negative }) (Nat.toDigits 10 n) =
      [.number { negative, whole := (Nat.toDigits 10 n).map digitValue : Numeral }.toNumber?] := by
  have hnumeral := Token.isNumeral_toDigits n
  rcases hdigits : Nat.toDigits 10 n with _ | ⟨c, digits⟩
  · exact absurd hdigits Nat.toDigits_ne_nil
  · rw [hdigits] at hnumeral
    obtain ⟨hc, hrest⟩ := List.forall_mem_cons.mp hnumeral.digits
    by_cases hzero : c = '0'
    · -- a zero stands alone
      subst hzero
      obtain rfl : digits = [] := (List.cons.inj (hnumeral.zero rfl)).2
      rfl
    · have hvalue : digitValue c ≠ 0 := by
        obtain ⟨d, hd, rfl, -⟩ := Token.exists_digitChar hc
        interval_cases d
        · exact absurd rfl hzero
        all_goals decide
      rw [scanFrom_number_cons, next?_minus hc, if_neg hvalue]
      exact scanFrom_whole hrest _

/-- A digit begins a numeral. -/
theorem scanFrom_gap_digit {c : Char} (h : c.isDigit) (rest : List Char) :
    scanFrom .gap (c :: rest) = scanFrom (.number .minus {}) (c :: rest) := by
  obtain ⟨d, hd, rfl, -⟩ := Token.exists_digitChar h
  interval_cases d <;> rfl

end Json

/-- The integers of a word, signed or unsigned, are read back. -/
theorem Number.readsBack_int {i : Int} (lower : -(signedBound : Int) ≤ i)
    (upper : i < (wordBound : Int)) : (int i).ReadsBack := by
  have hvalue (n : Nat) : ofDigits 10 ((Nat.toDigits 10 n).map Json.digitValue) = n := by
    rw [Json.ofDigits_map_digitValue, Nat.ofDigitChars_ten_toDigits]
  unfold ReadsBack Json.lexemes
  cases i with
  | ofNat n =>
    have htext : (int (.ofNat n)).text.toList = Nat.toDigits 10 n := Nat.toList_repr
    have hstart : Json.scanFrom .gap (Nat.toDigits 10 n) =
        Json.scanFrom (.number .minus {}) (Nat.toDigits 10 n) := by
      have hdigits := (Token.isNumeral_toDigits n).digits
      rcases hchars : Nat.toDigits 10 n with _ | ⟨c, digits⟩
      · exact absurd hchars Nat.toDigits_ne_nil
      · rw [hchars] at hdigits
        exact Json.scanFrom_gap_digit (hdigits c List.mem_cons_self) digits
    have hlt : n < wordBound := Int.ofNat_lt.mp upper
    rw [htext, hstart, Json.scanFrom_toDigits, Numeral.toNumber?, Numeral.toInt?]
    simp [hvalue, hlt]
  | negSucc n =>
    have htext : (int (.negSucc n)).text.toList = '-' :: Nat.toDigits 10 (n + 1) := by
      show ("-" ++ Nat.repr (n + 1)).toList = _
      rw [String.toList_append, Nat.toList_repr]
      rfl
    have hle : n + 1 ≤ signedBound := by omega
    rw [htext]
    show Json.scanFrom (.number .minus { negative := true }) _ = _
    rw [Json.scanFrom_toDigits, Numeral.toNumber?, Numeral.toInt?]
    simp [hvalue, hle, Int.negSucc_eq]

/-- `0.5` is read back, but what `1e-24` is read as has a text that is read as another number. -/
example :
    (Number.float ⟨false, 1022 * Binary64.binade, by decide⟩).ReadsBack ∧
      ¬((Json.parse? "1e-24").any fun v => match v with
        | .number n => n.ReadsBack
        | _ => true) := by
  decide +kernel

namespace Json

/-! ### Spelling -/

/-- Every number in the value is read back from its text. -/
inductive ReadsBack : Json → Prop
  | null : ReadsBack .null
  | bool (b : Bool) : ReadsBack (.bool b)
  | number {n : Number} (h : n.ReadsBack) : ReadsBack (.number n)
  | string (s : String) : ReadsBack (.string s)
  | array {items : List Json} (h : ∀ v ∈ items, ReadsBack v) : ReadsBack (.array items)
  | object {members : List (String × Json)} (h : ∀ member ∈ members, ReadsBack member.2) :
      ReadsBack (.object members)

attribute [simp] ReadsBack.null ReadsBack.bool ReadsBack.string

@[simp] theorem readsBack_ofNat {n : Nat} (h : n < wordBound) : ReadsBack (.ofNat n) :=
  .number (Number.readsBack_int (by omega) (Int.ofNat_lt.mpr h))

@[simp] theorem readsBack_array_iff {items : List Json} :
    ReadsBack (.array items) ↔ ∀ v ∈ items, v.ReadsBack :=
  ⟨fun h => by cases h with | array h => exact h, .array⟩

@[simp] theorem readsBack_object_iff {members : List (String × Json)} :
    ReadsBack (.object members) ↔ ∀ member ∈ members, member.2.ReadsBack :=
  ⟨fun h => by cases h with | object h => exact h, .object⟩

mutual

/-- The lexemes of a value. -/
def spell : Json → List Lexeme
  | .null => [.null]
  | .bool b => [.bool b]
  | .number n => [.number (some n)]
  | .string s => [.string (some s)]
  | .array [] => [.openArray, .closeArray]
  | .array (v :: rest) => .openArray :: (spell v ++ (spellItems rest ++ [.closeArray]))
  | .object [] => [.openObject, .closeObject]
  | .object ((k, v) :: rest) =>
    .openObject :: .string (some k) :: .colon :: (spell v ++ (spellMembers rest ++ [.closeObject]))

/-- The lexemes of elements that follow others in an array. -/
def spellItems : List Json → List Lexeme
  | [] => []
  | v :: rest => .comma :: (spell v ++ spellItems rest)

/-- The lexemes of members that follow others in an object. -/
def spellMembers : List (String × Json) → List Lexeme
  | [] => []
  | (k, v) :: rest => .comma :: .string (some k) :: .colon :: (spell v ++ spellMembers rest)

end

theorem intercalate_cons (c : Char) (text : List Char) (texts : List (List Char)) :
    [c].intercalate (text :: texts) = text ++ texts.flatMap (c :: ·) := by
  induction texts generalizing text with
  | nil => rw [List.intercalate_singleton, List.flatMap_nil, List.append_nil]
  | cons next texts ih =>
    rw [List.intercalate_cons_cons, ih, List.flatMap_cons, List.append_assoc]
    rfl

theorem toList_compact_array (v : Json) (rest : List Json) :
    (array (v :: rest)).compact.toList = '[' :: (v.compact.toList ++
      ((rest.flatMap fun w => ',' :: w.compact.toList) ++ [']'])) := by
  have hcomma : ",".toList = [','] := rfl
  have hopen : "[".toList = ['['] := rfl
  have hclose : "]".toList = [']'] := rfl
  rw [compact_array, String.toList_append, String.toList_append, String.toList_intercalate,
    List.map_cons, List.map_cons, hcomma, hopen, hclose, intercalate_cons, List.map_map,
    List.flatMap_map, List.append_assoc, List.append_assoc, List.singleton_append]
  rfl

/-- The text of a member of an object. -/
def memberText (member : String × Json) : List Char :=
  (quote member.1).toList ++ ':' :: member.2.compact.toList

theorem toList_compact_object (member : String × Json) (rest : List (String × Json)) :
    (object (member :: rest)).compact.toList = '\x7b' :: (memberText member ++
      ((rest.flatMap fun other => ',' :: memberText other) ++ ['\x7d'])) := by
  have htext (member : String × Json) :
      (quote member.1 ++ ":" ++ member.2.compact).toList = memberText member := by
    rw [String.toList_append, String.toList_append, List.append_assoc]
    rfl
  have htexts : (rest.map fun member => quote member.1 ++ ":" ++ member.2.compact).map
      String.toList = rest.map memberText := by
    rw [List.map_map]
    exact List.map_congr_left fun member _ => htext member
  have hcomma : ",".toList = [','] := rfl
  have hopen : "\x7b".toList = ['\x7b'] := rfl
  have hclose : "\x7d".toList = ['\x7d'] := rfl
  rw [compact_object, String.toList_append, String.toList_append, String.toList_intercalate,
    List.map_cons, List.map_cons, htext, htexts, hcomma, hopen, hclose, intercalate_cons,
    List.flatMap_map, List.append_assoc, List.append_assoc, List.singleton_append]

/-- The text is scanned into the lexemes, wherever it may end. -/
def Spells (text : List Char) (lexemes : List Lexeme) : Prop :=
  ∀ rest, Ends rest → scanFrom .gap (text ++ rest) = lexemes ++ scanFrom .gap rest

theorem spells_of_scanFrom {text : List Char} {lexemes : List Lexeme}
    (h : scanFrom .gap text = lexemes) (sound : .malformed ∉ lexemes) : Spells text lexemes := by
  subst h
  exact fun rest ends => scanFrom_append ends sound

/-- A mark and what comes after it. -/
theorem spells_mark {c : Char} {lexeme : Lexeme} (h : start c = .whole lexeme) {text : List Char}
    {lexemes : List Lexeme} (spells : Spells text lexemes) :
    Spells (c :: text) (lexeme :: lexemes) := by
  intro rest ends
  rw [List.cons_append, scanFrom_gap_cons, h]
  exact congrArg _ (spells rest ends)

theorem spells_nil : Spells [] [] := fun _ _ => rfl

/-- Two texts of which the second begins with a mark. -/
theorem spells_append {text text' : List Char} {lexemes lexemes' : List Lexeme}
    (spells : Spells text lexemes) (spells' : Spells text' lexemes') (ends : Ends text') :
    Spells (text ++ text') (lexemes ++ lexemes') := by
  intro rest hrest
  have hends : Ends (text' ++ rest) := by
    cases text' with
    | nil => exact hrest
    | cons c text' => exact ends
  rw [List.append_assoc, spells _ hends, spells' _ hrest, List.append_assoc]

/-- Texts with a comma before each, up to the mark that closes them. -/
theorem spells_flatMap {α : Type} {text : α → List Char} {lexemes : α → List Lexeme} {l : List α}
    (spells : ∀ a ∈ l, Spells (text a) (lexemes a)) {c : Char} {lexeme : Lexeme} (mark : IsMark c)
    (close : start c = .whole lexeme) :
    Spells ((l.flatMap fun a => ',' :: text a) ++ [c])
        ((l.flatMap fun a => .comma :: lexemes a) ++ [lexeme]) ∧
      Ends ((l.flatMap fun a => ',' :: text a) ++ [c]) := by
  induction l with
  | nil => exact ⟨spells_mark close spells_nil, ends_cons mark []⟩
  | cons a l ih =>
    obtain ⟨ha, hl⟩ := List.forall_mem_cons.mp spells
    obtain ⟨hspells, hends⟩ := ih hl
    simp only [List.flatMap_cons, List.cons_append, List.append_assoc]
    exact ⟨spells_mark rfl (spells_append ha hspells hends), ends_cons (.inl rfl) _⟩

/-- The lexemes of a member of an object. -/
def spellMember (member : String × Json) : List Lexeme :=
  .string (some member.1) :: .colon :: member.2.spell

theorem spells_member {member : String × Json}
    (h : Spells member.2.compact.toList member.2.spell) :
    Spells (memberText member) (spellMember member) :=
  spells_append (spells_of_scanFrom (lexemes_quote member.1) (by simp)) (spells_mark rfl h)
    (ends_cons (.inr (.inl rfl)) _)

theorem spellItems_eq (items : List Json) :
    spellItems items = items.flatMap fun v => .comma :: v.spell := by
  induction items with
  | nil => rfl
  | cons v items ih => rw [spellItems, ih, List.flatMap_cons, List.cons_append]

theorem spellMembers_eq (members : List (String × Json)) :
    spellMembers members = members.flatMap fun member => .comma :: spellMember member := by
  induction members with
  | nil => rfl
  | cons member members ih =>
    rw [spellMembers, ih, List.flatMap_cons]
    rfl

/-- The compact text of a value is scanned into the lexemes of the value. -/
theorem spells_compact {v : Json} (h : v.ReadsBack) : Spells v.compact.toList v.spell := by
  induction h with
  | null => exact spells_of_scanFrom rfl (by decide)
  | bool b => cases b <;> exact spells_of_scanFrom rfl (by decide)
  | number h => exact spells_of_scanFrom h (by simp [spell])
  | string s => exact spells_of_scanFrom (lexemes_quote s) (by simp [spell])
  | @array items _ ih =>
    cases items with
    | nil => exact spells_of_scanFrom rfl (by decide)
    | cons v rest =>
      obtain ⟨hv, hrest⟩ := List.forall_mem_cons.mp ih
      obtain ⟨hspells, hends⟩ := spells_flatMap hrest (c := ']') (.inr (.inr (.inl rfl))) rfl
      rw [toList_compact_array, spell, spellItems_eq]
      exact spells_mark rfl (spells_append hv hspells hends)
  | @object members _ ih =>
    cases members with
    | nil => exact spells_of_scanFrom rfl (by decide)
    | cons member rest =>
      obtain ⟨hmember, hrest⟩ := List.forall_mem_cons.mp ih
      obtain ⟨hspells, hends⟩ :=
        spells_flatMap (fun other hother => spells_member (hrest other hother)) (c := '\x7d')
          (.inr (.inr (.inr rfl))) rfl
      rw [toList_compact_object, spell, spellMembers_eq]
      exact spells_mark rfl (spells_append (spells_member hmember) hspells hends)

theorem lexemes_compact {v : Json} (h : v.ReadsBack) : lexemes v.compact = v.spell := by
  have hall := spells_compact h [] ends_nil
  rw [List.append_nil] at hall
  exact hall.trans (List.append_nil _)

/-! ### Reading what is spelled -/

/-- The value is nested at most so deep, and the keys of every object in it are in order. -/
inductive Fits : Nat → Json → Prop
  | null (depth : Nat) : Fits depth .null
  | bool (depth : Nat) (b : Bool) : Fits depth (.bool b)
  | number (depth : Nat) (n : Number) : Fits depth (.number n)
  | string (depth : Nat) (s : String) : Fits depth (.string s)
  | array {depth : Nat} {items : List Json} (h : ∀ v ∈ items, Fits depth v) :
      Fits (depth + 1) (.array items)
  | object {depth : Nat} {members : List (String × Json)}
      (sorted : (Keyed.keys members).Pairwise (· < ·))
      (h : ∀ member ∈ members, Fits depth member.2) : Fits (depth + 1) (.object members)

attribute [simp] Fits.null Fits.bool Fits.number Fits.string

@[simp] theorem fits_ofNat (depth n : Nat) : Fits depth (.ofNat n) := .number depth (.int n)

@[simp] theorem fits_array_iff {depth : Nat} {items : List Json} :
    Fits (depth + 1) (.array items) ↔ ∀ v ∈ items, Fits depth v :=
  ⟨fun h => by cases h with | array h => exact h, .array⟩

@[simp] theorem fits_object_iff {depth : Nat} {members : List (String × Json)} :
    Fits (depth + 1) (.object members) ↔ (Keyed.keys members).Pairwise (· < ·) ∧
      ∀ member ∈ members, Fits depth member.2 :=
  ⟨fun h => by cases h with | object sorted h => exact ⟨sorted, h⟩, fun h => .object h.1 h.2⟩

theorem Fits.mono {depth depth' : Nat} {v : Json} (h : Fits depth v) (hle : depth ≤ depth') :
    Fits depth' v := by
  induction h generalizing depth' with
  | null => exact .null depth'
  | bool _ b => exact .bool depth' b
  | number _ n => exact .number depth' n
  | string _ s => exact .string depth' s
  | array _ ih =>
    obtain ⟨less, rfl⟩ := Nat.exists_eq_add_of_lt (Nat.lt_of_succ_le hle)
    exact .array fun v hv => ih v hv (Nat.le_add_right _ _)
  | object sorted _ ih =>
    obtain ⟨less, rfl⟩ := Nat.exists_eq_add_of_lt (Nat.lt_of_succ_le hle)
    exact .object sorted fun member hmember => ih member hmember (Nat.le_add_right _ _)

open Document (State Open Frame deliver toJson? toItems? toMembers?)

/-- The lexemes are those of a tree that stands for the value, and the tree goes to the innermost
container. -/
def Delivers (lexemes : List Lexeme) (depth : Nat) (v : Json) : Prop :=
  ∃ d, toJson? depth d = some v ∧ ∀ frames rest,
    (State.value frames).run (lexemes ++ rest) = (deliver d frames).run rest

/-- The first lexeme of a value begins a value, also in the place of the first element of an
array. -/
theorem exists_spell_eq_cons (v : Json) : ∃ lexeme rest, v.spell = lexeme :: rest ∧
    ∀ frames, ∃ next, State.step? (.firstItem frames) lexeme = some next ∧
      State.step? (.value (.array [] :: frames)) lexeme = some next := by
  match v with
  | .null | .bool b | .number n | .string s | .array [] | .array (_ :: _) | .object []
  | .object ((_, _) :: _) =>
    rw [spell]
    exact ⟨_, _, rfl, fun frames => ⟨_, rfl, rfl⟩⟩

/-- The first element of an array is read like any other value. -/
theorem run_firstItem (v : Json) (frames : List Frame) (rest : List Lexeme) :
    (State.firstItem frames).run (v.spell ++ rest) =
      (State.value (.array [] :: frames)).run (v.spell ++ rest) := by
  obtain ⟨lexeme, more, hspell, hstep⟩ := v.exists_spell_eq_cons
  obtain ⟨next, hfirst, hvalue⟩ := hstep frames
  rw [hspell, List.cons_append, State.run, hfirst, State.run, hvalue]
  · nofun
  · nofun

/-- Elements after the first `acc`, up to the end of the array. -/
theorem exists_items {depth : Nat} {items : List Json}
    (h : ∀ v ∈ items, Delivers v.spell depth v) : ∃ ds, toItems? depth ds = some items ∧
      ∀ acc frames rest,
        (State.separator (.array acc) frames).run (spellItems items ++ .closeArray :: rest) =
          (deliver (.array (acc.reverse ++ ds) true) frames).run rest := by
  induction items with
  | nil =>
    refine ⟨[], rfl, fun acc frames rest => ?_⟩
    rw [List.append_nil]
    rfl
  | cons v items ih =>
    obtain ⟨⟨d, hd, hrun⟩, hitems⟩ := List.forall_mem_cons.mp h
    obtain ⟨ds, hds, hruns⟩ := ih hitems
    refine ⟨d :: ds, ?_, fun acc frames rest => ?_⟩
    · rw [toItems?, hd, hds]
      rfl
    · show (State.value (.array acc :: frames)).run (v.spell ++ spellItems items ++ _) = _
      rw [List.append_assoc, hrun]
      show (State.separator (.array (d :: acc)) frames).run _ = _
      rw [hruns, List.reverse_cons, List.append_assoc]
      rfl

/-- Members after the first `acc`, up to the end of the object. -/
theorem exists_members {depth : Nat} {members : List (String × Json)}
    (h : ∀ member ∈ members, Delivers member.2.spell depth member.2) :
    ∃ ds, toMembers? depth ds = some members ∧ ∀ acc frames rest,
      (State.separator (.object acc) frames).run (spellMembers members ++ .closeObject :: rest) =
        (deliver (.object (acc.reverse ++ ds) true) frames).run rest := by
  induction members with
  | nil =>
    refine ⟨[], rfl, fun acc frames rest => ?_⟩
    rw [List.append_nil]
    rfl
  | cons member members ih =>
    obtain ⟨key, v⟩ := member
    obtain ⟨⟨d, hd, hrun⟩, hmembers⟩ := List.forall_mem_cons.mp h
    obtain ⟨ds, hds, hruns⟩ := ih hmembers
    refine ⟨(some key, d) :: ds, ?_, fun acc frames rest => ?_⟩
    · rw [toMembers?, hd, hds]
      rfl
    · show (State.value (.member acc (some key) :: frames)).run
        (v.spell ++ spellMembers members ++ _) = _
      rw [List.append_assoc, hrun]
      show (State.separator (.object ((some key, d) :: acc)) frames).run _ = _
      rw [hruns, List.reverse_cons, List.append_assoc]
      rfl

/-- What is spelled after a value is read as the value. -/
theorem delivers_spell {depth : Nat} {v : Json} (h : Fits depth v) :
    Delivers v.spell depth v := by
  induction h with
  | null | bool | number | string => exact ⟨_, rfl, fun frames rest => rfl⟩
  | @array depth items _ ih =>
    cases items with
    | nil => exact ⟨.array [] true, rfl, fun frames rest => rfl⟩
    | cons v items =>
      obtain ⟨⟨d, hd, hrun⟩, hitems⟩ := List.forall_mem_cons.mp ih
      obtain ⟨ds, hds, hruns⟩ := exists_items hitems
      refine ⟨.array (d :: ds) true, ?_, fun frames rest => ?_⟩
      · rw [toJson?, if_pos ⟨rfl, Nat.succ_pos depth⟩, toItems?, Nat.add_sub_cancel, hd, hds]
        rfl
      · rw [spell]
        show (State.firstItem frames).run (v.spell ++ (spellItems items ++ _) ++ rest) = _
        rw [List.append_assoc, run_firstItem, hrun, List.append_assoc]
        exact hruns [d] frames rest
  | @object depth members sorted _ ih =>
    cases members with
    | nil => exact ⟨.object [] true, rfl, fun frames rest => rfl⟩
    | cons member members =>
      obtain ⟨key, v⟩ := member
      obtain ⟨⟨d, hd, hrun⟩, hmembers⟩ := List.forall_mem_cons.mp ih
      obtain ⟨ds, hds, hruns⟩ := exists_members hmembers
      refine ⟨.object ((some key, d) :: ds) true, ?_, fun frames rest => ?_⟩
      · have hpairs : toMembers? depth ((some key, d) :: ds) = some ((key, v) :: members) := by
          rw [toMembers?, hd, hds]
          rfl
        rw [toJson?, if_pos ⟨rfl, Nat.succ_pos depth⟩, Nat.add_sub_cancel, hpairs, Option.map_some,
          Keyed.ofList_of_sorted sorted]
      · rw [spell]
        show (State.value (.member [] (some key) :: frames)).run
          (v.spell ++ (spellMembers members ++ _) ++ rest) = _
        rw [List.append_assoc, hrun, List.append_assoc]
        exact hruns [(some key, d)] frames rest

/-! ### What is read -/

/-- Only an array that the text closes stands for an array. -/
theorem exists_of_toJson?_eq_array {depth : Nat} {d : Document} {items : List Json}
    (h : toJson? depth d = some (.array items)) :
    ∃ ds, d = .array ds true ∧ toItems? (depth - 1) ds = some items := by
  cases d with
  | number n => cases n <;> cases h
  | string s => cases s <;> cases h
  | array ds closed =>
    rw [toJson?] at h
    split_ifs at h with hclosed
    obtain ⟨items', hitems, hvalue⟩ := Option.map_eq_some_iff.mp h
    cases hvalue
    exact ⟨ds, by rw [hclosed.1], hitems⟩
  | object ds closed =>
    rw [toJson?] at h
    split_ifs at h
    obtain ⟨_, -, hvalue⟩ := Option.map_eq_some_iff.mp h
    cases hvalue
  | _ => cases h

mutual

theorem fits_of_toJson? {depth : Nat} {v : Json} : (d : Document) →
    toJson? depth d = some v → Fits depth v
  | .null, h => by
    cases h
    exact .null depth
  | .bool b, h => by
    cases h
    exact .bool depth b
  | .number n, h => by
    rw [toJson?] at h
    obtain ⟨n, -, rfl⟩ := Option.map_eq_some_iff.mp h
    exact .number depth n
  | .string s, h => by
    rw [toJson?] at h
    obtain ⟨s, -, rfl⟩ := Option.map_eq_some_iff.mp h
    exact .string depth s
  | .array ds closed, h => by
    rw [toJson?] at h
    split_ifs at h with hdepth
    obtain ⟨items, hitems, rfl⟩ := Option.map_eq_some_iff.mp h
    rw [← Nat.sub_add_cancel hdepth.2]
    exact .array (fits_of_toItems? ds hitems)
  | .object ds closed, h => by
    rw [toJson?] at h
    split_ifs at h with hdepth
    obtain ⟨pairs, hpairs, rfl⟩ := Option.map_eq_some_iff.mp h
    rw [← Nat.sub_add_cancel hdepth.2]
    exact .object (Keyed.sorted_ofList pairs) fun member hmember =>
      fits_of_toMembers? ds hpairs member (Keyed.mem_ofList hmember)
  | .broken, h => by cases h

theorem fits_of_toItems? {depth : Nat} {items : List Json} : (ds : List Document) →
    toItems? depth ds = some items → ∀ v ∈ items, Fits depth v
  | [], h => by
    cases h
    exact fun _ hv => absurd hv List.not_mem_nil
  | d :: ds, h => by
    rw [toItems?] at h
    obtain ⟨v, hv, h⟩ := Option.bind_eq_some_iff.mp h
    obtain ⟨vs, hvs, h⟩ := Option.bind_eq_some_iff.mp h
    cases h
    exact List.forall_mem_cons.mpr ⟨fits_of_toJson? d hv, fits_of_toItems? ds hvs⟩

theorem fits_of_toMembers? {depth : Nat} {members : List (String × Json)} :
    (ds : List (Option String × Document)) →
    toMembers? depth ds = some members → ∀ member ∈ members, Fits depth member.2
  | [], h => by
    cases h
    exact fun _ hmember => absurd hmember List.not_mem_nil
  | (key, d) :: ds, h => by
    rw [toMembers?] at h
    obtain ⟨key, -, h⟩ := Option.bind_eq_some_iff.mp h
    obtain ⟨v, hv, h⟩ := Option.bind_eq_some_iff.mp h
    obtain ⟨vs, hvs, h⟩ := Option.bind_eq_some_iff.mp h
    cases h
    exact List.forall_mem_cons.mpr ⟨fits_of_toJson? d hv, fits_of_toMembers? ds hvs⟩

end

/-- The elements of an array that is read fit where the array does. -/
theorem fits_of_parseArray {text : String} {items : List Json}
    (h : parseArray text = .ok items) : ∀ v ∈ items, Fits (maxDepth - 1) v := by
  unfold parseArray at h
  dsimp only at h
  split at h
  · next ds closed _ =>
    split at h
    · next values hvalues =>
      split_ifs at h
      cases h
      exact fits_of_toItems? ds hvalues
    · cases h
  · cases h

/-! ### Printing and reading -/

/-- The compact text of a value is read as a tree that stands for the value. -/
theorem exists_read_compact {depth : Nat} {v : Json} (fits : Fits depth v) (reads : v.ReadsBack) :
    ∃ d, toJson? depth d = some v ∧ Document.read v.compact = ⟨d, false⟩ := by
  obtain ⟨d, hd, hrun⟩ := delivers_spell fits
  refine ⟨d, hd, ?_⟩
  rw [Document.read, lexemes_compact reads, ← List.append_nil v.spell, hrun]
  rfl

/-- **A value is read back from its compact text**, if it fits and its numbers are read back. -/
theorem parse?_compact {v : Json} (fits : Fits maxDepth v) (reads : v.ReadsBack) :
    parse? v.compact = some v := by
  obtain ⟨d, hd, hread⟩ := exists_read_compact fits reads
  rw [parse?, hread]
  exact hd

/-- The elements of an array are read back from its compact text. -/
theorem parseArray_compact {items : List Json} (fits : Fits maxDepth (.array items))
    (reads : ReadsBack (.array items)) : parseArray (Json.array items).compact = .ok items := by
  obtain ⟨d, hd, hread⟩ := exists_read_compact fits reads
  obtain ⟨ds, rfl, hitems⟩ := exists_of_toJson?_eq_array hd
  rw [parseArray, hread]
  dsimp only
  rw [hitems]
  rfl

end Json

end QueryGrammar
