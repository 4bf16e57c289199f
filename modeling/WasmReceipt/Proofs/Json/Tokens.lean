import WasmReceipt.Proofs.Decimal
import WasmReceipt.Proofs.Json.StringText

/-! # The tokens of written values

Marks and strings end by themselves. A word or a number ends where white space or a mark follows, or
the document does, and that is all that ever follows one in a document that is written. -/

namespace WasmReceipt.Json

/-- Nothing, or white space or a mark at the front: what may follow a word or a number. -/
def EndsScalar (rest : Text) : Prop :=
  ∀ c others, rest = c :: others → c.isJsonBlank = true ∨ (mark? c).isSome = true

variable {rest : Text}

theorem endsScalar_nil : EndsScalar [] := by
  rintro c others ⟨⟩

theorem endsScalar_blank {c : CodePoint} (h : c.isJsonBlank = true) : EndsScalar (c :: rest) := by
  rintro d others ⟨⟩
  exact .inl h

theorem endsScalar_mark {c : CodePoint} (h : (mark? c).isSome = true) : EndsScalar (c :: rest) := by
  rintro d others ⟨⟩
  exact .inr h

theorem endsScalar_blanks {before : Text} (h : ∀ c ∈ before, c.isJsonBlank = true)
    (hr : EndsScalar rest) : EndsScalar (before ++ rest) := by
  cases before with
  | nil => exact hr
  | cons c before => exact endsScalar_blank (h c List.mem_cons_self)

theorem val_of_mark {c : CodePoint} (h : (mark? c).isSome = true) :
    c.val ∈ [0x5B, 0x5D, 0x7B, 0x7D, 0x3A, 0x2C] := by
  unfold mark? at h
  simp only [CodePoint.is, beq_iff_eq] at h
  simp only [List.mem_cons, List.not_mem_nil, or_false]
  repeat' split at h
  all_goals simp_all

theorem val_of_isJsonBlank {c : CodePoint} (h : c.isJsonBlank = true) :
    c.val ∈ [0x20, 0x09, 0x0A, 0x0D] := by
  simpa [CodePoint.isJsonBlank, or_assoc] using h

theorem not_isJsonBlank_of_mark {c : CodePoint} (h : (mark? c).isSome = true) :
    c.isJsonBlank = false := by
  have hc := val_of_mark h
  simp only [List.mem_cons, List.not_mem_nil, or_false] at hc
  rcases hc with hc | hc | hc | hc | hc | hc <;> simp [CodePoint.isJsonBlank, hc]

/-- Nothing that continues a number follows. -/
theorem EndsScalar.ends {c : CodePoint} (h : EndsScalar (c :: rest)) :
    c.isDigit = false ∧ c.is '.' = false ∧ c.is 'e' = false ∧ c.is 'E' = false := by
  have hc : c.val ∈ [0x20, 0x09, 0x0A, 0x0D, 0x5B, 0x5D, 0x7B, 0x7D, 0x3A, 0x2C] := by
    rcases h c rest rfl with h | h
    · exact List.mem_append_left [0x5B, 0x5D, 0x7B, 0x7D, 0x3A, 0x2C] (val_of_isJsonBlank h)
    · exact List.mem_append_right [0x20, 0x09, 0x0A, 0x0D] (val_of_mark h)
  simp only [List.mem_cons, List.not_mem_nil, or_false] at hc
  rcases hc with hc | hc | hc | hc | hc | hc | hc | hc | hc | hc <;>
    simp [CodePoint.isDigit, CodePoint.is, hc]

/-! ## Numbers -/

/-- Digits, with no zero in front of another one. -/
structure IsWhole (digits : Text) : Prop where
  ne_nil : digits ≠ []
  isDigit : ∀ c ∈ digits, c.isDigit = true
  leading : ∀ c others, digits = c :: others → c.is '0' = true → others = []

theorem isWhole_ofNat (n : Nat) : IsWhole (Decimal.ofNat n) :=
  ⟨Decimal.ofNat_ne_nil n, fun _ => Decimal.isDigit_of_mem_ofNat,
    fun _ _ h hc => (Decimal.head_ofNat h hc).2⟩

def EndsDigits (rest : Text) : Prop := ∀ c others, rest = c :: others → c.isDigit = false

theorem endsDigits_cons {c : CodePoint} (h : c.isDigit = false) : EndsDigits (c :: rest) := by
  rintro d others ⟨⟩
  exact h

theorem EndsScalar.endsDigits (h : EndsScalar rest) : EndsDigits rest := by
  rintro c others rfl
  exact h.ends.1

theorem takeWhile_digits {digits : Text} (hd : ∀ c ∈ digits, c.isDigit = true)
    (hr : EndsDigits rest) : (digits ++ rest).takeWhile CodePoint.isDigit = digits := by
  rw [List.takeWhile_append_of_pos hd]
  cases rest with
  | nil => simp
  | cons c rest => rw [List.takeWhile_cons_of_neg (by simp [hr c rest rfl]), List.append_nil]

theorem dropWhile_digits {digits : Text} (hd : ∀ c ∈ digits, c.isDigit = true)
    (hr : EndsDigits rest) : (digits ++ rest).dropWhile CodePoint.isDigit = rest := by
  rw [List.dropWhile_append_of_pos hd]
  cases rest with
  | nil => rfl
  | cons c rest => rw [List.dropWhile_cons_of_neg (by simp [hr c rest rfl])]

theorem takeWhole_append {digits : Text} (hd : IsWhole digits) (hr : EndsDigits rest) :
    takeWhole (digits ++ rest) = (digits, rest) := by
  have htake := takeWhile_digits hd.isDigit hr
  have hdrop := dropWhile_digits hd.isDigit hr
  cases digits with
  | nil => exact absurd rfl hd.ne_nil
  | cons c digits =>
    rw [List.cons_append] at htake hdrop ⊢
    rw [takeWhole]
    split
    · rename_i hzero
      rw [hd.leading c digits rfl hzero]
      rfl
    · rw [htake, hdrop]

theorem takeFraction_of_ends (hr : EndsScalar rest) : takeFraction rest = ([], rest) := by
  cases rest with
  | nil => rfl
  | cons c rest =>
    obtain ⟨-, hpoint, -⟩ := hr.ends
    simp [takeFraction, hpoint]

theorem takeExponent_of_ends (hr : EndsScalar rest) : takeExponent rest = (none, rest) := by
  cases rest with
  | nil => rfl
  | cons c rest =>
    obtain ⟨-, -, hsmall, hbig⟩ := hr.ends
    simp [takeExponent, hsmall, hbig]

/-- Digits that are not too many are an integer. -/
theorem readNumber_digits (negative : Bool) {digits : Text} (hd : IsWhole digits)
    (hl : digits.length ≤ Decimal.maxDigits) (hr : EndsScalar rest) :
    readNumber negative (digits ++ rest) =
      some (.value (.int (Decimal.signed negative (digitsValue digits))), rest) := by
  have hne : digits.isEmpty = false := by simpa using hd.ne_nil
  simp only [readNumber, takeWhole_append hd hr.endsDigits, takeFraction_of_ends hr,
    takeExponent_of_ends hr, hne, Bool.false_eq_true, if_false, numberToken, List.isEmpty_nil,
    Option.isNone_none, Bool.and_self, if_true, if_neg (Nat.not_lt.mpr hl)]

/-! ## Words and numbers -/

theorem ofChar_beq_of_isDigit {c : CodePoint} {k : Char} (hc : c.isDigit = true)
    (hk : k.isDigit = false) : (CodePoint.ofChar k == c) = false :=
  beq_eq_false_iff_ne.mpr (CodePoint.ne_ofChar_of_isDigit hc hk).symm

theorem is_of_isDigit {c : CodePoint} {k : Char} (hc : c.isDigit = true)
    (hk : k.isDigit = false) : c.is k = false := by
  rw [← Bool.not_eq_true, CodePoint.is_iff]
  exact CodePoint.ne_ofChar_of_isDigit hc hk

theorem readWord_digit {c : CodePoint} (h : c.isDigit = true) : readWord (c :: rest) = none := by
  have hne (k : Char) (hk : k.isDigit = false) := ofChar_beq_of_isDigit h hk
  simp [readWord, words, Text.ofString, List.isPrefixOf, hne 'n', hne 't', hne 'f', hne 'N',
    hne 'I', hne '-']

theorem readWord_minus {c : CodePoint} (h : c.isDigit = true) :
    readWord (CodePoint.ofChar '-' :: c :: rest) = none := by
  have hne := ofChar_beq_of_isDigit h (by decide : 'I'.isDigit = false)
  simp [readWord, words, Text.ofString, List.isPrefixOf, hne]

theorem IsWhole.exists_cons {digits : Text} (hd : IsWhole digits) :
    ∃ c others, digits = c :: others ∧ c.isDigit = true := by
  obtain ⟨c, others, rfl⟩ := List.exists_cons_of_ne_nil hd.ne_nil
  exact ⟨c, others, rfl, hd.isDigit c List.mem_cons_self⟩

def minusText (negative : Bool) : Text := if negative then "-" else []

/-- What is read as a number behind its sign is no word. -/
theorem readScalar_of_readNumber {negative : Bool} {whole t : Text} {found : Token × Text}
    (hw : IsWhole whole) (h : readNumber negative (whole ++ t) = some found) :
    readScalar (minusText negative ++ (whole ++ t)) = some found := by
  obtain ⟨c, others, rfl, hc⟩ := hw.exists_cons
  rw [List.cons_append] at h ⊢
  cases negative with
  | false =>
    have htext : minusText false ++ c :: (others ++ t) = c :: (others ++ t) := rfl
    have hminus := is_of_isDigit hc (by decide : '-'.isDigit = false)
    simp only [htext, readScalar, readWord_digit hc, hminus, Bool.false_eq_true, if_false]
    exact h
  | true =>
    have htext : minusText true ++ c :: (others ++ t) =
      CodePoint.ofChar '-' :: c :: (others ++ t) := rfl
    have hminus : (CodePoint.ofChar '-').is '-' = true := by decide
    simp only [htext, readScalar, readWord_minus hc, hminus, if_true]
    exact h

/-! ## Tokens -/

theorem readTokens_append (done : List Token) (s : Text) :
    readTokens done s = done.reverse ++ tokens s := by
  -- strong induction: a token may take any number of code points
  induction hn : s.length using Nat.strongRecOn generalizing done s with
  | ind n ih =>
    subst hn
    cases s with
    | nil => simp [tokens, readTokens]
    | cons c rest =>
      rw [tokens, readTokens, readTokens]
      split
      · rw [ih rest.length (by simp) done rest rfl]
        rfl
      · have hlt := readToken_length c rest
        rw [ih _ hlt _ _ rfl, ih _ hlt _ _ rfl]
        simp

theorem tokens_nil : tokens [] = [] := by
  rw [tokens, readTokens]
  rfl

theorem tokens_blank {c : CodePoint} (h : c.isJsonBlank = true) :
    tokens (c :: rest) = tokens rest := by
  rw [tokens, readTokens, if_pos h]
  rfl

/-- White space between tokens, however much of it. -/
theorem tokens_blanks {before : Text} (h : ∀ c ∈ before, c.isJsonBlank = true) :
    tokens (before ++ rest) = tokens rest := by
  induction before with
  | nil => rfl
  | cons c before ih =>
    rw [List.cons_append, tokens_blank (h c List.mem_cons_self),
      ih fun d hd => h d (List.mem_cons_of_mem c hd)]

theorem tokens_cons {c : CodePoint} {after : Text} {token : Token} (hb : c.isJsonBlank = false)
    (h : readToken c rest = (token, after)) : tokens (c :: rest) = token :: tokens after := by
  rw [tokens, readTokens, if_neg (by simp [hb]), h, readTokens_append]
  rfl

theorem tokens_mark {c : CodePoint} {token : Token} (h : mark? c = some token) :
    tokens (c :: rest) = token :: tokens rest := by
  refine tokens_cons (not_isJsonBlank_of_mark (by rw [h]; rfl)) ?_
  simp only [readToken, h]

theorem tokens_openArray : tokens ("[" ++ rest) = .openArray :: tokens rest := tokens_mark rfl

theorem tokens_closeArray : tokens ("]" ++ rest) = .closeArray :: tokens rest := tokens_mark rfl

theorem tokens_openObject : tokens ("\x7b" ++ rest) = .openObject :: tokens rest := tokens_mark rfl

theorem tokens_closeObject : tokens ("\x7d" ++ rest) = .closeObject :: tokens rest :=
  tokens_mark rfl

theorem tokens_comma : tokens ("," ++ rest) = .comma :: tokens rest := tokens_mark rfl

theorem tokens_colon : tokens (":" ++ rest) = .colon :: tokens rest := tokens_mark rfl

theorem tokens_string {s : Text} {ps : List Piece} (h : SpellsString s ps) :
    tokens (CodePoint.ofChar '"' :: (s ++ CodePoint.ofChar '"' :: rest)) =
      .string (Piece.meaning ps) :: tokens rest := by
  refine tokens_cons (by decide) ?_
  have hquote : (CodePoint.ofChar '"').is '"' = true := by decide
  have hmark : mark? (CodePoint.ofChar '"') = none := by decide
  simp only [readToken, hmark, hquote, if_true, readString_of_spells h]
  rfl

theorem tokens_stringText (ascii : Bool) (t : Text) :
    tokens (stringText ascii t ++ rest) = .string (reread ascii t) :: tokens rest := by
  have htext : stringText ascii t ++ rest =
      CodePoint.ofChar '"' :: (t.flatMap (stringChar ascii) ++ CodePoint.ofChar '"' :: rest) := by
    simp [stringText, Text.ofString]
  rw [htext, tokens_string (flatMap_stringChar_spells ascii t), meaning_flatMap_piecesOf]

/-- A word or a number is a token of its own. -/
theorem tokens_scalar {c : CodePoint} {s : Text} {v : Json} (hb : c.isJsonBlank = false)
    (hm : mark? c = none) (hq : c.is '"' = false)
    (h : readScalar (c :: s) = some (.value v, rest)) :
    tokens (c :: s) = .value v :: tokens rest := by
  refine tokens_cons hb ?_
  simp only [readToken, hm, hq, Bool.false_eq_true, if_false, h]

theorem tokens_null : tokens ("null" ++ rest) = .value .null :: tokens rest :=
  tokens_scalar (by decide) (by decide) (by decide) rfl

theorem tokens_true : tokens ("true" ++ rest) = .value (.bool true) :: tokens rest :=
  tokens_scalar (by decide) (by decide) (by decide) rfl

theorem tokens_false : tokens ("false" ++ rest) = .value (.bool false) :: tokens rest :=
  tokens_scalar (by decide) (by decide) (by decide) rfl

/-- What a number begins with begins neither white space nor a mark nor a string. -/
theorem begins_scalar_of_isDigit {c : CodePoint} (h : c.isDigit = true) :
    c.isJsonBlank = false ∧ mark? c = none ∧ c.is '"' = false := by
  have hval := h
  simp only [CodePoint.isDigit, Bool.and_eq_true, decide_eq_true_eq] at hval
  refine ⟨?_, ?_, is_of_isDigit h (by decide)⟩
  · cases hb : c.isJsonBlank with
    | false => rfl
    | true =>
      have hc := val_of_isJsonBlank hb
      simp only [List.mem_cons, List.not_mem_nil, or_false] at hc
      omega
  · cases hm : mark? c with
    | none => rfl
    | some token =>
      have hc := val_of_mark (by rw [hm]; rfl : (mark? c).isSome = true)
      simp only [List.mem_cons, List.not_mem_nil, or_false] at hc
      omega

theorem tokens_of_readNumber {negative : Bool} {whole t : Text} {v : Json} (hw : IsWhole whole)
    (h : readNumber negative (whole ++ t) = some (.value v, rest)) :
    tokens (minusText negative ++ (whole ++ t)) = .value v :: tokens rest := by
  have hread := readScalar_of_readNumber hw h
  obtain ⟨c, others, rfl, hc⟩ := hw.exists_cons
  cases negative with
  | false =>
    obtain ⟨hb, hm, hq⟩ := begins_scalar_of_isDigit hc
    exact tokens_scalar hb hm hq hread
  | true => exact tokens_scalar (by decide) (by decide) (by decide) hread

/-- The text of an integer is one token, of that integer. -/
theorem tokens_ofInt {n : Int} (hn : Decimal.digitCount n ≤ Decimal.maxDigits)
    (hr : EndsScalar rest) :
    tokens (Decimal.ofInt n ++ rest) = .value (.int n) :: tokens rest := by
  have hnumber (negative : Bool) (n : Nat) (hl : (Decimal.ofNat n).length ≤ Decimal.maxDigits) :
      tokens (minusText negative ++ (Decimal.ofNat n ++ rest)) =
        .value (.int (Decimal.signed negative n)) :: tokens rest := by
    have hread := readNumber_digits negative (isWhole_ofNat n) hl hr
    rw [digitsValue, Decimal.value_ofNat] at hread
    exact tokens_of_readNumber (isWhole_ofNat n) hread
  cases n with
  | ofNat n => exact hnumber false n (Nat.le_trans (Nat.le_of_eq (Decimal.length_ofNat n)) hn)
  | negSucc n =>
    exact hnumber true (n + 1) (Nat.le_trans (Nat.le_of_eq (Decimal.length_ofNat (n + 1))) hn)

end WasmReceipt.Json
