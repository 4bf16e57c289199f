import WasmReceipt.Proofs.Decimal

/-! # Numerals

A numeral spells an integer with a sign, zeros, digits in groups and a fraction of zeros, each of
which but the digits may be missing. Single underscores keep the groups of digits apart; the zeros
in front may have any between them. In a strict numeral they may not: there zeros are digits like
others. -/

namespace WasmReceipt.Decimal

variable {t rest front body digits fraction : Text} {c : CodePoint} {n : Int}

/-! ## The parts of a numeral -/

/-- A sign or none, and whether it is a minus. -/
inductive Sign : Bool → Text → Prop
  | none : Sign false []
  | plus : Sign false [CodePoint.ofChar '+']
  | minus : Sign true [CodePoint.ofChar '-']

/-- Zeros and underscores that begin with a zero, or nothing. -/
inductive Front : Text → Prop
  | none : Front []
  | zeros {t : Text} : (∀ c ∈ t, c = CodePoint.ofChar '0' ∨ c = CodePoint.ofChar '_') →
      Front (CodePoint.ofChar '0' :: t)

/-- Digits with single underscores between them, and the digits alone. -/
inductive Grouped : Text → Text → Prop
  | last {c : CodePoint} : c.isDigit = true → Grouped [c] [c]
  | digit {c : CodePoint} {t digits : Text} : c.isDigit = true → Grouped t digits →
      Grouped (c :: t) (c :: digits)
  | underscore {c : CodePoint} {t digits : Text} : c.isDigit = true → Grouped t digits →
      Grouped (c :: CodePoint.ofChar '_' :: t) (c :: digits)

inductive Fraction : Text → Prop
  | none : Fraction []
  | zeros (n : Nat) : Fraction (CodePoint.ofChar '.' :: List.replicate (n + 1) (CodePoint.ofChar '0'))

def spelt (digits : Text) : Nat := value (digits.map (·.val - 0x30))

/-- A spelling of an integer, and the integer. The digits begin with another one than zero, and
there are no more of them than are read. -/
inductive Numeral : Text → Int → Prop
  | mk {negative : Bool} {sign front body digits fraction : Text} : Sign negative sign →
      Front front → Grouped body digits → digits.head? ≠ some (CodePoint.ofChar '0') →
      digits.length ≤ maxDigits → Fraction fraction →
      Numeral (sign ++ (front ++ (body ++ fraction))) (signed negative (spelt digits))

/-- A spelling in which zeros are digits like others. -/
inductive StrictNumeral : Text → Int → Prop
  | mk {negative : Bool} {sign body digits fraction : Text} : Sign negative sign →
      Grouped body digits → digits.length ≤ maxDigits → Fraction fraction →
      StrictNumeral (sign ++ (body ++ fraction)) (signed negative (spelt digits))

theorem Front.mem (h : Front front) :
    ∀ c ∈ front, c = CodePoint.ofChar '0' ∨ c = CodePoint.ofChar '_' := by
  cases h with
  | none => exact List.forall_mem_nil _
  | zeros hz => exact List.forall_mem_cons.mpr ⟨.inl rfl, hz⟩

/-! ## Groups of digits -/

theorem isDigit_underscore : (CodePoint.ofChar '_').isDigit = false := rfl

theorem Grouped.isDigit (h : Grouped body digits) : ∀ c ∈ digits, c.isDigit = true := by
  induction h with
  | last hc => simpa using hc
  | digit hc _ ih => exact List.forall_mem_cons.mpr ⟨hc, ih⟩
  | underscore hc _ ih => exact List.forall_mem_cons.mpr ⟨hc, ih⟩

/-- Groups begin with the first digit. -/
theorem Grouped.exists_head (h : Grouped body digits) :
    ∃ c rest others, c.isDigit = true ∧ body = c :: rest ∧ digits = c :: others := by
  cases h with
  | last hc => exact ⟨_, _, _, hc, rfl, rfl⟩
  | digit hc _ => exact ⟨_, _, _, hc, rfl, rfl⟩
  | underscore hc _ => exact ⟨_, _, _, hc, rfl, rfl⟩

theorem Grouped.mem (h : Grouped body digits) (hc : c ∈ body) :
    c.isDigit = true ∨ c = CodePoint.ofChar '_' := by
  induction h with
  | last hd =>
    rw [List.mem_singleton.mp hc]
    exact .inl hd
  | digit hd _ ih =>
    rcases List.mem_cons.mp hc with rfl | hc
    · exact .inl hd
    · exact ih hc
  | underscore hd _ ih =>
    rcases List.mem_cons.mp hc with rfl | hc
    · exact .inl hd
    rcases List.mem_cons.mp hc with rfl | hc
    · exact .inr rfl
    · exact ih hc

theorem grouped_self (hne : digits ≠ []) (hd : ∀ c ∈ digits, c.isDigit = true) :
    Grouped digits digits := by
  induction digits with
  | nil => exact absurd rfl hne
  | cons c digits ih =>
    obtain ⟨hc, hrest⟩ := List.forall_mem_cons.mp hd
    cases digits with
    | nil => exact .last hc
    | cons d digits => exact .digit hc (ih (List.cons_ne_nil d digits) hrest)

/-- A run of digits at the front of groups holds no more digits than they do. -/
theorem Grouped.length_run_le (h : Grouped body digits)
    (hrest : ∀ c, rest.head? = some c → c.isDigit = false) :
    ((body ++ rest).takeWhile (·.isDigit)).length ≤ digits.length := by
  induction h with
  | @last c hc =>
    have hnone : rest.takeWhile (·.isDigit) = [] := by
      cases rest with
      | nil => rfl
      | cons d rest => exact List.takeWhile_cons_of_neg (by simp [hrest d rfl])
    refine Nat.le_of_eq ?_
    rw [List.singleton_append, List.takeWhile_cons_of_pos hc, hnone]
  | digit hc _ ih =>
    rw [List.cons_append, List.takeWhile_cons_of_pos hc, List.length_cons, List.length_cons]
    exact Nat.succ_le_succ ih
  | underscore hc _ _ =>
    rw [List.cons_append, List.takeWhile_cons_of_pos hc, List.cons_append,
      List.takeWhile_cons_of_neg (by simp [isDigit_underscore])]
    exact Nat.succ_le_succ (Nat.zero_le _)

/-- All that numerals are made of is ASCII. -/
theorem Numeral.isScalar (h : Numeral t n) : t.isScalar = true := by
  cases h with
  | @mk negative sign front body digits fraction hsign hfront hbody hhead hshort hfraction =>
    have hsign : sign.isScalar = true := by
      cases hsign <;> rfl
    have hfront : front.isScalar = true := by
      rw [Text.isScalar_iff]
      intro c hc
      rcases hfront.mem c hc with rfl | rfl <;> rfl
    have hbody : body.isScalar = true := by
      rw [Text.isScalar_iff]
      intro c hc
      rcases hbody.mem hc with hd | rfl
      · exact CodePoint.isSurrogate_of_isDigit hd
      · rfl
    have hfraction : fraction.isScalar = true := by
      cases hfraction with
      | none => rfl
      | zeros k =>
        rw [Text.isScalar_iff]
        intro c hc
        rcases List.mem_cons.mp hc with rfl | hc
        · rfl
        · rw [List.eq_of_mem_replicate hc]
          rfl
    rw [Text.isScalar_append, Text.isScalar_append, Text.isScalar_append, hsign, hfront, hbody,
      hfraction]
    rfl

/-! ## Strict numerals -/

/-- Zeros in front of groups of digits can be taken for what they are, if there is anything else. -/
theorem Grouped.exists_front (h : Grouped body digits) (hpos : 1 ≤ spelt digits) :
    ∃ front rest others, Front front ∧ Grouped rest others ∧ body = front ++ rest ∧
      others.head? ≠ some (CodePoint.ofChar '0') ∧ others.length ≤ digits.length ∧
      spelt others = spelt digits := by
  induction h with
  | @last c hc =>
    have hne : c ≠ CodePoint.ofChar '0' := by
      rintro rfl
      exact absurd hpos (by decide)
    exact ⟨[], _, _, .none, .last hc, rfl, by simpa using hne, Nat.le_refl _, rfl⟩
  | @digit c t digits hc h ih =>
    by_cases hzero : c = CodePoint.ofChar '0'
    · subst hzero
      obtain ⟨front, rest, others, hfront, hrest, rfl, hhead, hlength, hsame⟩ := ih hpos
      refine ⟨_, rest, others, .zeros (t := front) ?_, hrest, rfl, hhead, Nat.le_succ_of_le hlength,
        hsame⟩
      exact hfront.mem
    · exact ⟨[], _, _, .none, .digit hc h, rfl, by simpa using hzero, Nat.le_refl _, rfl⟩
  | @underscore c t digits hc h ih =>
    by_cases hzero : c = CodePoint.ofChar '0'
    · subst hzero
      obtain ⟨front, rest, others, hfront, hrest, rfl, hhead, hlength, hsame⟩ := ih hpos
      refine ⟨_, rest, others, .zeros (t := CodePoint.ofChar '_' :: front) ?_, hrest, rfl, hhead,
        Nat.le_succ_of_le hlength, hsame⟩
      exact List.forall_mem_cons.mpr ⟨.inr rfl, hfront.mem⟩
    · exact ⟨[], _, _, .none, .underscore hc h, rfl, by simpa using hzero, Nat.le_refl _, rfl⟩

/-- **A strict numeral is a numeral.** -/
theorem StrictNumeral.numeral (h : StrictNumeral t n) (hn : 1 ≤ n) : Numeral t n := by
  cases h with
  | @mk negative sign body digits fraction hsign hbody hshort hfraction =>
    cases negative with
    | true =>
      simp only [signed, if_true] at hn
      omega
    | false =>
      have hpos : 1 ≤ spelt digits := Int.ofNat_le.mp hn
      obtain ⟨front, rest, others, hfront, hrest, rfl, hhead, hlength, hsame⟩ :=
        hbody.exists_front hpos
      rw [← hsame, List.append_assoc]
      exact .mk hsign hfront hrest hhead (Nat.le_trans hlength hshort) hfraction

/-- The decimal text of a number is a strict numeral. -/
theorem strictNumeral_ofNat {n : Nat} (h : (ofNat n).length ≤ maxDigits) :
    StrictNumeral (ofNat n) n := by
  have hgrouped := grouped_self (ofNat_ne_nil n) fun c hc => isDigit_of_mem_ofNat hc
  have hspelt : spelt (ofNat n) = n := value_ofNat n
  have hnumeral := StrictNumeral.mk .none hgrouped h .none
  rw [hspelt, List.nil_append, List.append_nil] at hnumeral
  exact hnumeral

/-- Behind one character, a strict numeral does not go on with two underscores. -/
theorem not_strictNumeral_adjacent :
    ¬ StrictNumeral (c :: CodePoint.ofChar '_' :: CodePoint.ofChar '_' :: rest) n := by
  intro h
  generalize ht : c :: CodePoint.ofChar '_' :: CodePoint.ofChar '_' :: rest = t at h
  -- groups do not begin with an underscore, so neither of the two can be in front of them
  have hnone {body digits behind more : Text} (hbody : Grouped body digits) :
      CodePoint.ofChar '_' :: more ≠ body ++ behind := by
    intro heq
    obtain ⟨d, others, _, hd, rfl, -⟩ := hbody.exists_head
    rw [← (List.cons.inj heq).1] at hd
    cases hd
  cases h with
  | mk hsign hbody hshort hfraction =>
    cases hsign with
    | plus => exact hnone hbody (List.cons.inj ht).2
    | minus => exact hnone hbody (List.cons.inj ht).2
    | none =>
      cases hbody with
      | last _ =>
        cases hfraction with
        | none => cases ht
        | zeros k => exact absurd (List.cons.inj (List.cons.inj ht).2).1 (by decide)
      | digit _ hbody => exact hnone hbody (List.cons.inj ht).2
      | underscore _ hbody => exact hnone hbody (List.cons.inj (List.cons.inj ht).2).2

end WasmReceipt.Decimal
