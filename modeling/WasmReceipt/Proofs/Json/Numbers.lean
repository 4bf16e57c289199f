import WasmReceipt.Proofs.Json.Tokens

/-! # The spellings of numbers

A number has a minus or none, digits with no zero in front of another one, and perhaps a fraction
and an exponent. Without these two it is an integer, and zero is spelled with or without a minus.
Every spelling is one token, except that of an integer with too many digits. -/

namespace WasmReceipt.Json

structure IsDigits (digits : Text) : Prop where
  ne_nil : digits ≠ []
  isDigit : ∀ c ∈ digits, c.isDigit = true

inductive SpellsFraction : Text → Text → Prop
  | none : SpellsFraction [] []
  | some {digits : Text} : IsDigits digits → SpellsFraction ("." ++ digits) digits

/-- A power of ten spells whether it is negative, and its digits. -/
inductive SpellsPower : Text → Bool × Text → Prop
  | bare {digits : Text} : IsDigits digits → SpellsPower digits (false, digits)
  | plus {digits : Text} : IsDigits digits → SpellsPower ("+" ++ digits) (false, digits)
  | minus {digits : Text} : IsDigits digits → SpellsPower ("-" ++ digits) (true, digits)

/-- An exponent spells the power of ten behind its letter. -/
inductive SpellsExponent : Text → Option (Bool × Text) → Prop
  | none : SpellsExponent [] none
  | small {t : Text} {power : Bool × Text} :
      SpellsPower t power → SpellsExponent ("e" ++ t) (some power)
  | capital {t : Text} {power : Bool × Text} :
      SpellsPower t power → SpellsExponent ("E" ++ t) (some power)

/-- The power of ten that an exponent stands for. -/
def powerOf : Option (Bool × Text) → Int
  | none => 0
  | some (negative, digits) => Decimal.signed negative (digitsValue digits)

def doubleOf (negative : Bool) (whole fraction : Text) (exponent : Option (Bool × Text)) :
    Binary64 :=
  Binary64.ofDecimal negative (digitsValue (whole ++ fraction))
    (powerOf exponent - fraction.length)

inductive SpellsNumber : Text → Json → Prop
  | integer {negative : Bool} {digits : Text} :
      IsWhole digits → digits.length ≤ Decimal.maxDigits →
      SpellsNumber (minusText negative ++ digits)
        (.int (Decimal.signed negative (digitsValue digits)))
  | double {negative : Bool} {whole f fraction x : Text} {exponent : Option (Bool × Text)} :
      IsWhole whole → SpellsFraction f fraction → SpellsExponent x exponent →
      ¬ (f = [] ∧ x = []) →
      SpellsNumber (minusText negative ++ (whole ++ (f ++ x)))
        (.float (doubleOf negative whole fraction exponent))

variable {f fraction x digits rest : Text} {exponent : Option (Bool × Text)} {negative : Bool}

/-! ## Where digits end -/

theorem SpellsExponent.endsDigits (hx : SpellsExponent x exponent) (hr : EndsScalar rest) :
    EndsDigits (x ++ rest) := by
  cases hx with
  | none => exact hr.endsDigits
  | small => exact endsDigits_cons (by decide)
  | capital => exact endsDigits_cons (by decide)

theorem SpellsFraction.endsDigits (hf : SpellsFraction f fraction) (hr : EndsDigits rest) :
    EndsDigits (f ++ rest) := by
  cases hf with
  | none => exact hr
  | some => exact endsDigits_cons (by decide)

/-! ## Reading the parts -/

theorem takeFraction_of_spells (hf : SpellsFraction f fraction) (hx : SpellsExponent x exponent)
    (hr : EndsScalar rest) : takeFraction (f ++ (x ++ rest)) = (fraction, x ++ rest) := by
  cases hf with
  | none =>
    cases hx with
    | none => exact takeFraction_of_ends hr
    | small => rfl
    | capital => rfl
  | some hd =>
    have hpoint : (CodePoint.ofChar '.').is '.' = true := by decide
    have hne : fraction.isEmpty = false := by simpa using hd.ne_nil
    have htext : "." ++ fraction ++ (x ++ rest) =
        CodePoint.ofChar '.' :: (fraction ++ (x ++ rest)) := rfl
    simp only [htext, takeFraction, takeWhile_digits hd.isDigit (hx.endsDigits hr),
      dropWhile_digits hd.isDigit (hx.endsDigits hr), hpoint, hne, Bool.not_false, Bool.and_self,
      if_true]

theorem SpellsPower.takeSign {t : Text} {power : Bool × Text} (h : SpellsPower t power) :
    Decimal.takeSign (t ++ rest) = (power.1, power.2 ++ rest) := by
  cases h with
  | plus => rfl
  | minus => rfl
  | @bare digits hd =>
    obtain ⟨c, others, rfl⟩ := List.exists_cons_of_ne_nil hd.ne_nil
    have hc := hd.isDigit c List.mem_cons_self
    simp [Decimal.takeSign, is_of_isDigit hc (by decide : '-'.isDigit = false),
      is_of_isDigit hc (by decide : '+'.isDigit = false)]

theorem SpellsPower.isDigits {t : Text} {power : Bool × Text} (h : SpellsPower t power) :
    IsDigits power.2 := by
  cases h <;> assumption

theorem takeExponent_of_power {e : CodePoint} {t : Text} {power : Bool × Text}
    (he : (e.is 'e' || e.is 'E') = true) (h : SpellsPower t power) (hr : EndsScalar rest) :
    takeExponent (e :: (t ++ rest)) = (some power, rest) := by
  have hne : power.2.isEmpty = false := by simpa using h.isDigits.ne_nil
  simp only [takeExponent, h.takeSign, takeWhile_digits h.isDigits.isDigit hr.endsDigits,
    dropWhile_digits h.isDigits.isDigit hr.endsDigits, he, hne, Bool.not_false, Bool.and_self,
    if_true]

theorem takeExponent_of_spells (hx : SpellsExponent x exponent) (hr : EndsScalar rest) :
    takeExponent (x ++ rest) = (exponent, rest) := by
  cases hx with
  | none => exact takeExponent_of_ends hr
  | small h => exact takeExponent_of_power (by decide) h hr
  | capital h => exact takeExponent_of_power (by decide) h hr

/-! ## Whole numbers and doubles -/

/-- A number with a fraction or an exponent is a double. -/
theorem numberToken_double (hf : SpellsFraction f fraction) (hx : SpellsExponent x exponent)
    (h : ¬ (f = [] ∧ x = [])) (whole : Text) :
    numberToken negative whole fraction exponent =
      .value (.float (doubleOf negative whole fraction exponent)) := by
  have hparts : (fraction.isEmpty && exponent.isNone) = false := by
    cases hf with
    | some hd =>
      have hne : fraction.isEmpty = false := by simpa using hd.ne_nil
      rw [hne, Bool.false_and]
    | none =>
      cases hx with
      | none => exact absurd ⟨rfl, rfl⟩ h
      | small => rfl
      | capital => rfl
  unfold numberToken
  rw [if_neg (by simp [hparts])]
  cases exponent <;> rfl

theorem readNumber_double {whole : Text} (hw : IsWhole whole) (hf : SpellsFraction f fraction)
    (hx : SpellsExponent x exponent) (h : ¬ (f = [] ∧ x = [])) (hr : EndsScalar rest) :
    readNumber negative (whole ++ (f ++ (x ++ rest))) =
      some (.value (.float (doubleOf negative whole fraction exponent)), rest) := by
  have hne : whole.isEmpty = false := by simpa using hw.ne_nil
  simp only [readNumber, takeWhole_append hw (hf.endsDigits (hx.endsDigits hr)),
    takeFraction_of_spells hf hx hr, takeExponent_of_spells hx hr, hne, Bool.false_eq_true,
    if_false, numberToken_double hf hx h]

/-- **A number is one token**, the value that it spells. -/
theorem tokens_of_spellsNumber {t : Text} {v : Json} (h : SpellsNumber t v)
    (hr : EndsScalar rest) : tokens (t ++ rest) = .value v :: tokens rest := by
  cases h with
  | integer hd hl =>
    rw [List.append_assoc]
    exact tokens_of_readNumber hd (readNumber_digits _ hd hl hr)
  | double hw hf hx h =>
    simp only [List.append_assoc]
    exact tokens_of_readNumber hw (readNumber_double hw hf hx h hr)

end WasmReceipt.Json
