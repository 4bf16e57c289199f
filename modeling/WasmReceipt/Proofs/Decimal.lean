import WasmReceipt.Decimal
import WasmReceipt.Proofs.Text

/-! # Decimal texts of integers

What the writer of integers promises to whoever reads its text: digits and at most a minus in front,
no zero before another digit, and the number itself as the value of the digits. One text stands for
one integer. -/

namespace WasmReceipt

namespace Decimal

/-! ## Natural numbers -/

theorem isDigit_of_mem_ofNat {n : Nat} {c : CodePoint} (h : c ∈ ofNat n) : c.isDigit = true := by
  obtain ⟨d, hd, rfl⟩ := List.mem_map.mp h
  exact CodePoint.isDigit_ofChar_iff.mpr (Nat.isDigit_of_mem_toDigits (by decide) (by decide) hd)

theorem ofNat_ne_nil (n : Nat) : ofNat n ≠ [] := by
  simp [ofNat, Nat.toDigits_ne_nil]

@[simp] theorem length_ofNat (n : Nat) : (ofNat n).length = (Nat.toDigits 10 n).length := by
  simp [ofNat]

/-- The digits spell the number they were written for. -/
theorem value_ofNat (n : Nat) : value ((ofNat n).map (·.val - 0x30)) = n := by
  have hn : Nat.ofDigitChars 10 (Nat.toDigits 10 n) 0 = n := Nat.ofDigitChars_ten_toDigits
  rw [Nat.ofDigitChars_eq_foldl] at hn
  simpa [value, ofNat, List.foldl_map, CodePoint.ofChar] using hn

theorem ofNat_injective {m n : Nat} (h : ofNat m = ofNat n) : m = n := by
  rw [← value_ofNat m, h, value_ofNat n]

/-- Only zero is written with a zero in front. -/
theorem head_ofNat {n : Nat} {c : CodePoint} {rest : Text} (h : ofNat n = c :: rest)
    (hc : c.is '0' = true) : n = 0 ∧ rest = [] := by
  -- strong induction: the digits of a number from ten on begin like those of its tenth
  induction n using Nat.strongRecOn generalizing rest with
  | ind n ih =>
    by_cases hn : n < 10
    · rw [ofNat, Nat.toDigits_of_lt_base hn] at h
      obtain ⟨hd, hr⟩ := List.cons.inj h
      have hz : n.digitChar = '0' := CodePoint.ofChar_injective (hd.trans (CodePoint.is_iff.mp hc))
      exact ⟨Nat.digitChar_eq_zero.mp hz, hr.symm⟩
    · have hdigits : ofNat n = ofNat (n / 10) ++ [CodePoint.ofChar (n % 10).digitChar] := by
        simp [ofNat, Nat.toDigits_of_base_le (by decide : 1 < 10) (by omega : 10 ≤ n)]
      rw [hdigits] at h
      cases ht : ofNat (n / 10) with
      | nil => exact absurd ht (ofNat_ne_nil _)
      | cons d others =>
        rw [ht] at h
        obtain ⟨rfl, -⟩ := List.cons.inj h
        have := (ih (n / 10) (by omega) ht).1
        omega

/-! ## The length of a number -/

theorem digitCount_le_iff {i : Int} {k : Nat} (hk : 0 < k) :
    digitCount i ≤ k ↔ i.natAbs < Nat.pow 10 k :=
  Nat.length_toDigits_le_iff (by decide) hk

/-- A number of 64 bits can be written. -/
theorem digitCount_le {i : Int} (h : i.natAbs < UInt64.size) : digitCount i ≤ maxDigits := by
  have hcount : digitCount i ≤ 20 :=
    (digitCount_le_iff (by decide)).mpr (Nat.lt_trans h (by decide))
  exact Nat.le_trans hcount (by decide)

theorem not_isWritable_pow {n : Nat} (h : maxDigits ≤ n) : isWritable (Nat.pow 10 n) = false := by
  have hn : 0 < n := Nat.lt_of_lt_of_le (by decide) h
  have hcount : ¬ digitCount (Nat.pow 10 n) ≤ n := by
    rw [digitCount_le_iff hn]
    exact Nat.lt_irrefl _
  exact decide_eq_false fun hle => hcount (Nat.le_trans hle h)

/-! ## Integers -/

theorem mem_ofInt {i : Int} {c : CodePoint} (h : c ∈ ofInt i) :
    c.isDigit = true ∨ c = CodePoint.ofChar '-' := by
  cases i with
  | ofNat n => exact .inl (isDigit_of_mem_ofNat h)
  | negSucc n =>
    rcases List.mem_cons.mp h with rfl | h
    · exact .inr rfl
    · exact .inl (isDigit_of_mem_ofNat h)

theorem ofNat_ne_minus {m n : Nat} : ofNat m ≠ "-" ++ ofNat n := by
  intro h
  have hm : CodePoint.ofChar '-' ∈ ofNat m := by
    rw [h]
    exact List.mem_cons_self
  exact absurd (isDigit_of_mem_ofNat hm) (by decide)

theorem ofInt_ne_nil (i : Int) : ofInt i ≠ [] := by
  cases i with
  | ofNat n => exact ofNat_ne_nil n
  | negSucc n => exact List.cons_ne_nil _ _

theorem isScalar_ofInt (i : Int) : (ofInt i).isScalar = true := by
  rw [Text.isScalar_iff]
  intro c hc
  rcases mem_ofInt hc with hd | rfl
  · exact CodePoint.isSurrogate_of_isDigit hd
  · rfl

/-- **One text stands for one integer.** -/
theorem ofInt_injective {i j : Int} (h : ofInt i = ofInt j) : i = j := by
  cases i with
  | ofNat m =>
    cases j with
    | ofNat n => rw [ofNat_injective h]
    | negSucc n => exact absurd h ofNat_ne_minus
  | negSucc m =>
    cases j with
    | ofNat n => exact absurd h.symm ofNat_ne_minus
    | negSucc n =>
      have := ofNat_injective (List.append_cancel_left h)
      rw [Nat.succ.inj this]

end Decimal

end WasmReceipt
