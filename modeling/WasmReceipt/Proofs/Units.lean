import WasmReceipt.Proofs.Text
import WasmReceipt.Text.Units

/-! # Decoding code units

A text without surrogates is read back from its units, in either byte order. In UTF-16 a code point
beyond the first plane takes two units, and the second is joined to the first as it is read. -/

namespace WasmReceipt.Units

variable {order : ByteOrder} {c : CodePoint} {n : Nat} {done : Text} {rest : Bytes}

/-! ## UTF-16 -/

theorem exists_unit16 (order : ByteOrder) (h : n < 0x10000) :
    ∃ a b, unit16 order n = [a, b] ∧ value16 order a b = n := by
  have hlow : (UInt8.ofNat n).toNat = n % 0x100 := UInt8.toNat_ofNat'
  have hhigh : (UInt8.ofNat (n / 0x100)).toNat = n / 0x100 :=
    UInt8.toNat_ofNat_of_lt' (by simp only [UInt8.size]; omega)
  cases order with
  | little =>
    refine ⟨_, _, rfl, ?_⟩
    rw [value16, hlow, hhigh]
    omega
  | big =>
    refine ⟨_, _, rfl, ?_⟩
    rw [value16, hlow, hhigh]
    omega

theorem read16_unit16 (h : n < 0x10000) :
    read16 order done (unit16 order n ++ rest) =
      read16 order (push16 done (CodePoint.ofNat n)) rest := by
  obtain ⟨a, b, hunit, hvalue⟩ := exists_unit16 order h
  rw [hunit]
  change read16 order done (a :: b :: rest) = _
  rw [read16, hvalue]

/-- An ASCII character is a byte, and a zero beside it. -/
theorem encodeChar16_of_ascii (order : ByteOrder) (h : c.val < 0x80) :
    encodeChar16 order c =
      match order with
      | .little => [UInt8.ofNat c.val, 0]
      | .big => [0, UInt8.ofNat c.val] := by
  have hhigh : c.val / 0x100 = 0 := Nat.div_eq_of_lt (by omega)
  rw [encodeChar16, if_pos (by omega)]
  cases order with
  | little =>
    rw [unit16, hhigh]
    rfl
  | big =>
    rw [unit16, hhigh]
    rfl

/-- Only a low surrogate joins what stands before it. -/
theorem push16_of_not_low (h : c.isLowSurrogate = false) : push16 done c = c :: done := by
  cases done with
  | nil => rfl
  | cons d done => simp [push16, h]

theorem push16_pair {high low : CodePoint} (hh : high.isHighSurrogate = true)
    (hl : low.isLowSurrogate = true) :
    push16 (high :: done) low = CodePoint.joinSurrogates high low :: done := by
  simp [push16, hh, hl]

/-- **The units of a code point are read as that code point**, unless it is a surrogate. -/
theorem read16_encodeChar16 (h : c.isSurrogate = false) :
    read16 order done (encodeChar16 order c ++ rest) = read16 order (c :: done) rest := by
  have hc := c.val_lt
  unfold encodeChar16
  by_cases hunit : c.val < 0x10000
  · have hlow : c.isLowSurrogate = false := by
      cases hl : c.isLowSurrogate with
      | false => rfl
      | true =>
        rw [CodePoint.isSurrogate_of_isLowSurrogate hl] at h
        cases h
    rw [if_pos hunit, read16_unit16 hunit, CodePoint.ofNat_val, push16_of_not_low hlow]
  · have hhigh := CodePoint.val_ofNat (n := 0xD800 + (c.val - 0x10000) / 0x400) (by omega)
    have hlow := CodePoint.val_ofNat (n := 0xDC00 + (c.val - 0x10000) % 0x400) (by omega)
    have hfirst : push16 done (CodePoint.ofNat (0xD800 + (c.val - 0x10000) / 0x400)) =
        CodePoint.ofNat (0xD800 + (c.val - 0x10000) / 0x400) :: done := by
      refine push16_of_not_low ?_
      simp only [CodePoint.isLowSurrogate, hhigh, Bool.and_eq_false_iff, decide_eq_false_iff_not]
      omega
    rw [if_neg hunit, List.append_assoc, read16_unit16 (by omega), read16_unit16 (by omega),
      hfirst, push16_pair, CodePoint.joinSurrogates_split (by omega)]
    · simp only [CodePoint.isHighSurrogate, hhigh, Bool.and_eq_true, decide_eq_true_eq]
      omega
    · simp only [CodePoint.isLowSurrogate, hlow, Bool.and_eq_true, decide_eq_true_eq]
      omega

theorem read16_encode16 {t : Text} (h : t.isScalar = true) (done : Text) :
    read16 order done (encode16 order t) = .ok (done.reverse ++ t) := by
  induction t generalizing done with
  | nil =>
    rw [List.append_nil]
    rfl
  | cons c t ih =>
    rw [Text.isScalar_cons, Bool.and_eq_true] at h
    have hread : read16 order done (encode16 order (c :: t)) =
        read16 order (c :: done) (encode16 order t) :=
      read16_encodeChar16 (by simpa using h.1)
    rw [hread, ih h.2 (c :: done), List.reverse_cons, List.append_assoc]
    rfl

theorem decode16_encode16 {t : Text} (h : t.isScalar = true) :
    decode16 order (encode16 order t) = .ok t :=
  read16_encode16 h []

/-! ## UTF-32 -/

theorem exists_unit32 (order : ByteOrder) (c : CodePoint) :
    ∃ a b x y, encodeChar32 order c = [a, b, x, y] ∧ value32 order a b x y = c.val := by
  have hc := c.val_lt
  have hbyte (i : Nat) : (UInt8.ofNat (c.val >>> (8 * i))).toNat = c.val / 2 ^ (8 * i) % 0x100 := by
    rw [UInt8.toNat_ofNat', Nat.shiftRight_eq_div_pow]
  cases order with
  | little =>
    refine ⟨_, _, _, _, rfl, ?_⟩
    simp only [value32, hbyte]
    omega
  | big =>
    refine ⟨_, _, _, _, rfl, ?_⟩
    simp only [value32, hbyte]
    omega

/-- An ASCII character is a byte, and three zeros beside it. -/
theorem encodeChar32_of_ascii (order : ByteOrder) (h : c.val < 0x80) :
    encodeChar32 order c =
      match order with
      | .little => [UInt8.ofNat c.val, 0, 0, 0]
      | .big => [0, 0, 0, UInt8.ofNat c.val] := by
  have hzero {k : Nat} (hk : 8 ≤ k) : c.val >>> k = 0 := by
    rw [Nat.shiftRight_eq_div_pow]
    have hpow : 2 ^ 8 ≤ 2 ^ k := Nat.pow_le_pow_right (by decide) hk
    exact Nat.div_eq_of_lt (by omega)
  have h8 := hzero (k := 8) (by decide)
  have h16 := hzero (k := 16) (by decide)
  have h24 := hzero (k := 24) (by decide)
  cases order with
  | little =>
    change [UInt8.ofNat c.val, UInt8.ofNat (c.val >>> 8), UInt8.ofNat (c.val >>> 16),
      UInt8.ofNat (c.val >>> 24)] = _
    rw [h8, h16, h24]
    rfl
  | big =>
    change [UInt8.ofNat (c.val >>> 24), UInt8.ofNat (c.val >>> 16), UInt8.ofNat (c.val >>> 8),
      UInt8.ofNat c.val] = _
    rw [h8, h16, h24]
    rfl

/-- **The unit of a code point is read as that code point**, surrogates included. -/
theorem read32_encodeChar32 :
    read32 order done (encodeChar32 order c ++ rest) = read32 order (c :: done) rest := by
  obtain ⟨a, b, x, y, hunit, hvalue⟩ := exists_unit32 order c
  have hlt : value32 order a b x y < 0x110000 := hvalue ▸ c.val_lt
  rw [hunit]
  change read32 order done (a :: b :: x :: y :: rest) = _
  rw [read32, dif_pos hlt]
  exact congrArg (fun d => read32 order (d :: done) rest) (CodePoint.val_injective hvalue)

theorem read32_encode32 (t : Text) (done : Text) :
    read32 order done (encode32 order t) = .ok (done.reverse ++ t) := by
  induction t generalizing done with
  | nil =>
    rw [List.append_nil]
    rfl
  | cons c t ih =>
    have hread : read32 order done (encode32 order (c :: t)) =
        read32 order (c :: done) (encode32 order t) :=
      read32_encodeChar32
    rw [hread, ih (c :: done), List.reverse_cons, List.append_assoc]
    rfl

theorem decode32_encode32 (t : Text) : decode32 order (encode32 order t) = .ok t :=
  read32_encode32 t []

end WasmReceipt.Units
