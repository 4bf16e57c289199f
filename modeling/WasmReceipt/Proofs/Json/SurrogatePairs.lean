import WasmReceipt.Proofs.Json.StringText

/-! # Adjacent surrogate pairs

A text whose surrogates are written as units comes back unchanged exactly when no high surrogate in
it stands right in front of a low one. Joining the pairs leaves none behind, so a second time
nothing changes. -/

namespace WasmReceipt

namespace CodePoint

/-- The code point of a pair is astral. -/
theorem le_val_joinSurrogates {high low : CodePoint} (hh : high.isHighSurrogate = true)
    (hl : low.isLowSurrogate = true) : 0x10000 ≤ (joinSurrogates high low).val := by
  simp only [isHighSurrogate, isLowSurrogate, Bool.and_eq_true, decide_eq_true_eq] at hh hl
  rw [joinSurrogates, val_ofNat (by omega)]
  omega

theorem isHighSurrogate_of_le {c : CodePoint} (h : 0x10000 ≤ c.val) :
    c.isHighSurrogate = false := by
  simp only [isHighSurrogate, Bool.and_eq_false_iff, decide_eq_false_iff_not]
  omega

theorem isLowSurrogate_of_le {c : CodePoint} (h : 0x10000 ≤ c.val) : c.isLowSurrogate = false := by
  simp only [isLowSurrogate, Bool.and_eq_false_iff, decide_eq_false_iff_not]
  omega

end CodePoint

namespace Text

/-- Somewhere a high surrogate stands right in front of a low one. -/
def HoldsPair (t : Text) : Prop :=
  ∃ before high low after, t = before ++ high :: low :: after ∧
    high.isHighSurrogate = true ∧ low.isLowSurrogate = true

theorem length_of_no_two {t : Text} (h : ∀ c d rest, t = c :: d :: rest → False) :
    t.length < 2 := by
  match t with
  | [] => decide
  | [c] => simp
  | c :: d :: rest => exact (h c d rest rfl).elim

theorem paired_of_length {t : Text} (h : t.length < 2) : t.paired = t := by
  rw [paired]
  rintro c d rest rfl
  simp only [List.length_cons] at h
  omega

theorem not_holdsPair_of_length {t : Text} (h : t.length < 2) : ¬ t.HoldsPair := by
  rintro ⟨before, high, low, after, rfl, -⟩
  simp only [List.length_append, List.length_cons] at h
  omega

theorem holdsPair_cons_cons {c d : CodePoint} {t : Text} :
    HoldsPair (c :: d :: t) ↔
      (c.isHighSurrogate = true ∧ d.isLowSurrogate = true) ∨ HoldsPair (d :: t) := by
  constructor
  · rintro ⟨before, high, low, after, ht, hh, hl⟩
    cases before with
    | nil =>
      cases ht
      exact .inl ⟨hh, hl⟩
    | cons b before =>
      obtain ⟨-, ht⟩ := List.cons.inj ht
      exact .inr ⟨before, high, low, after, ht, hh, hl⟩
  · rintro (⟨hc, hd⟩ | ⟨before, high, low, after, ht, hh, hl⟩)
    · exact ⟨[], c, d, t, rfl, hc, hd⟩
    · exact ⟨c :: before, high, low, after, by rw [ht]; rfl, hh, hl⟩

/-- A code point that begins no pair makes none. -/
theorem not_holdsPair_cons {c : CodePoint} {t : Text} (hc : c.isHighSurrogate = false)
    (h : ¬ t.HoldsPair) : ¬ HoldsPair (c :: t) := by
  cases t with
  | nil => exact not_holdsPair_of_length (by simp)
  | cons d t =>
    rw [holdsPair_cons_cons, hc]
    rintro (⟨hc, -⟩ | hd)
    · cases hc
    · exact h hd

/-- A text whose surrogate pairs are joined is shorter for each of them. -/
theorem length_paired_le (t : Text) : t.paired.length ≤ t.length := by
  induction t using paired.induct with
  | case1 high low rest hpair ih =>
    rw [paired, if_pos hpair]
    simp only [List.length_cons]
    omega
  | case2 high low rest hpair ih =>
    rw [paired, if_neg hpair]
    simpa using ih
  | case3 t ht => exact Nat.le_of_eq (congrArg List.length (paired_of_length (length_of_no_two ht)))

/-- **What joining leaves alone**: exactly the texts without an adjacent pair. -/
theorem paired_eq_self_iff {t : Text} : t.paired = t ↔ ¬ t.HoldsPair := by
  induction t using paired.induct with
  | case1 high low rest hpair ih =>
    have hboth := hpair
    rw [Bool.and_eq_true] at hboth
    constructor
    · intro h
      have hlength := congrArg List.length h
      have hle := length_paired_le rest
      rw [paired, if_pos hpair] at hlength
      simp only [List.length_cons] at hlength
      omega
    · intro h
      exact absurd (holdsPair_cons_cons.mpr (.inl hboth)) h
  | case2 high low rest hpair ih =>
    have hlone : ¬ (high.isHighSurrogate = true ∧ low.isLowSurrogate = true) := by
      rwa [Bool.and_eq_true] at hpair
    rw [paired, if_neg hpair, holdsPair_cons_cons, List.cons.injEq, ih]
    simp only [true_and, hlone, false_or]
  | case3 t ht =>
    have hlength := length_of_no_two ht
    exact ⟨fun _ => not_holdsPair_of_length hlength, fun _ => paired_of_length hlength⟩

/-- The first code point stays, or an astral one takes its place. -/
theorem paired_cons (c : CodePoint) (t : Text) :
    ∃ d u, paired (c :: t) = d :: u ∧ (d = c ∨ 0x10000 ≤ d.val) := by
  cases t with
  | nil => exact ⟨c, [], by simp [paired], .inl rfl⟩
  | cons e t =>
    by_cases hpair : (c.isHighSurrogate && e.isLowSurrogate) = true
    · have hboth := hpair
      rw [Bool.and_eq_true] at hboth
      rw [paired, if_pos hpair]
      exact ⟨_, _, rfl, .inr (CodePoint.le_val_joinSurrogates hboth.1 hboth.2)⟩
    · rw [paired, if_neg hpair]
      exact ⟨_, _, rfl, .inl rfl⟩

theorem not_holdsPair_paired (t : Text) : ¬ t.paired.HoldsPair := by
  induction t using paired.induct with
  | case1 high low rest hpair ih =>
    have hboth := hpair
    rw [Bool.and_eq_true] at hboth
    rw [paired, if_pos hpair]
    exact not_holdsPair_cons
      (CodePoint.isHighSurrogate_of_le (CodePoint.le_val_joinSurrogates hboth.1 hboth.2)) ih
  | case2 high low rest hpair ih =>
    rw [paired, if_neg hpair]
    obtain ⟨d, u, hd, hcase⟩ := paired_cons low rest
    rw [hd] at ih ⊢
    rw [holdsPair_cons_cons]
    rintro (⟨hhigh, hlow⟩ | h)
    · rcases hcase with rfl | hastral
      · exact hpair (by rw [hhigh, hlow]; rfl)
      · rw [CodePoint.isLowSurrogate_of_le hastral] at hlow
        cases hlow
    · exact ih h
  | case3 t ht =>
    have hlength := length_of_no_two ht
    rw [paired_of_length hlength]
    exact not_holdsPair_of_length hlength

theorem paired_paired (t : Text) : t.paired.paired = t.paired :=
  paired_eq_self_iff.mpr (not_holdsPair_paired t)

/-- What begins no pair stays. -/
theorem paired_cons_of_not_high {c : CodePoint} (hc : c.isHighSurrogate = false) (t : Text) :
    paired (c :: t) = c :: t.paired := by
  cases t with
  | nil => exact (paired_of_length (by simp)).trans (by rw [paired_of_length (by simp)])
  | cons d t => rw [paired, hc, Bool.false_and, if_neg Bool.false_ne_true]

theorem paired_append {s : Text} (hs : ∀ c ∈ s, c.isHighSurrogate = false) (t : Text) :
    paired (s ++ t) = s ++ t.paired := by
  induction s with
  | nil => rfl
  | cons c s ih =>
    rw [List.forall_mem_cons] at hs
    rw [List.cons_append, paired_cons_of_not_high hs.1, ih hs.2, List.cons_append]

theorem paired_ne_nil {t : Text} (h : t ≠ []) : t.paired ≠ [] := by
  obtain ⟨c, t, rfl⟩ := List.exists_cons_of_ne_nil h
  obtain ⟨d, u, hd, -⟩ := paired_cons c t
  rw [hd]
  exact List.cons_ne_nil d u

end Text

/-! ## How pairs are written -/

namespace Json

/-- What is beyond printable ASCII is written in one unit or two. -/
theorem stringChar_of_le {c : CodePoint} (h : 0x7F ≤ c.val) :
    stringChar true c =
      if c.val < 0x10000 then unitEscape c.val
      else unitEscape (0xD800 + (c.val - 0x10000) / 0x400) ++
        unitEscape (0xDC00 + (c.val - 0x10000) % 0x400) := by
  have hne {k : Char} (hk : k.toNat < 0x7F) : ¬ c.is k = true := by
    intro hc
    rw [CodePoint.is_iff.mp hc, CodePoint.val_ofChar] at h
    omega
  have hraw : ¬ (!true || decide (c.val < 0x7F)) = true := by simpa using h
  rw [stringChar, if_neg (hne (by decide)), if_neg (hne (by decide)), if_neg (by omega),
    if_neg (by omega), if_neg (by omega), if_neg (by omega), if_neg (by omega), if_neg (by omega),
    if_neg hraw]

theorem stringChar_joinSurrogates {high low : CodePoint} (hh : high.isHighSurrogate = true)
    (hl : low.isLowSurrogate = true) :
    stringChar true (CodePoint.joinSurrogates high low) =
      stringChar true high ++ stringChar true low := by
  simp only [CodePoint.isHighSurrogate, CodePoint.isLowSurrogate, Bool.and_eq_true,
    decide_eq_true_eq] at hh hl
  have hval : (CodePoint.joinSurrogates high low).val =
      0x10000 + (high.val - 0xD800) * 0x400 + (low.val - 0xDC00) := by
    rw [CodePoint.joinSurrogates, CodePoint.val_ofNat (by omega)]
  have hfirst : 0xD800 + ((CodePoint.joinSurrogates high low).val - 0x10000) / 0x400 =
      high.val := by
    omega
  have hsecond : 0xDC00 + ((CodePoint.joinSurrogates high low).val - 0x10000) % 0x400 =
      low.val := by
    omega
  rw [stringChar_of_le (by omega), if_neg (by omega), hfirst, hsecond,
    stringChar_of_le (c := high) (by omega), if_pos (by omega),
    stringChar_of_le (c := low) (by omega), if_pos (by omega)]

/-- **In printable ASCII, a text is written as it is with its pairs joined.** -/
theorem stringText_paired (t : Text) : stringText true t.paired = stringText true t := by
  have hchars : t.paired.flatMap (stringChar true) = t.flatMap (stringChar true) := by
    induction t using Text.paired.induct with
    | case1 high low rest hpair ih =>
      have hboth := hpair
      rw [Bool.and_eq_true] at hboth
      rw [Text.paired, if_pos hpair, List.flatMap_cons, ih,
        stringChar_joinSurrogates hboth.1 hboth.2, List.append_assoc, List.flatMap_cons,
        List.flatMap_cons]
    | case2 high low rest hpair ih =>
      rw [Text.paired, if_neg hpair, List.flatMap_cons, ih, ← List.flatMap_cons]
    | case3 t ht => rw [Text.paired_of_length (Text.length_of_no_two ht)]
  rw [stringText, hchars, stringText]

end Json

end WasmReceipt
