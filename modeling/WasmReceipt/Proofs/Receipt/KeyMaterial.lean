import WasmReceipt.Proofs.Text
import WasmReceipt.Receipt.Attestation

/-! # Spellings of key material

`Spells` is the grammar of hexadecimal spellings. The reader accepts exactly this grammar, so no
text spells two byte strings. Key material adds a length, and then there are three outcomes. -/

namespace WasmReceipt

namespace CodePoint

theorem hexValue?_of_isAsciiBlank {c : CodePoint} (h : c.isAsciiBlank = true) :
    c.hexValue? = none := by
  simp only [isAsciiBlank, Bool.or_eq_true, beq_iff_eq, Bool.and_eq_true, decide_eq_true_eq] at h
  unfold hexValue?
  rw [if_neg (by omega), if_neg (by omega), if_neg (by omega)]

theorem isBlank_of_isAsciiBlank {c : CodePoint} (h : c.isAsciiBlank = true) : c.isBlank = true := by
  simp [isBlank, isWhiteSpace, h]

theorem isBlank_of_hexValue? {c : CodePoint} {n : Nat} (h : c.hexValue? = some n) :
    c.isBlank = false := by
  have hc : 0x30 ≤ c.val ∧ c.val ≤ 0x66 := by
    unfold hexValue? at h
    split at h
    · omega
    · split at h
      · omega
      · split at h
        · omega
        · cases h
  cases hb : c.isBlank with
  | false => rfl
  | true =>
    simp only [isBlank, isWhiteSpace, isAsciiBlank, Bool.or_eq_true, Bool.and_eq_true, beq_iff_eq,
      decide_eq_true_eq] at hb
    omega

end CodePoint

namespace Bytes

/-! ## The grammar -/

/-- Two hexadecimal digits, in either case, that stand for a byte. -/
def IsPair (high low : CodePoint) (b : UInt8) : Prop :=
  high.hexValue? = some (b.toNat / 16) ∧ low.hexValue? = some (b.toNat % 16)

/-- A text spells bytes: two adjacent digits for each, and any ASCII white space around them. -/
inductive Spells : Text → Bytes → Prop
  | nil : Spells [] []
  | blank {c : CodePoint} {t : Text} {bytes : Bytes} :
      c.isAsciiBlank = true → Spells t bytes → Spells (c :: t) bytes
  | pair {c d : CodePoint} {b : UInt8} {t : Text} {bytes : Bytes} :
      IsPair c d b → Spells t bytes → Spells (c :: d :: t) (b :: bytes)

theorem isPair_ofNat {c d : CodePoint} {m n : Nat} (hc : c.hexValue? = some m)
    (hd : d.hexValue? = some n) : IsPair c d (UInt8.ofNat (16 * m + n)) := by
  have hm := CodePoint.hexValue?_lt hc
  have hn := CodePoint.hexValue?_lt hd
  have hb : (UInt8.ofNat (16 * m + n)).toNat = 16 * m + n :=
    UInt8.toNat_ofNat_of_lt' (by simp only [UInt8.size]; omega)
  refine ⟨?_, ?_⟩
  · rw [hc, hb]
    congr 1
    omega
  · rw [hd, hb]
    congr 1
    omega

theorem IsPair.ofNat_eq {c d : CodePoint} {b : UInt8} {m n : Nat} (h : IsPair c d b)
    (hc : c.hexValue? = some m) (hd : d.hexValue? = some n) : UInt8.ofNat (16 * m + n) = b := by
  obtain ⟨hm, hn⟩ := h
  rw [hc] at hm
  rw [hd] at hn
  cases hm
  cases hn
  rw [Nat.div_add_mod, UInt8.ofNat_toNat]

/-! ## The reader -/

theorem readHex_of_spells {t : Text} {bytes : Bytes} (h : Spells t bytes) :
    ∀ done, readHex done t = some (done.reverse ++ bytes) := by
  induction h with
  | nil => simp [readHex]
  | @blank c t bytes hc h ih =>
    intro done
    cases t with
    | nil =>
      cases h
      simp [readHex, hc]
    | cons d t =>
      rw [readHex, if_pos hc]
      exact ih done
  | @pair c d b t bytes hp h ih =>
    intro done
    have hc : c.isAsciiBlank = false := by
      cases hb : c.isAsciiBlank with
      | false => rfl
      | true =>
        have hv := hp.1
        rw [CodePoint.hexValue?_of_isAsciiBlank hb] at hv
        cases hv
    rw [readHex, if_neg (by simp [hc])]
    simp only [hp.1, hp.2]
    rw [hp.ofNat_eq hp.1 hp.2, ih]
    simp

theorem spells_of_readHex {done : Bytes} {t : Text} {bytes : Bytes}
    (h : readHex done t = some bytes) : ∃ rest, bytes = done.reverse ++ rest ∧ Spells t rest := by
  fun_induction readHex done t with
  | case1 done =>
    cases h
    exact ⟨[], by simp, .nil⟩
  | case2 done c hc =>
    cases h
    exact ⟨[], by simp, .blank hc .nil⟩
  | case3 => cases h
  | case4 done c d rest hc ih =>
    obtain ⟨more, hb, hs⟩ := ih h
    exact ⟨more, hb, .blank hc hs⟩
  | case5 done c d rest hc high low hl hh ih =>
    obtain ⟨more, hb, hs⟩ := ih h
    exact ⟨_ :: more, by simp [hb], .pair (isPair_ofNat hh hl) hs⟩
  | case6 => cases h

/-- **The reader accepts the grammar and nothing else.** -/
theorem ofHex?_eq_some_iff {t : Text} {bytes : Bytes} :
    ofHex? t = some bytes ↔ Spells t bytes := by
  constructor
  · intro h
    obtain ⟨rest, hb, hs⟩ := spells_of_readHex h
    simpa [hb] using hs
  · intro h
    rw [ofHex?, readHex_of_spells h]
    simp

theorem ofHex?_eq_none_iff {t : Text} : ofHex? t = none ↔ ∀ bytes, ¬ Spells t bytes := by
  rw [Option.eq_none_iff_forall_ne_some]
  simp only [ne_eq, ofHex?_eq_some_iff]

/-- No text spells two byte strings. -/
theorem Spells.unique {t : Text} {a b : Bytes} (ha : Spells t a) (hb : Spells t b) : a = b :=
  Option.some.inj ((ofHex?_eq_some_iff.mpr ha).symm.trans (ofHex?_eq_some_iff.mpr hb))

/-! ## White space around a spelling -/

theorem Spells.dropWhile {t : Text} {bytes : Bytes} (h : Spells t bytes) :
    Spells (t.dropWhile CodePoint.isBlank) bytes := by
  induction h with
  | nil => exact .nil
  | blank hc h ih =>
    rwa [List.dropWhile_cons_of_pos (CodePoint.isBlank_of_isAsciiBlank hc)]
  | pair hp h ih =>
    have hblank := CodePoint.isBlank_of_hexValue? hp.1
    rw [List.dropWhile_cons_of_neg (by simp [hblank])]
    exact .pair hp h

theorem Spells.dropWhileEnd {t : Text} {bytes : Bytes} (h : Spells t bytes) :
    Spells (t.reverse.dropWhile CodePoint.isBlank).reverse bytes := by
  induction h with
  | nil => exact .nil
  | @blank c t bytes hc h ih =>
    rw [Text.dropWhileEnd_cons]
    split
    · rename_i ht
      rw [ht] at ih
      rwa [if_pos (CodePoint.isBlank_of_isAsciiBlank hc)]
    · exact .blank hc ih
  | @pair c d b t bytes hp h ih =>
    have hc := CodePoint.isBlank_of_hexValue? hp.1
    have hd := CodePoint.isBlank_of_hexValue? hp.2
    rw [Text.dropWhileEnd_cons, Text.dropWhileEnd_cons]
    cases ht : (t.reverse.dropWhile CodePoint.isBlank).reverse with
    | nil =>
      rw [ht] at ih
      simp only [hd, if_pos, Bool.false_eq_true, if_false, List.cons_ne_nil]
      exact .pair hp ih
    | cons e others =>
      rw [ht] at ih
      simp only [List.cons_ne_nil, if_false]
      exact .pair hp ih

/-- White space of any script around a spelling changes nothing once it is stripped. -/
theorem Spells.strip {before t after : Text} {bytes : Bytes} (h : Spells t bytes)
    (hb : ∀ c ∈ before, c.isBlank = true) (ha : ∀ c ∈ after, c.isBlank = true) :
    Spells ((before ++ t ++ after).strip CodePoint.isBlank) bytes := by
  rw [Text.strip_surrounded t hb ha]
  exact h.dropWhile.dropWhileEnd

/-! ## The writer -/

theorem spells_toHex (bytes : Bytes) : Spells (toHex bytes) bytes := by
  induction bytes with
  | nil => exact .nil
  | cons b rest ih =>
    have hb := b.toNat_lt
    have hhigh := CodePoint.hexValue?_hexDigit (n := b.toNat / 16) (by omega)
    have hlow := CodePoint.hexValue?_hexDigit (n := b.toNat % 16) (by omega)
    exact .pair ⟨hhigh, hlow⟩ ih

theorem isScalar_toHex (bytes : Bytes) : (toHex bytes).isScalar = true := by
  rw [Text.isScalar_iff]
  intro c hc
  obtain ⟨b, -, hc⟩ := List.mem_flatMap.mp hc
  have hb := b.toNat_lt
  simp only [hexPair, List.mem_cons, List.not_mem_nil, or_false] at hc
  rcases hc with rfl | rfl
  · exact CodePoint.isSurrogate_hexDigit (by omega)
  · exact CodePoint.isSurrogate_hexDigit (by omega)

end Bytes

/-! ## Key material -/

/-- What the reading of key material comes to: bytes of the right length, bytes of another length,
or no bytes at all. -/
inductive Decodes (t : Text) (length : Nat) (what : Text) : Except Failure Bytes → Prop
  | notHex : (∀ bytes, ¬ Bytes.Spells t bytes) → Decodes t length what (.error (.notHex what))
  | wrongLength {bytes : Bytes} : Bytes.Spells t bytes → bytes.length ≠ length →
      Decodes t length what (.error (.wrongLength what length bytes.length))
  | bytes {bytes : Bytes} : Bytes.Spells t bytes → bytes.length = length →
      Decodes t length what (.ok bytes)

theorem Decodes.eq {t : Text} {length : Nat} {what : Text} {outcome : Except Failure Bytes}
    (h : Decodes t length what outcome) : keyMaterial t length what = outcome := by
  unfold keyMaterial
  cases h with
  | notHex hn => rw [Bytes.ofHex?_eq_none_iff.mpr hn]
  | wrongLength hs hl => simp [Bytes.ofHex?_eq_some_iff.mpr hs, hl]
  | bytes hs hl => simp [Bytes.ofHex?_eq_some_iff.mpr hs, hl]

theorem exists_decodes (t : Text) (length : Nat) (what : Text) :
    ∃ outcome, Decodes t length what outcome := by
  by_cases hn : ∀ bytes, ¬ Bytes.Spells t bytes
  · exact ⟨_, .notHex hn⟩
  · obtain ⟨bytes, hs⟩ := Classical.not_forall_not.mp hn
    by_cases hl : bytes.length = length
    · exact ⟨_, .bytes hs hl⟩
    · exact ⟨_, .wrongLength hs hl⟩

/-- Faults of key material are faults of form. -/
theorem Decodes.kind {t : Text} {length : Nat} {what : Text} {failure : Failure}
    (h : Decodes t length what (.error failure)) : failure.kind = .format := by
  cases h <;> rfl

end WasmReceipt
