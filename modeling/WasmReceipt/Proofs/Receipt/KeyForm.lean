import Mathlib.Data.List.Forall2
import WasmReceipt.Proofs.Receipt.KeyMaterial

/-! # The form of key material

The spelling of bytes, written out: white space of ASCII, and for each byte its two digits, in
either case and with nothing between them, and white space behind them. -/

namespace WasmReceipt

/-! ## Digits and white space -/

namespace CodePoint

def smallDigits : Text := "0123456789abcdef"

def capitalDigits : Text := "0123456789ABCDEF"

/-- A hexadecimal digit with a value, in either case. -/
def IsHexDigit (c : CodePoint) (n : Nat) : Prop :=
  smallDigits[n]? = some c ∨ capitalDigits[n]? = some c

def asciiBlanks : Text := " \t\n\x0b\x0c\r"

variable {c : CodePoint} {n : Nat}

theorem isHexDigit_of_hexValue? (h : c.hexValue? = some n) : IsHexDigit c n := by
  have hdecimal : ∀ k < 10, smallDigits[k]? = some (ofNat (0x30 + k)) := by decide
  have hcapital : ∀ k < 6, capitalDigits[k + 10]? = some (ofNat (0x41 + k)) := by decide
  have hsmall : ∀ k < 6, smallDigits[k + 10]? = some (ofNat (0x61 + k)) := by decide
  unfold hexValue? at h
  split at h
  · rename_i hc
    cases h
    refine .inl ?_
    rw [hdecimal (c.val - 0x30) (by omega), Nat.add_sub_cancel' hc.1, ofNat_val]
  split at h
  · rename_i hc
    cases h
    refine .inr ?_
    rw [hcapital (c.val - 0x41) (by omega), Nat.add_sub_cancel' hc.1, ofNat_val]
  split at h
  · rename_i hc
    cases h
    refine .inl ?_
    rw [hsmall (c.val - 0x61) (by omega), Nat.add_sub_cancel' hc.1, ofNat_val]
  · cases h

theorem isHexDigit_iff : IsHexDigit c n ↔ c.hexValue? = some n := by
  have hsmall : ∀ k < 16, ∀ d ∈ smallDigits[k]?, d.hexValue? = some k := by decide
  have hcapital : ∀ k < 16, ∀ d ∈ capitalDigits[k]?, d.hexValue? = some k := by decide
  constructor
  · rintro (h | h)
    · exact hsmall n (List.getElem?_eq_some_iff.mp h).1 c h
    · exact hcapital n (List.getElem?_eq_some_iff.mp h).1 c h
  · exact isHexDigit_of_hexValue?

theorem isAsciiBlank_iff : c.isAsciiBlank = true ↔ c ∈ asciiBlanks := by
  have hall : ∀ d ∈ asciiBlanks, d.isAsciiBlank = true := by decide
  have hrange : ∀ k < 5, ofNat (0x09 + k) ∈ asciiBlanks := by decide
  constructor
  · intro h
    simp only [isAsciiBlank, Bool.or_eq_true, beq_iff_eq, Bool.and_eq_true, decide_eq_true_eq] at h
    rcases h with hspace | hcontrol
    · rw [← ofNat_val c, hspace]
      decide
    · have hmem := hrange (c.val - 0x09) (by omega)
      rwa [Nat.add_sub_cancel' hcontrol.1, ofNat_val] at hmem
  · exact hall c

end CodePoint

/-! ## Spellings -/

namespace Bytes

def IsGap (t : Text) : Prop := ∀ c ∈ t, c ∈ CodePoint.asciiBlanks

/-- The two digits of a byte, the high one first, and the white space behind them. -/
def IsPart (part : Text) (b : UInt8) : Prop :=
  ∃ high low gap, part = high :: low :: gap ∧ CodePoint.IsHexDigit high (b.toNat / 16) ∧
    CodePoint.IsHexDigit low (b.toNat % 16) ∧ IsGap gap

/-- White space and behind it a part for each byte, in order. -/
def IsSpelling (t : Text) (bytes : Bytes) : Prop :=
  ∃ front parts, IsGap front ∧ List.Forall₂ IsPart parts bytes ∧ t = front ++ parts.flatten

variable {t gap : Text} {bytes : Bytes}

theorem Spells.after_gap (hgap : IsGap gap) (h : Spells t bytes) : Spells (gap ++ t) bytes := by
  induction gap with
  | nil => exact h
  | cons c gap ih =>
    obtain ⟨hc, hgap⟩ := List.forall_mem_cons.mp hgap
    exact .blank (CodePoint.isAsciiBlank_iff.mpr hc) (ih hgap)

theorem spells_of_parts {parts : List Text} (h : List.Forall₂ IsPart parts bytes) :
    Spells parts.flatten bytes := by
  induction h with
  | nil => exact .nil
  | cons hpart _ ih =>
    obtain ⟨high, low, gap, rfl, hhigh, hlow, hgap⟩ := hpart
    exact .pair ⟨CodePoint.isHexDigit_iff.mp hhigh, CodePoint.isHexDigit_iff.mp hlow⟩
      (ih.after_gap hgap)

/-- **The spellings are the texts of the grammar**, with the white space counted to what is in front
of it. -/
theorem isSpelling_iff : IsSpelling t bytes ↔ Spells t bytes := by
  constructor
  · rintro ⟨front, parts, hfront, hparts, rfl⟩
    exact (spells_of_parts hparts).after_gap hfront
  · intro h
    induction h with
    | nil => exact ⟨[], [], by simp [IsGap], .nil, rfl⟩
    | @blank c t bytes hc _ ih =>
      obtain ⟨front, parts, hfront, hparts, rfl⟩ := ih
      have hblank := CodePoint.isAsciiBlank_iff.mp hc
      exact ⟨c :: front, parts, List.forall_mem_cons.mpr ⟨hblank, hfront⟩, hparts, rfl⟩
    | @pair c d b t bytes hpair _ ih =>
      obtain ⟨front, parts, hfront, hparts, rfl⟩ := ih
      have hpart : IsPart (c :: d :: front) b := ⟨c, d, front, rfl,
        CodePoint.isHexDigit_iff.mpr hpair.1, CodePoint.isHexDigit_iff.mpr hpair.2, hfront⟩
      exact ⟨[], (c :: d :: front) :: parts, by simp [IsGap], .cons hpart hparts, rfl⟩

end Bytes

/-! ## Key material -/

variable {t : Text} {length : Nat} {what : Text} {bytes : Bytes}

open Bytes (IsSpelling)

theorem keyMaterial_eq_ok_iff :
    keyMaterial t length what = .ok bytes ↔ bytes.length = length ∧ Bytes.Spells t bytes := by
  constructor
  · intro h
    obtain ⟨outcome, hdecodes⟩ := exists_decodes t length what
    rw [hdecodes.eq] at h
    subst h
    cases hdecodes with
    | bytes hspells hlength => exact ⟨hlength, hspells⟩
  · rintro ⟨hlength, hspells⟩
    exact (Decodes.bytes hspells hlength).eq

/-- The text that a seed is written as is read back, whatever white space is put around it. -/
theorem seedOfText_toHex {seed : Bytes} {before after : Text}
    (hseed : seed.length = SignatureScheme.seedBytes) (hb : ∀ c ∈ before, c.isBlank = true)
    (ha : ∀ c ∈ after, c.isBlank = true) : seedOfText (before ++ seed.toHex ++ after) = .ok seed :=
  keyMaterial_eq_ok_iff.mpr ⟨hseed, (Bytes.spells_toHex seed).strip hb ha⟩

/-- **Key material is accepted in the spellings of the right length and in no others.** A text that
spells no bytes is refused for that, and one that spells bytes of another number is refused with
both numbers. What is written is read back, and so is a seed with white space around it. -/
theorem keyMaterial_by_form (t : Text) (length : Nat) (what : Text) :
    (∀ bytes, keyMaterial t length what = .ok bytes ↔ bytes.length = length ∧ IsSpelling t bytes) ∧
      ((∀ bytes, ¬ IsSpelling t bytes) →
        ∃ failure, keyMaterial t length what = .error failure ∧ failure.kind = .format ∧
          failure.message = "Invalid " ++ what ++ " format: not valid hex") ∧
      (∀ bytes, IsSpelling t bytes → bytes.length ≠ length →
        ∃ failure, keyMaterial t length what = .error failure ∧ failure.kind = .format ∧
          failure.message = "Invalid " ++ what ++ " format: expected " ++ Decimal.ofNat length ++
            " bytes, got " ++ Decimal.ofNat bytes.length) ∧
      (∀ a b, IsSpelling t a → IsSpelling t b → a = b) ∧
      (∀ bytes : Bytes, keyMaterial bytes.toHex bytes.length what = .ok bytes) ∧
      ∀ (seed : Bytes) (before after : Text), seed.length = SignatureScheme.seedBytes →
        (∀ c ∈ before, c.isBlank = true) → (∀ c ∈ after, c.isBlank = true) →
        seedOfText (before ++ seed.toHex ++ after) = .ok seed := by
  simp only [Bytes.isSpelling_iff]
  refine ⟨fun _ => keyMaterial_eq_ok_iff, ?unspelled, ?otherLength, fun _ _ => Bytes.Spells.unique,
    ?written, fun _ _ _ => seedOfText_toHex⟩
  case unspelled =>
    intro hnone
    have hdecodes : Decodes t length what (.error (.notHex what)) := .notHex hnone
    exact ⟨_, hdecodes.eq, hdecodes.kind, rfl⟩
  case otherLength =>
    intro bytes hspells hlength
    have hdecodes : Decodes t length what (.error (.wrongLength what length bytes.length)) :=
      .wrongLength hspells hlength
    exact ⟨_, hdecodes.eq, hdecodes.kind, rfl⟩
  case written =>
    exact fun bytes => keyMaterial_eq_ok_iff.mpr ⟨rfl, Bytes.spells_toHex bytes⟩

/-- Two bytes in both cases with white space wherever it may stand, asked for as two bytes and as
three; a digit that stands alone; and a seed between spaces of which one is not ASCII. -/
theorem keyMaterial_by_form_spaced :
    let spaced : Text := "\x0b0A\t fF\r\n"
    let seed : Bytes := List.replicate 32 0x5a
    IsSpelling spaced [0x0a, 0xff] ∧ keyMaterial spaced 2 "key" = .ok [0x0a, 0xff] ∧
      (∃ failure, keyMaterial spaced 3 "key" = .error failure ∧
        failure.message = "Invalid key format: expected 3 bytes, got 2") ∧
      (∀ bytes, ¬ IsSpelling "0 a" bytes) ∧
      (∃ failure, keyMaterial "0 a" 1 "key" = .error failure ∧
        failure.message = "Invalid key format: not valid hex") ∧
      seed.length = SignatureScheme.seedBytes ∧
      seedOfText ("\u2003" ++ seed.toHex ++ "\n") = .ok seed := by
  intro spaced seed
  have hspaced : IsSpelling spaced [0x0a, 0xff] :=
    Bytes.isSpelling_iff.mpr (Bytes.ofHex?_eq_some_iff.mp rfl)
  have hbroken : ∀ bytes, ¬ IsSpelling "0 a" bytes := by
    simp only [Bytes.isSpelling_iff]
    exact Bytes.ofHex?_eq_none_iff.mp rfl
  obtain ⟨hok, -, -, -, -, hseed⟩ := keyMaterial_by_form spaced 2 "key"
  obtain ⟨-, -, hother, -, -, -⟩ := keyMaterial_by_form spaced 3 "key"
  obtain ⟨-, hunspelled, -, -, -, -⟩ := keyMaterial_by_form "0 a" 1 "key"
  obtain ⟨failure, hfailure, -, hmessage⟩ := hother _ hspaced (by decide)
  obtain ⟨refusal, hrefusal, -, htold⟩ := hunspelled hbroken
  exact ⟨hspaced, (hok _).mpr ⟨rfl, hspaced⟩, ⟨failure, hfailure, hmessage⟩, hbroken,
    ⟨refusal, hrefusal, htold⟩, rfl, hseed seed "\u2003" "\n" rfl (by decide) (by decide)⟩

end WasmReceipt
