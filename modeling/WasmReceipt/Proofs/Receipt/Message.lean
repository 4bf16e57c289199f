import WasmReceipt.Proofs.Decimal
import WasmReceipt.Proofs.Receipt.Fields
import WasmReceipt.Receipt.Attestation

/-! # Which receipts share a signed message

The signed text puts a bar between five fields, and two of them may hold bars themselves. Numbers
hold none, so the text is taken apart from its end; in what is left in front of them a bar may stand
anywhere. -/

namespace WasmReceipt

namespace Receipt

/-- What stands between the fields of the signed text. -/
def bar : CodePoint := CodePoint.ofChar '|'

theorem bar_notMem_ofInt (i : Int) : bar ∉ Decimal.ofInt i := by
  intro h
  rcases Decimal.mem_ofInt h with hd | hm
  · exact absurd hd (by decide)
  · exact absurd hm (by decide)

/-! ## The signed text -/

/-- None of the numbers has more than 4300 digits. -/
structure HasShortNumbers (r : Receipt) : Prop where
  exitCode : Decimal.isWritable r.exitCode = true
  wallTimeMs : Decimal.isWritable r.wallTimeMs = true
  timestamp : Decimal.isWritable r.timestamp = true

/-- Numbers in range are far from too long. -/
theorem InRange.hasShortNumbers {r : Receipt} (h : r.InRange) : r.HasShortNumbers := by
  obtain ⟨hleast, hgreatest, hwall, hwall', htime, htime'⟩ := h
  have hshort {n : Int} (hn : n.natAbs < UInt64.size) : Decimal.isWritable n = true :=
    decide_eq_true (Decimal.digitCount_le hn)
  simp only [minExitCode, maxExitCode, maxTime] at hleast hgreatest hwall' htime'
  exact ⟨hshort (by simp only [UInt64.size]; omega), hshort (by simp only [UInt64.size]; omega),
    hshort (by simp only [UInt64.size]; omega)⟩

/-- The signed text, if the numbers can be written. -/
def signedText (r : Receipt) : Text :=
  joined r.version r.moduleHash (Decimal.ofInt r.exitCode) (Decimal.ofInt r.wallTimeMs)
    (Decimal.ofInt r.timestamp)

theorem message_of_short {r : Receipt} (h : r.HasShortNumbers) : r.message = .ok r.signedText := by
  simp only [message, messageOf, integerText, h.exitCode, h.wallTimeMs, h.timestamp, if_true]
  rfl

theorem message_of_long {r : Receipt} (h : ¬ r.HasShortNumbers) :
    r.message = .error .longIntegerText := by
  unfold message messageOf integerText
  by_cases he : Decimal.isWritable r.exitCode = true
  · by_cases hw : Decimal.isWritable r.wallTimeMs = true
    · by_cases ht : Decimal.isWritable r.timestamp = true
      · exact absurd ⟨he, hw, ht⟩ h
      · rw [if_pos he, if_pos hw, if_neg ht]
        rfl
    · rw [if_pos he, if_neg hw]
      rfl
  · rw [if_neg he]
    rfl

theorem message_eq_ok_iff {r : Receipt} {t : Text} :
    r.message = .ok t ↔ r.HasShortNumbers ∧ t = r.signedText := by
  by_cases h : r.HasShortNumbers
  · rw [message_of_short h, Except.ok.injEq]
    exact ⟨fun ht => ⟨h, ht.symm⟩, fun ht => ht.2.symm⟩
  · rw [message_of_long h]
    exact iff_of_false nofun fun ht => h ht.1

def messageHead (r : Receipt) : Text := r.version ++ "|" ++ r.moduleHash

theorem messageHead_eq (r : Receipt) : r.messageHead = r.version ++ bar :: r.moduleHash := by
  simp [messageHead, bar, Text.ofString]

theorem signedText_eq (r : Receipt) :
    r.signedText = ((r.messageHead ++ bar :: Decimal.ofInt r.exitCode) ++
      bar :: Decimal.ofInt r.wallTimeMs) ++ bar :: Decimal.ofInt r.timestamp := by
  simp [signedText, joined, messageHead, bar, Text.ofString]

/-- The numbers of two receipts agree, and so does what stands in front of them. -/
structure AgreesWith (r₁ r₂ : Receipt) : Prop where
  exitCode : r₁.exitCode = r₂.exitCode
  wallTimeMs : r₁.wallTimeMs = r₂.wallTimeMs
  timestamp : r₁.timestamp = r₂.timestamp
  head : r₁.version ++ "|" ++ r₁.moduleHash = r₂.version ++ "|" ++ r₂.moduleHash

theorem signedText_eq_iff {r₁ r₂ : Receipt} :
    r₁.signedText = r₂.signedText ↔ r₁.AgreesWith r₂ := by
  rw [signedText_eq, signedText_eq]
  constructor
  · intro h
    -- one number after the other, from the right
    obtain ⟨h, ht⟩ := Text.append_cons_right_inj (bar_notMem_ofInt _) (bar_notMem_ofInt _) h
    obtain ⟨h, hw⟩ := Text.append_cons_right_inj (bar_notMem_ofInt _) (bar_notMem_ofInt _) h
    obtain ⟨h, he⟩ := Text.append_cons_right_inj (bar_notMem_ofInt _) (bar_notMem_ofInt _) h
    exact ⟨Decimal.ofInt_injective he, Decimal.ofInt_injective hw, Decimal.ofInt_injective ht, h⟩
  · rintro ⟨he, hw, ht, h⟩
    have hhead : r₁.messageHead = r₂.messageHead := h
    rw [he, hw, ht, hhead]

/-- There is a text that both receipts are signed by. -/
def SharesMessage (r₁ r₂ : Receipt) : Prop := ∃ t, r₁.message = .ok t ∧ r₂.message = .ok t

theorem sharesMessage_iff {r₁ r₂ : Receipt} :
    r₁.SharesMessage r₂ ↔ r₁.HasShortNumbers ∧ r₁.AgreesWith r₂ := by
  constructor
  · rintro ⟨t, h₁, h₂⟩
    obtain ⟨hshort, rfl⟩ := message_eq_ok_iff.mp h₁
    exact ⟨hshort, signedText_eq_iff.mp (message_eq_ok_iff.mp h₂).2⟩
  · rintro ⟨hshort, h⟩
    have hshort₂ : r₂.HasShortNumbers :=
      ⟨h.exitCode ▸ hshort.exitCode, h.wallTimeMs ▸ hshort.wallTimeMs, h.timestamp ▸ hshort.timestamp⟩
    refine ⟨r₁.signedText, message_of_short hshort, ?_⟩
    rw [message_of_short hshort₂, signedText_eq_iff.mpr h]

/-! ## Shifting text across the bar -/

/-- Some text and a bar stand at the end of the first version, and in front of the second content
hash in its place. -/
def Shifted (r₁ r₂ : Receipt) : Prop :=
  ∃ moved, r₁.version = r₂.version ++ bar :: moved ∧ r₂.moduleHash = moved ++ bar :: r₁.moduleHash

theorem messageHead_cases {r₁ r₂ : Receipt} (h : r₁.messageHead = r₂.messageHead) :
    (r₁.version = r₂.version ∧ r₁.moduleHash = r₂.moduleHash) ∨ Shifted r₁ r₂ ∨ Shifted r₂ r₁ := by
  rw [messageHead_eq, messageHead_eq] at h
  rcases List.append_eq_append_iff.mp h with ⟨u, hv, hu⟩ | ⟨u, hv, hu⟩
  · cases u with
    | nil =>
      obtain ⟨-, hm⟩ := List.cons.inj hu
      exact .inl ⟨by simpa using hv.symm, hm⟩
    | cons c u =>
      obtain ⟨rfl, hm⟩ := List.cons.inj hu
      exact .inr (.inr ⟨u, hv, hm⟩)
  · cases u with
    | nil =>
      obtain ⟨-, hm⟩ := List.cons.inj hu
      exact .inl ⟨by simpa using hv, hm.symm⟩
    | cons c u =>
      obtain ⟨rfl, hm⟩ := List.cons.inj hu
      exact .inr (.inl ⟨u, hv, hm⟩)

/-- In how many of the five signed fields two receipts differ. -/
def signedDifferences (r₁ r₂ : Receipt) : Nat :=
  [r₁.version != r₂.version, r₁.moduleHash != r₂.moduleHash, r₁.exitCode != r₂.exitCode,
    r₁.wallTimeMs != r₂.wallTimeMs, r₁.timestamp != r₂.timestamp].count true

theorem Shifted.ne {r₁ r₂ : Receipt} (h : Shifted r₁ r₂) :
    r₁.version ≠ r₂.version ∧ r₁.moduleHash ≠ r₂.moduleHash := by
  obtain ⟨moved, hv, hm⟩ := h
  constructor
  · intro he
    have hl := congrArg List.length hv
    simp only [he, List.length_append, List.length_cons] at hl
    omega
  · intro he
    have hl := congrArg List.length hm
    simp only [he, List.length_append, List.length_cons] at hl
    omega

/-- Receipts that share a signed text are equal in all five fields, or differ in just the two
around the first bar. -/
theorem SharesMessage.signedDifferences {r₁ r₂ : Receipt} (h : r₁.SharesMessage r₂) :
    r₁.signedDifferences r₂ = 0 ∨
      r₁.signedDifferences r₂ = 2 ∧ (Shifted r₁ r₂ ∨ Shifted r₂ r₁) := by
  obtain ⟨-, he, hw, ht, hh⟩ := sharesMessage_iff.mp h
  rcases messageHead_cases hh with ⟨hv, hm⟩ | hs
  · exact .inl (by simp [Receipt.signedDifferences, he, hw, ht, hv, hm])
  · have hne : r₁.version ≠ r₂.version ∧ r₁.moduleHash ≠ r₂.moduleHash := by
      rcases hs with hs | hs
      · exact hs.ne
      · exact ⟨hs.ne.1.symm, hs.ne.2.symm⟩
    have hv : (r₁.version != r₂.version) = true := bne_iff_ne.mpr hne.1
    have hm : (r₁.moduleHash != r₂.moduleHash) = true := bne_iff_ne.mpr hne.2
    exact .inr ⟨by simp [Receipt.signedDifferences, he, hw, ht, hv, hm], hs⟩

/-- Verification looks at the signed text, the node key and the signature, and at nothing else. -/
theorem verify_congr {scheme : SignatureScheme} {r₁ r₂ : Receipt} (hm : r₁.message = r₂.message)
    (hk : r₁.nodeKey = r₂.nodeKey) (hs : r₁.signature = r₂.signature) (given : Option Text) :
    r₁.verify scheme given = r₂.verify scheme given := by
  unfold verify trust
  rw [hm, hk, hs]

/-- **Which receipts share a signed text.** A receipt has one when its numbers can be written. Two
receipts share it when they agree in their numbers, and in what the version, a bar and the content
hash read together. A change of one signed field always shows, and receipts that share a text pass
or fail alike under every key and signature, so a signature moves to another receipt only along with
text that is shifted across the bar. -/
theorem message_shared (r₁ r₂ : Receipt) :
    ((∃ t, r₁.message = .ok t) ↔ r₁.HasShortNumbers) ∧
    (¬ r₁.HasShortNumbers → r₁.message = .error .longIntegerText) ∧
    (r₁.SharesMessage r₂ ↔ r₁.HasShortNumbers ∧ r₁.AgreesWith r₂) ∧
    (r₁.signedDifferences r₂ = 1 → ¬ r₁.SharesMessage r₂) ∧
    (bar ∉ r₁.version → bar ∉ r₂.version → r₁.SharesMessage r₂ →
      r₁.version = r₂.version ∧ r₁.moduleHash = r₂.moduleHash ∧ r₁.exitCode = r₂.exitCode ∧
        r₁.wallTimeMs = r₂.wallTimeMs ∧ r₁.timestamp = r₂.timestamp) ∧
    (∀ key signature, { r₁ with nodeKey := key, signature := signature }.message = r₁.message) ∧
    (r₁.SharesMessage r₂ → ∀ (scheme : SignatureScheme) (key signature : Text)
      (given : Option Text),
      { r₁ with nodeKey := key, signature := signature }.verify scheme given =
        { r₂ with nodeKey := key, signature := signature }.verify scheme given) ∧
    (r₁.SharesMessage r₂ → r₁.signedDifferences r₂ ≠ 0 → Shifted r₁ r₂ ∨ Shifted r₂ r₁) := by
  refine ⟨?_, message_of_long, sharesMessage_iff, ?_, ?_, fun _ _ => rfl, ?_, ?_⟩
  · exact ⟨fun ⟨_, h⟩ => (message_eq_ok_iff.mp h).1, fun h => ⟨_, message_of_short h⟩⟩
  · intro hone h
    rcases h.signedDifferences with h0 | ⟨h2, -⟩
    · omega
    · omega
  · intro hv₁ hv₂ h
    obtain ⟨-, he, hw, ht, hh⟩ := sharesMessage_iff.mp h
    have hhead : r₁.messageHead = r₂.messageHead := hh
    rw [messageHead_eq, messageHead_eq] at hhead
    obtain ⟨hv, hm⟩ := Text.append_cons_left_inj hv₁ hv₂ hhead
    exact ⟨hv, hm, he, hw, ht⟩
  · rintro ⟨t, h₁, h₂⟩ scheme key signature given
    exact @verify_congr scheme { r₁ with nodeKey := key, signature := signature }
      { r₂ with nodeKey := key, signature := signature } (h₁.trans h₂.symm) rfl rfl given
  · intro h hne
    rcases h.signedDifferences with h0 | ⟨-, hs⟩
    · exact absurd h0 hne
    · exact hs

/-- A version with a bar in it, and the receipt that its end can be shifted to. -/
theorem message_shared_across_bar :
    let r₁ : Receipt := ⟨"0.1|sha256:ab", "cd", 0, 1500, 1762663835, [], []⟩
    let r₂ : Receipt := ⟨"0.1", "sha256:ab|cd", 0, 1500, 1762663835, [], []⟩
    r₁ ≠ r₂ ∧ r₁.SharesMessage r₂ ∧ (Shifted r₁ r₂ ∨ Shifted r₂ r₁) := by
  intro r₁ r₂
  have hshared := message_shared r₁ r₂
  have h : r₁.SharesMessage r₂ :=
    hshared.2.2.1.mpr ⟨⟨by decide, by decide, by decide⟩, rfl, rfl, rfl, by decide⟩
  exact ⟨by decide, h, hshared.2.2.2.2.2.2.2 h (by decide)⟩

/-- A receipt agrees with itself and yet shares no signed text with itself when its exit code has
4301 digits: it has none. -/
theorem message_too_long :
    let r : Receipt := ⟨"v", "h", (Nat.pow 10 Decimal.maxDigits : Nat), 0, 1, [], []⟩
    r.AgreesWith r ∧ ¬ r.SharesMessage r ∧ r.message = .error .longIntegerText := by
  intro r
  have hlong : ¬ r.HasShortNumbers := by
    intro h
    have hexit : Decimal.isWritable (Nat.pow 10 Decimal.maxDigits : Nat) = true := h.exitCode
    rw [Decimal.not_isWritable_pow (Nat.le_refl _)] at hexit
    cases hexit
  exact ⟨⟨rfl, rfl, rfl, rfl⟩, fun h => hlong (sharesMessage_iff.mp h).1, message_of_long hlong⟩

end Receipt

end WasmReceipt
