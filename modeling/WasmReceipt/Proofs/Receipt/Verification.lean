import WasmReceipt.Proofs.Decimal
import WasmReceipt.Proofs.Receipt.KeyMaterial
import WasmReceipt.Proofs.Receipt.Message
import WasmReceipt.Proofs.Utf8

/-! # What checking a receipt comes to

`Decision` lists the rules by which a check is decided, each under the condition that none before it
applies. Exactly one applies to every receipt and every given key, and the check comes to what that
one says. -/

namespace WasmReceipt

theorem messageDigest_of_isScalar {t : Text} (h : t.isScalar = true) :
    messageDigest t = .ok (Sha256.digest (Utf8.encodeLoose t)) := by
  rw [messageDigest, Utf8.encode_of_isScalar h]

theorem messageDigest_of_error {t : Text} {fault : Utf8.EncodeFault}
    (h : Utf8.encode t = .error fault) : messageDigest t = .error (.unencodable fault) := by
  rw [messageDigest, h]

namespace Receipt

/-! ## Conditions -/

/-- The key that a receipt is checked against: the given one, even an empty one, or its own. -/
def keyFor (r : Receipt) (given : Option Text) : Text := given.getD r.nodeKey

theorem isLocal_iff {r : Receipt} : r.isLocal = true ↔ r.nodeKey = localMarker := by
  unfold isLocal trust
  split
  · rename_i hl
    exact iff_of_true rfl hl
  · rename_i hl
    exact iff_of_false (by simp) hl

theorem isLocal_eq_false_iff {r : Receipt} : r.isLocal = false ↔ r.nodeKey ≠ localMarker := by
  rw [ne_eq, ← isLocal_iff, Bool.not_eq_true]

def IsUnsigned (r : Receipt) : Prop := r.signature = [] ∨ r.signature = unsignedMarker

/-- The version or the content hash holds half of a surrogate pair. -/
def HoldsSurrogate (r : Receipt) : Prop := ∃ c ∈ r.version ++ r.moduleHash, c.isSurrogate = true

theorem isScalar_signedText (r : Receipt) :
    r.signedText.isScalar = (r.version.isScalar && r.moduleHash.isScalar) := by
  have hbar : Text.isScalar "|" = true := by decide
  simp [signedText, joined, hbar, Decimal.isScalar_ofInt]

/-- Only the two texts among the signed fields can keep the signed text from being encoded. -/
theorem isScalar_signedText_iff {r : Receipt} :
    r.signedText.isScalar = true ↔ ¬ r.HoldsSurrogate := by
  rw [isScalar_signedText, ← Text.isScalar_append, Text.isScalar_iff]
  simp only [HoldsSurrogate, not_exists, not_and, Bool.not_eq_true]

theorem exists_encode_signedText {r : Receipt} (h : r.HoldsSurrogate) :
    ∃ fault, Utf8.encode r.signedText = .error fault := by
  refine Utf8.exists_encode_error ?_
  rw [← Bool.not_eq_true, isScalar_signedText_iff]
  exact not_not_intro h

/-- What has to be there before anything is decoded: somebody vouches, with a key and a
signature. -/
structure HasMaterial (r : Receipt) (given : Option Text) : Prop where
  attested : r.nodeKey ≠ localMarker
  key : r.keyFor given ≠ []
  signed : ¬ r.IsUnsigned

/-- What the reading of a public key comes to. The marker of local executions is never one. -/
inductive KeyDecodes (t : Text) : Except Failure Bytes → Prop
  | marker : t = localMarker → KeyDecodes t (.error .markerAsKey)
  | material {outcome : Except Failure Bytes} : t ≠ localMarker →
      Decodes t SignatureScheme.publicKeyBytes "public key" outcome → KeyDecodes t outcome

def SignatureDecodes (t : Text) (outcome : Except Failure Bytes) : Prop :=
  Decodes t SignatureScheme.signatureBytes "signature" outcome

theorem KeyDecodes.eq {t : Text} {outcome : Except Failure Bytes} (h : KeyDecodes t outcome) :
    SignatureScheme.keyOfText t = outcome := by
  unfold SignatureScheme.keyOfText
  cases h with
  | marker hm => rw [if_pos hm]
  | material hm hd => rw [if_neg hm, hd.eq]

theorem exists_keyDecodes (t : Text) : ∃ outcome, KeyDecodes t outcome := by
  by_cases hm : t = localMarker
  · exact ⟨_, .marker hm⟩
  · obtain ⟨outcome, hd⟩ := exists_decodes t SignatureScheme.publicKeyBytes "public key"
    exact ⟨outcome, .material hm hd⟩

theorem KeyDecodes.kind {t : Text} {failure : Failure} (h : KeyDecodes t (.error failure)) :
    failure.kind = .format := by
  cases h with
  | marker => rfl
  | material _ hd => exact hd.kind

/-! ## The rules -/

/-- The signed text is there and can be encoded. -/
structure HasSignedText (r : Receipt) : Prop where
  short : r.HasShortNumbers
  scalar : ¬ r.HoldsSurrogate

/-- The rules by which checking a receipt is decided, in their order. -/
inductive Decision (scheme : SignatureScheme) (r : Receipt) (given : Option Text) :
    Except Failure Bool → Prop
  | byCaller : r.nodeKey = localMarker → Decision scheme r given (.ok true)
  | noKey : r.nodeKey ≠ localMarker → r.keyFor given = [] →
      Decision scheme r given (.error .noPublicKey)
  | noSignature : r.nodeKey ≠ localMarker → r.keyFor given ≠ [] → r.IsUnsigned →
      Decision scheme r given (.error .noSignature)
  | longInteger : r.HasMaterial given → ¬ r.HasShortNumbers →
      Decision scheme r given (.error .longIntegerText)
  | unencodable {fault : Utf8.EncodeFault} : r.HasMaterial given → r.HasShortNumbers →
      r.HoldsSurrogate → Utf8.encode r.signedText = .error fault →
      Decision scheme r given (.error (.unencodable fault))
  | badKey {failure : Failure} : r.HasMaterial given → r.HasSignedText →
      KeyDecodes (r.keyFor given) (.error failure) → Decision scheme r given (.error failure)
  | badSignature {key : Bytes} {failure : Failure} : r.HasMaterial given → r.HasSignedText →
      KeyDecodes (r.keyFor given) (.ok key) → SignatureDecodes r.signature (.error failure) →
      Decision scheme r given (.error failure)
  | checked {key signature : Bytes} : r.HasMaterial given → r.HasSignedText →
      KeyDecodes (r.keyFor given) (.ok key) → SignatureDecodes r.signature (.ok signature) →
      Decision scheme r given
        (.ok (scheme.verify key (Sha256.digest (Utf8.encodeLoose r.signedText)) signature))

variable {scheme : SignatureScheme} {r : Receipt} {given : Option Text}

/-- Some rule applies. -/
theorem exists_decision (scheme : SignatureScheme) (r : Receipt) (given : Option Text) :
    ∃ outcome, Decision scheme r given outcome := by
  by_cases hl : r.nodeKey = localMarker
  · exact ⟨_, .byCaller hl⟩
  by_cases hk : r.keyFor given = []
  · exact ⟨_, .noKey hl hk⟩
  by_cases hs : r.IsUnsigned
  · exact ⟨_, .noSignature hl hk hs⟩
  have hm : r.HasMaterial given := ⟨hl, hk, hs⟩
  by_cases hn : r.HasShortNumbers
  case neg => exact ⟨_, .longInteger hm hn⟩
  by_cases hh : r.HoldsSurrogate
  · obtain ⟨fault, hf⟩ := exists_encode_signedText hh
    exact ⟨_, .unencodable hm hn hh hf⟩
  obtain ⟨key, hkey⟩ := exists_keyDecodes (r.keyFor given)
  cases key with
  | error failure => exact ⟨_, .badKey hm ⟨hn, hh⟩ hkey⟩
  | ok key =>
    obtain ⟨signature, hsig⟩ :=
      exists_decodes r.signature SignatureScheme.signatureBytes "signature"
    cases signature with
    | error failure => exact ⟨_, .badSignature hm ⟨hn, hh⟩ hkey hsig⟩
    | ok signature => exact ⟨_, .checked hm ⟨hn, hh⟩ hkey hsig⟩

theorem verify_of_marker (hl : r.nodeKey = localMarker) : r.verify scheme given = .ok true := by
  simp [verify, trust, hl]

/-- With key material present, a check is one of the message under the key. -/
theorem verify_of_hasMaterial (h : r.HasMaterial given) :
    r.verify scheme given =
      r.message >>= fun t => scheme.verifyText t r.signature (r.keyFor given) := by
  have hk : (r.keyFor given).isEmpty = false := by
    simpa using h.key
  have hs : (r.signature.isEmpty || r.signature == unsignedMarker) = false := by
    simpa [IsUnsigned] using h.signed
  simp only [keyFor] at hk
  simp only [verify, trust, if_neg h.attested, hk, hs, keyFor, Bool.false_eq_true, if_false]

theorem verify_of_hasSignedText (hm : r.HasMaterial given) (h : r.HasSignedText) :
    r.verify scheme given = (do
      let key ← SignatureScheme.keyOfText (r.keyFor given)
      let signature ← keyMaterial r.signature SignatureScheme.signatureBytes "signature"
      return scheme.verify key (Sha256.digest (Utf8.encodeLoose r.signedText)) signature) := by
  rw [verify_of_hasMaterial hm, message_of_short h.short]
  dsimp only [bind, Except.bind]
  rw [SignatureScheme.verifyText, messageDigest_of_isScalar (isScalar_signedText_iff.mpr h.scalar)]
  rfl

/-- What a rule says is what the check comes to. -/
theorem Decision.eq {outcome : Except Failure Bool} (h : Decision scheme r given outcome) :
    r.verify scheme given = outcome := by
  cases h with
  | byCaller hl => exact verify_of_marker hl
  | noKey hl hk =>
    simp only [keyFor] at hk
    simp [verify, trust, hl, hk]
  | noSignature hl hk hs =>
    have hs' : (r.signature.isEmpty || r.signature == unsignedMarker) = true := by
      simpa [IsUnsigned] using hs
    have hk' : (given.getD r.nodeKey).isEmpty = false := by
      simpa [keyFor] using hk
    simp only [verify, trust, if_neg hl, hk', hs', Bool.false_eq_true, if_false, if_true]
  | longInteger hm hn =>
    rw [verify_of_hasMaterial hm, message_of_long hn]
    rfl
  | unencodable hm hn _ hf =>
    rw [verify_of_hasMaterial hm, message_of_short hn]
    dsimp only [bind, Except.bind]
    rw [SignatureScheme.verifyText, messageDigest_of_error hf]
    rfl
  | badKey hm ht hk =>
    rw [verify_of_hasSignedText hm ht, hk.eq]
    rfl
  | badSignature hm ht hk hs =>
    rw [verify_of_hasSignedText hm ht, hk.eq, Decodes.eq hs]
    rfl
  | checked hm ht hk hs =>
    rw [verify_of_hasSignedText hm ht, hk.eq, Decodes.eq hs]
    rfl

theorem verify_eq_iff {outcome : Except Failure Bool} :
    r.verify scheme given = outcome ↔ Decision scheme r given outcome := by
  constructor
  · rintro rfl
    obtain ⟨outcome, h⟩ := exists_decision scheme r given
    rw [h.eq]
    exact h
  · exact Decision.eq

/-! ## What the rules come to -/

/-- Key and signature are spelled out in full, and the scheme accepts the one over the digest of
the message under the other. -/
def IsVouched (scheme : SignatureScheme) (r : Receipt) (given : Option Text) : Prop :=
  r.HasMaterial given ∧ r.HasSignedText ∧
    ∃ key signature, Bytes.Spells (r.keyFor given) key ∧
      key.length = SignatureScheme.publicKeyBytes ∧ Bytes.Spells r.signature signature ∧
      signature.length = SignatureScheme.signatureBytes ∧
      scheme.verify key (Sha256.digest (Utf8.encodeLoose r.signedText)) signature = true

theorem KeyDecodes.spells {t : Text} {key : Bytes} (h : KeyDecodes t (.ok key)) :
    Bytes.Spells t key ∧ key.length = SignatureScheme.publicKeyBytes := by
  cases h with
  | material _ hd =>
    cases hd with
    | bytes hs hl => exact ⟨hs, hl⟩

theorem SignatureDecodes.spells {t : Text} {signature : Bytes}
    (h : SignatureDecodes t (.ok signature)) :
    Bytes.Spells t signature ∧ signature.length = SignatureScheme.signatureBytes := by
  cases h with
  | bytes hs hl => exact ⟨hs, hl⟩

/-- The marker is no spelling of anything. -/
theorem not_spells_localMarker (bytes : Bytes) : ¬ Bytes.Spells localMarker bytes := by
  have hn : Bytes.ofHex? localMarker = none := by decide
  exact Bytes.ofHex?_eq_none_iff.mp hn bytes

theorem keyDecodes_of_spells {t : Text} {key : Bytes} (hs : Bytes.Spells t key)
    (hl : key.length = SignatureScheme.publicKeyBytes) : KeyDecodes t (.ok key) := by
  refine .material ?_ (.bytes hs hl)
  rintro rfl
  exact not_spells_localMarker key hs

theorem verify_of_isVouched (h : IsVouched scheme r given) : r.verify scheme given = .ok true := by
  obtain ⟨hm, ht, key, signature, hk, hkl, hs, hsl, hv⟩ := h
  have hd : Decision scheme r given _ :=
    .checked hm ht (keyDecodes_of_spells hk hkl) (Decodes.bytes hs hsl)
  rw [hd.eq, hv]

theorem verify_eq_true_iff :
    r.verify scheme given = .ok true ↔ r.nodeKey = localMarker ∨ IsVouched scheme r given := by
  constructor
  · intro h
    generalize hv : Except.ok true = outcome at h
    cases verify_eq_iff.mp h with
    | byCaller hl => exact .inl hl
    | checked hm ht hk hs =>
      have hk := hk.spells
      have hs := SignatureDecodes.spells hs
      exact .inr ⟨hm, ht, _, _, hk.1, hk.2, hs.1, hs.2, (Except.ok.inj hv).symm⟩
    | _ => cases hv
  · rintro (hl | hv)
    · exact verify_of_marker hl
    · exact verify_of_isVouched hv

/-- The kind of a failure tells which rules it can come from. -/
theorem Decision.kind {failure : Failure} (h : Decision scheme r given (.error failure)) :
    (failure.kind = .missingKey ∧ (r.keyFor given = [] ∨ r.IsUnsigned)) ∨
      (failure.kind = .encoding ∧ r.HasMaterial given ∧ r.HoldsSurrogate) ∨
      (failure.kind = .format ∧ r.HasMaterial given ∧ ¬ r.HoldsSurrogate) ∨
      (failure.kind = .value ∧ r.HasMaterial given ∧ ¬ r.HasShortNumbers) := by
  cases h with
  | noKey _ hk => exact .inl ⟨rfl, .inl hk⟩
  | noSignature _ _ hs => exact .inl ⟨rfl, .inr hs⟩
  | longInteger hm hn => exact .inr (.inr (.inr ⟨rfl, hm, hn⟩))
  | unencodable hm _ hh _ => exact .inr (.inl ⟨rfl, hm, hh⟩)
  | badKey hm ht hk => exact .inr (.inr (.inl ⟨hk.kind, hm, ht.scalar⟩))
  | badSignature hm ht _ hs => exact .inr (.inr (.inl ⟨Decodes.kind hs, hm, ht.scalar⟩))

/-- **A check is decided by the first rule that applies**, for every receipt and every given key:
the marker of local executions, a missing key, a missing signature, a number that is too long, half
of a surrogate pair in a signed text, a bad key, a bad signature, and else the answer of the
signature scheme. A receipt checks out only by the marker or by a signature that is accepted. -/
theorem verify_decided (scheme : SignatureScheme) (r : Receipt) (given : Option Text) :
    (∀ outcome, r.verify scheme given = outcome ↔ Decision scheme r given outcome) ∧
    (r.InRange → r.HasShortNumbers) ∧
    (∀ failure, r.verify scheme given = .error failure →
      (failure.kind = .missingKey ∧ (r.keyFor given = [] ∨ r.IsUnsigned)) ∨
        (failure.kind = .encoding ∧ r.HasMaterial given ∧ r.HoldsSurrogate) ∨
        (failure.kind = .format ∧ r.HasMaterial given ∧ ¬ r.HoldsSurrogate) ∨
        (failure.kind = .value ∧ r.HasMaterial given ∧ ¬ r.HasShortNumbers)) ∧
    (r.verify scheme given = .ok true ↔ r.nodeKey = localMarker ∨ IsVouched scheme r given) := by
  refine ⟨fun _ => verify_eq_iff, InRange.hasShortNumbers, ?_, verify_eq_true_iff⟩
  intro failure h
  exact (verify_eq_iff.mp h).kind

end Receipt

end WasmReceipt
