import WasmReceipt.Proofs.Receipt.Document
import WasmReceipt.Proofs.Receipt.Verification

/-! # What signing a receipt comes to

Of the signature scheme only this is used: keys and signatures have their lengths, and what a seed
signs is accepted under its public key. Everything else on the way from a seed to a check that comes
out well is code of this library. -/

namespace WasmReceipt.Receipt

section

variable {scheme : SignatureScheme} {r : Receipt} {seed : Bytes}

/-- A text spells a seed, with any white space around it. -/
def SpellsSeed (t : Text) (seed : Bytes) : Prop :=
  ∃ before spelling after : Text, t = before ++ spelling ++ after ∧
    (∀ c ∈ before, c.isBlank = true) ∧ (∀ c ∈ after, c.isBlank = true) ∧
    Bytes.Spells spelling seed

def attested (scheme : SignatureScheme) (r : Receipt) (seed : Bytes) : Receipt :=
  { r with
    nodeKey := scheme.publicKeyText seed
    signature := Bytes.toHex (scheme.sign seed (Sha256.digest (Utf8.encodeLoose r.signedText))) }

/-- What a seed vouches for in a receipt: the execution is the same, it is none by the caller, the
receipt comes back from any number of trips, and it checks out by itself and under every spelling
of the public key. -/
structure AttestedBy (scheme : SignatureScheme) (seed : Bytes) (r s : Receipt) : Prop where
  version : s.version = r.version
  moduleHash : s.moduleHash = r.moduleHash
  exitCode : s.exitCode = r.exitCode
  wallTimeMs : s.wallTimeMs = r.wallTimeMs
  timestamp : s.timestamp = r.timestamp
  notLocal : s.isLocal = false
  trips : ∀ n, s.trips n = .ok s
  own : s.verify scheme none = .ok true
  underKey : ∀ key, Bytes.Spells key (scheme.publicKey seed) → s.verify scheme (some key) = .ok true

/-! ## Seeds -/

theorem seedOfText_of_spellsSeed {t : Text} (ht : SpellsSeed t seed)
    (hl : seed.length = SignatureScheme.seedBytes) : seedOfText t = .ok seed := by
  obtain ⟨before, spelling, after, rfl, hb, ha, hspells⟩ := ht
  have hd : Decodes ((before ++ spelling ++ after).strip CodePoint.isBlank)
      SignatureScheme.seedBytes "private key" (.ok seed) := .bytes (hspells.strip hb ha) hl
  exact hd.eq

theorem attestWith_of_spellsSeed {t : Text} (ht : SpellsSeed t seed)
    (hl : seed.length = SignatureScheme.seedBytes) (r : Receipt) :
    r.attestWith scheme t = r.attest scheme seed := by
  rw [attestWith, seedOfText_of_spellsSeed ht hl]
  rfl

/-! ## Signing -/

theorem attest_eq (h : r.HasSignedText) (seed : Bytes) :
    r.attest scheme seed = .ok (attested scheme r seed) := by
  rw [attest, message_of_short h.short]
  dsimp only [bind, Except.bind]
  rw [SignatureScheme.signText, messageDigest_of_isScalar (isScalar_signedText_iff.mpr h.scalar)]
  rfl

/-- Without a signed text every signer is stopped in the same way: a number is too long, or there is
a surrogate. -/
theorem exists_attest_error (h : ¬ r.HasSignedText) :
    ∃ failure, (∀ (scheme : SignatureScheme) (seed : Bytes),
      r.attest scheme seed = .error failure) ∧ (r.HasShortNumbers → failure.kind = .encoding) := by
  by_cases hn : r.HasShortNumbers
  · obtain ⟨fault, hfault⟩ :=
      exists_encode_signedText (not_not.mp fun hscalar => h ⟨hn, hscalar⟩)
    refine ⟨.unencodable fault, fun scheme seed => ?_, fun _ => rfl⟩
    rw [attest, message_of_short hn]
    dsimp only [bind, Except.bind]
    rw [SignatureScheme.signText, messageDigest_of_error hfault]
    rfl
  · refine ⟨.longIntegerText, fun scheme seed => ?_, fun hshort => absurd hshort hn⟩
    rw [attest, message_of_long hn]
    rfl

/-- What vouched before a receipt was signed leaves no trace. -/
theorem attest_attested (k₁ k₂ : Bytes) :
    (attested scheme r k₁).attest scheme k₂ = r.attest scheme k₂ := rfl

/-- The last signer wins. -/
theorem attest_bind_attest (r : Receipt) (k₁ k₂ : Bytes) :
    (r.attest scheme k₁ >>= fun s => s.attest scheme k₂) = r.attest scheme k₂ := by
  by_cases h : r.HasSignedText
  · rw [attest_eq h k₁]
    exact attest_attested k₁ k₂
  · obtain ⟨failure, hfailure, -⟩ := exists_attest_error h
    rw [hfailure scheme k₁, hfailure scheme k₂]
    rfl

/-! ## The signed receipt -/

theorem inRange_attested (h : r.InRange) (seed : Bytes) : (attested scheme r seed).InRange :=
  ⟨h.minExitCode_le, h.le_maxExitCode, h.wallTimeMs_nonneg, h.wallTimeMs_le, h.timestamp_nonneg,
    h.timestamp_le⟩

theorem isScalar_attested (h : ¬ r.HoldsSurrogate) (seed : Bytes) :
    (attested scheme r seed).IsScalar := by
  have hboth := isScalar_signedText_iff.mpr h
  rw [isScalar_signedText, Bool.and_eq_true] at hboth
  exact ⟨hboth.1, hboth.2, Bytes.isScalar_toHex _, Bytes.isScalar_toHex _⟩

theorem ne_nil_of_spells {t : Text} {bytes : Bytes} (h : Bytes.Spells t bytes)
    (hl : bytes.length ≠ 0) : t ≠ [] := by
  rintro rfl
  cases h
  exact hl rfl

theorem not_spells_unsignedMarker (bytes : Bytes) : ¬ Bytes.Spells unsignedMarker bytes := by
  have hn : Bytes.ofHex? unsignedMarker = none := by decide
  exact Bytes.ofHex?_eq_none_iff.mp hn bytes

theorem nodeKey_attested_ne (r : Receipt) (seed : Bytes) :
    (attested scheme r seed).nodeKey ≠ localMarker := by
  intro h
  have hspells : Bytes.Spells (attested scheme r seed).nodeKey (scheme.publicKey seed) :=
    Bytes.spells_toHex _
  rw [h] at hspells
  exact not_spells_localMarker _ hspells

/-- Whatever key the check is made with, its own or a given one: if it spells the public key of the
seed, the receipt is vouched for. -/
theorem isVouched_attested (hc : scheme.Correct) (h : r.HasSignedText)
    (hl : seed.length = SignatureScheme.seedBytes) {given : Option Text}
    (hk : Bytes.Spells ((attested scheme r seed).keyFor given) (scheme.publicKey seed)) :
    IsVouched scheme (attested scheme r seed) given := by
  have hkey := hc.publicKey_length seed hl
  have hsignature := hc.sign_length seed (Sha256.digest (Utf8.encodeLoose r.signedText)) hl
  have hspells : Bytes.Spells (attested scheme r seed).signature
      (scheme.sign seed (Sha256.digest (Utf8.encodeLoose r.signedText))) := Bytes.spells_toHex _
  have hmaterial : (attested scheme r seed).HasMaterial given := by
    refine ⟨nodeKey_attested_ne r seed, ne_nil_of_spells hk (by rw [hkey]; decide), ?_⟩
    rintro (hnone | hmarker)
    · exact ne_nil_of_spells hspells (by rw [hsignature]; decide) hnone
    · rw [hmarker] at hspells
      exact not_spells_unsignedMarker _ hspells
  exact ⟨hmaterial, ⟨⟨h.short.exitCode, h.short.wallTimeMs, h.short.timestamp⟩, h.scalar⟩,
    _, _, hk, hkey, hspells, hsignature, hc.verify_sign seed _ hl⟩

theorem attestedBy_attested (hc : scheme.Correct) (hr : r.InRange) (h : ¬ r.HoldsSurrogate)
    (hl : seed.length = SignatureScheme.seedBytes) :
    AttestedBy scheme seed r (attested scheme r seed) where
  version := rfl
  moduleHash := rfl
  exitCode := rfl
  wallTimeMs := rfl
  timestamp := rfl
  notLocal := by
    rw [isLocal, trust, if_neg (nodeKey_attested_ne r seed)]
    rfl
  trips := trips_of_isScalar (inRange_attested hr seed) (isScalar_attested h seed)
  own := verify_of_isVouched
    (isVouched_attested hc ⟨hr.hasShortNumbers, h⟩ hl (Bytes.spells_toHex _))
  underKey _ hk := verify_of_isVouched (isVouched_attested hc ⟨hr.hasShortNumbers, h⟩ hl hk)

/-- **Signing is complete from the seed to the check, and the last signer wins.** Every receipt in
range without surrogates in its signed texts is signed by every seed, whoever vouched before, and
the signed receipt keeps all promises. A receipt with a surrogate in a signed text is signed by
nobody. -/
theorem attest_complete (scheme : SignatureScheme) (hc : scheme.Correct) :
    (∀ (r : Receipt) (seed : Bytes), r.InRange → ¬ r.HoldsSurrogate →
      seed.length = SignatureScheme.seedBytes →
      ∃ s, r.attest scheme seed = .ok s ∧
        (∀ t, SpellsSeed t seed → r.attestWith scheme t = .ok s) ∧ AttestedBy scheme seed r s) ∧
    (∀ (r : Receipt) (k₁ k₂ : Bytes),
      (r.attest scheme k₁ >>= fun s => s.attest scheme k₂) = r.attest scheme k₂ ∧
      (k₁.length = SignatureScheme.seedBytes → k₂.length = SignatureScheme.seedBytes →
        ∀ t₁ t₂, SpellsSeed t₁ k₁ → SpellsSeed t₂ k₂ →
        (r.attestWith scheme t₁ >>= fun s => s.attestWith scheme t₂) = r.attestWith scheme t₂)) ∧
    ∀ r : Receipt, r.HoldsSurrogate →
      (∀ seed, ∃ failure, r.attest scheme seed = .error failure ∧
        (r.HasShortNumbers → failure.kind = .encoding)) ∧
      ∀ t, ∃ failure, r.attestWith scheme t = .error failure := by
  refine ⟨?_, ?_, ?_⟩
  · intro r seed hr h hl
    have htext : r.HasSignedText := ⟨hr.hasShortNumbers, h⟩
    refine ⟨attested scheme r seed, attest_eq htext seed, ?_, attestedBy_attested hc hr h hl⟩
    intro t ht
    rw [attestWith_of_spellsSeed ht hl, attest_eq htext]
  · intro r k₁ k₂
    refine ⟨attest_bind_attest r k₁ k₂, ?_⟩
    intro hl₁ hl₂ t₁ t₂ ht₁ ht₂
    simp only [attestWith_of_spellsSeed ht₁ hl₁, attestWith_of_spellsSeed ht₂ hl₂]
    exact attest_bind_attest r k₁ k₂
  · intro r h
    obtain ⟨failure, hfailure, hkind⟩ := exists_attest_error fun htext => htext.scalar h
    refine ⟨fun seed => ⟨failure, hfailure scheme seed, hkind⟩, ?_⟩
    intro t
    rw [attestWith]
    cases seedOfText t with
    | error unspelled => exact ⟨unspelled, rfl⟩
    | ok seed => exact ⟨failure, hfailure scheme seed⟩

end

/-! ## A sample -/

namespace Sample

def bytesOf (t : Text) : Bytes := (Bytes.ofHex? t).getD []

/-- The seed of the first test vector of Ed25519. -/
def seed : Bytes := bytesOf "9d61b19deffd5a60ba844af492ec2cc44449c5697b326919703bac031cae7f60"

def key : Bytes := bytesOf "d75a980182b10ab7d54bfed3c964073a0ee172f3daa62325af021a68f707511a"

def receipt : Receipt := ⟨"0.1", "sha256:a1b2", 0, 12, 1762663835, localMarker, unsignedMarker⟩

def digest : Bytes := bytesOf "5ba9a4d2f2a66d3240b2b954da146d1807ff20e859f127d810a31ec36a0aeb3f"

def signature : Bytes :=
  bytesOf "9286cb2e6b1aa8630a8cefa97204f08121c0a493f5f5dac9a88fbc5233de4f10" ++
    bytesOf "1970667e6dbd23a00f061b146425221e06f4f4bccf39581cb6d0855d2959dc03"

/-- The one signature that the sample scheme accepts: that of Ed25519 for the key and the digest
above, and zeros for all others. -/
def accepted (k d : Bytes) : Bytes :=
  if k = key ∧ d = digest then signature else List.replicate SignatureScheme.signatureBytes 0

theorem length_accepted (k d : Bytes) :
    (accepted k d).length = SignatureScheme.signatureBytes := by
  unfold accepted
  split
  · decide +kernel
  · exact List.length_replicate

/-- A scheme that does what Ed25519 does with the seed and the digest above. -/
def scheme : SignatureScheme where
  publicKey s := if s = seed then key else List.replicate SignatureScheme.publicKeyBytes 0
  sign s d := accepted (if s = seed then key else List.replicate SignatureScheme.publicKeyBytes 0) d
  verify k d signature := signature == accepted k d

theorem correct_scheme : scheme.Correct where
  publicKey_length s _ := by
    dsimp only [scheme]
    split
    · decide
    · decide
  sign_length _ d _ := length_accepted _ d
  verify_sign _ _ _ := beq_self_eq_true _

end Sample

/-- A receipt by the caller, signed with a seed in upper case and with white space around it. -/
theorem attest_sample :
    ∃ s, Sample.receipt.attestWith Sample.scheme
        " 9D61B19DEFFD5A60BA844AF492EC2CC44449C5697B326919703BAC031CAE7F60\n" = .ok s ∧
      AttestedBy Sample.scheme Sample.seed Sample.receipt s := by
  have hrange : Sample.receipt.InRange :=
    ⟨by decide, by decide, by decide, by decide, by decide, by decide⟩
  have hscalar : ¬ Sample.receipt.HoldsSurrogate := isScalar_signedText_iff.mp (by decide)
  have hspells : SpellsSeed " 9D61B19DEFFD5A60BA844AF492EC2CC44449C5697B326919703BAC031CAE7F60\n"
      Sample.seed :=
    ⟨" ", "9D61B19DEFFD5A60BA844AF492EC2CC44449C5697B326919703BAC031CAE7F60", "\n", rfl,
      by decide, by decide, Bytes.ofHex?_eq_some_iff.mp (by decide)⟩
  obtain ⟨s, -, hs, hby⟩ :=
    (attest_complete Sample.scheme Sample.correct_scheme).1 Sample.receipt Sample.seed hrange
      hscalar (by decide)
  exact ⟨s, hs _ hspells, hby⟩

end WasmReceipt.Receipt
