import WasmReceipt.Bytes

/-! # Signature schemes

Signing and verifying receipts needs three functions of a detached signature scheme and nothing
else, so all of it is written over a scheme. -/

namespace WasmReceipt

/-- A detached signature scheme over byte strings. -/
structure SignatureScheme where
  /-- The public key of a private seed. -/
  publicKey : Bytes → Bytes
  /-- The signature of a digest under a private seed. -/
  sign : (seed digest : Bytes) → Bytes
  /-- Whether a signature of a digest is accepted under a public key. -/
  verify : (key digest signature : Bytes) → Bool

namespace SignatureScheme

def publicKeyBytes : Nat := 32

def signatureBytes : Nat := 64

def seedBytes : Nat := 32

/-- What a scheme promises: keys and signatures have their lengths, and what a seed signs is
accepted under its public key. -/
structure Correct (scheme : SignatureScheme) : Prop where
  publicKey_length : ∀ seed, seed.length = seedBytes →
    (scheme.publicKey seed).length = publicKeyBytes
  sign_length : ∀ seed digest, seed.length = seedBytes →
    (scheme.sign seed digest).length = signatureBytes
  verify_sign : ∀ seed digest, seed.length = seedBytes →
    scheme.verify (scheme.publicKey seed) digest (scheme.sign seed digest) = true

end SignatureScheme

end WasmReceipt
