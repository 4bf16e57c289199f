import WasmReceipt.ContentHash
import WasmReceipt.Receipt
import WasmReceipt.Signature

/-! # Attesting and verifying receipts

A node signs the SHA-256 digest of the signed text of a receipt. Verification tells three things
apart: the receipt checks out, the signature does not match, or nothing could be checked because
key material is missing or malformed. Only the last is a failure. -/

namespace WasmReceipt

/-- The bytes of key material in hexadecimal, which must have a given length. -/
def keyMaterial (t : Text) (length : Nat) (what : Text) : Except Failure Bytes :=
  match Bytes.ofHex? t with
  | none => .error (.notHex what)
  | some bytes =>
    if bytes.length = length then .ok bytes
    else .error (.wrongLength what length bytes.length)

/-- Key material given as a value, which may be no text at all. -/
def keyMaterialOfValue (v : Json) (length : Nat) (what : Text) : Except Failure Bytes :=
  match v with
  | .string t => keyMaterial t length what
  | _ => .error (.notHex what)

/-- The digest of a text: what is signed in its place. -/
def messageDigest (message : Text) : Except Failure Bytes :=
  match Utf8.encode message with
  | .ok bytes => .ok (Sha256.digest bytes)
  | .error fault => .error (.unencodable fault)

/-! ## Signing -/

/-- The private seed that a text spells, with any white space around it. -/
def seedOfText (t : Text) : Except Failure Bytes :=
  keyMaterial (t.strip CodePoint.isBlank) SignatureScheme.seedBytes "private key"

namespace SignatureScheme

/-- The signature of a text under a seed, in hexadecimal. -/
def signText (scheme : SignatureScheme) (seed : Bytes) (message : Text) : Except Failure Text := do
  let digest ← messageDigest message
  return Bytes.toHex (scheme.sign seed digest)

/-- The public key of a seed, in hexadecimal. -/
def publicKeyText (scheme : SignatureScheme) (seed : Bytes) : Text :=
  Bytes.toHex (scheme.publicKey seed)

/-! ## Verifying -/

/-- The public key that a text spells. The marker of local executions is never one. -/
def keyOfText (t : Text) : Except Failure Bytes :=
  if t = Receipt.localMarker then .error .markerAsKey
  else keyMaterial t publicKeyBytes "public key"

/-- Whether a signature of a text is accepted under a key, both in hexadecimal. -/
def verifyText (scheme : SignatureScheme) (message signature key : Text) : Except Failure Bool := do
  let digest ← messageDigest message
  let key ← keyOfText key
  let signature ← keyMaterial signature signatureBytes "signature"
  return scheme.verify key digest signature

end SignatureScheme

namespace Receipt

/-- The receipt with a node's key and signature in place of whatever vouched before. -/
def attest (scheme : SignatureScheme) (r : Receipt) (seed : Bytes) : Except Failure Receipt := do
  let signature ← scheme.signText seed (← r.message)
  return { r with nodeKey := scheme.publicKeyText seed, signature := signature }

/-- The receipt attested with a seed in hexadecimal. -/
def attestWith (scheme : SignatureScheme) (r : Receipt) (seed : Text) : Except Failure Receipt := do
  let seed ← seedOfText seed
  r.attest scheme seed

/-- Whether a receipt checks out: against the given key if there is one, and else against its own.
The receipt of an execution by the caller always does. -/
def verify (scheme : SignatureScheme) (r : Receipt) (key : Option Text) : Except Failure Bool :=
  match r.trust with
  | .caller => .ok true
  | .node own signature =>
    let key := key.getD own
    if key.isEmpty then .error .noPublicKey
    else if signature.isEmpty || signature == unsignedMarker then .error .noSignature
    else do scheme.verifyText (← r.message) signature key

end Receipt

end WasmReceipt
