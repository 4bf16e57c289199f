import WasmReceipt.Hash.Sha512
import WasmReceipt.Signature

/-! # Ed25519

The signature scheme of RFC 8032 on the curve `-x² + y² = 1 + d x² y²` over the integers modulo
`2²⁵⁵ - 19`. Where the standard leaves a choice, verification takes the plainest one: the scalar
of a signature must be below the group order, the equation is checked without the cofactor and by
comparing the encoding of the computed point with the bytes given, and the height of a key is
reduced modulo the prime, so that every encoding of a point on the curve is a key. -/

namespace WasmReceipt.Ed25519

/-! ## The field -/

def prime : Nat := (1 <<< 255) - 19

def order : Nat := (1 <<< 252) + 27742317777372353535851937790883648493

/-- A power in the field, for an exponent of at most the given count of binary digits. -/
def power (base : Nat) : (digits exponent : Nat) → Nat
  | 0, _ => 1
  | n + 1, e =>
    let half := power (base * base % prime) n (e / 2)
    if e % 2 = 1 then base * half % prime else half

/-- The inverse in the field, and zero for zero. -/
def inverse (x : Nat) : Nat := power x 255 (prime - 2)

/-- The difference in the field. -/
def minus (x y : Nat) : Nat := (x + (prime - y % prime)) % prime

def coefficient : Nat := minus 0 (121665 * inverse 121666 % prime)

def rootOfMinusOne : Nat := power 2 255 ((prime - 1) / 4)

/-- A square root of a quotient, if it has one. -/
def rootOfQuotient (u v : Nat) : Option Nat :=
  let v3 := v * v % prime * v % prime
  let v7 := v3 * v3 % prime * v % prime
  let x := u * v3 % prime * power (u * v7 % prime) 255 ((prime - 5) / 8) % prime
  let check := v * (x * x % prime) % prime
  if check = u % prime then some x
  else if check = minus 0 u then some (x * rootOfMinusOne % prime)
  else none

/-! ## Points -/

/-- A point in extended coordinates: `x = X / Z`, `y = Y / Z` and `x y = T / Z`. -/
structure Point where
  x : Nat
  y : Nat
  z : Nat
  t : Nat

def Point.neutral : Point := ⟨0, 1, 1, 0⟩

def Point.ofAffine (x y : Nat) : Point := ⟨x, y, 1, x * y % prime⟩

def Point.add (p q : Point) : Point :=
  let a := minus p.y p.x * minus q.y q.x % prime
  let b := (p.y + p.x) * (q.y + q.x) % prime
  let c := 2 * p.t * q.t % prime * coefficient % prime
  let d := 2 * p.z * q.z % prime
  let e := minus b a
  let f := minus d c
  let g := d + c
  let h := b + a
  ⟨e * f % prime, g * h % prime, f * g % prime, e * h % prime⟩

def Point.negate (p : Point) : Point := ⟨minus 0 p.x, p.y, p.z, minus 0 p.t⟩

/-- A multiple of a point, for a factor of at most the given count of binary digits. -/
def Point.times (p : Point) : (digits factor : Nat) → Point
  | 0, _ => .neutral
  | n + 1, k =>
    let half := Point.times (p.add p) n (k / 2)
    if k % 2 = 1 then p.add half else half

/-- The height in 255 bits and the parity of the abscissa in the last one. -/
def Point.encode (p : Point) : Bytes :=
  let scale := inverse p.z
  let x := p.x * scale % prime
  let y := p.y * scale % prime
  Bytes.littleEndian 32 (y + (x % 2) <<< 255)

/-- The point that bytes encode. The height is reduced; a zero abscissa has either parity. -/
def Point.decode (bytes : Bytes) : Option Point :=
  let n := Bytes.toNatLittleEndian bytes
  let y := n % (1 <<< 255) % prime
  let square := y * y % prime
  (rootOfQuotient (minus square 1) ((coefficient * square + 1) % prime)).map fun x =>
    .ofAffine (if x % 2 = (n >>> 255) % 2 then x else minus 0 x) y

/-- The base point: height four fifths, even abscissa. -/
def Point.base : Point :=
  (Point.decode (Bytes.littleEndian 32 (4 * inverse 5 % prime))).getD .neutral

/-! ## Keys and signatures -/

/-- The secret scalar of a seed, with the bits that the scheme fixes. -/
def secretScalar (hash : Bytes) : Nat :=
  let n := Bytes.toNatLittleEndian (hash.take 32) % (1 <<< 254)
  (1 <<< 254) + (n - n % 8)

def scalarOf (bytes : Bytes) : Nat := Bytes.toNatLittleEndian (Sha512.digest bytes) % order

def publicKey (seed : Bytes) : Bytes :=
  (Point.base.times 255 (secretScalar (Sha512.digest seed))).encode

def sign (seed message : Bytes) : Bytes :=
  let hash := Sha512.digest seed
  let scalar := secretScalar hash
  let nonce := scalarOf (hash.drop 32 ++ message)
  let commitment := (Point.base.times 253 nonce).encode
  let challenge := scalarOf (commitment ++ publicKey seed ++ message)
  commitment ++ Bytes.littleEndian 32 ((nonce + challenge * scalar) % order)

/-- Whether a signature of a message is accepted under a public key. -/
def verify (key message signature : Bytes) : Bool :=
  let commitment := signature.take 32
  let response := Bytes.toNatLittleEndian (signature.drop 32)
  match Point.decode key with
  | none => false
  | some point =>
    let challenge := scalarOf (commitment ++ key ++ message)
    decide (response < order) &&
      ((Point.base.times 253 response).add (point.negate.times 253 challenge)).encode == commitment

/-- Ed25519 as a signature scheme. -/
def scheme : SignatureScheme := ⟨publicKey, sign, verify⟩

end WasmReceipt.Ed25519
