import WasmReceipt.Bytes

/-! # SHA-512

The hash of FIPS 180-4 as a hasher that takes its message in parts of any size. It keeps the
chaining value of the whole blocks, the bytes that do not fill a block yet, and the length. -/

namespace WasmReceipt.Sha512

/-- The eight words of the chaining value. -/
structure Chain where
  a : UInt64
  b : UInt64
  c : UInt64
  d : UInt64
  e : UInt64
  f : UInt64
  g : UInt64
  h : UInt64

/-- The chaining value before the first block. -/
def Chain.start : Chain :=
  ⟨0x6a09e667f3bcc908, 0xbb67ae8584caa73b, 0x3c6ef372fe94f82b, 0xa54ff53a5f1d36f1,
    0x510e527fade682d1, 0x9b05688c2b3e6c1f, 0x1f83d9abfb41bd6b, 0x5be0cd19137e2179⟩

def roundWords : Array UInt64 :=
  #[0x428a2f98d728ae22, 0x7137449123ef65cd, 0xb5c0fbcfec4d3b2f, 0xe9b5dba58189dbbc,
    0x3956c25bf348b538, 0x59f111f1b605d019, 0x923f82a4af194f9b, 0xab1c5ed5da6d8118,
    0xd807aa98a3030242, 0x12835b0145706fbe, 0x243185be4ee4b28c, 0x550c7dc3d5ffb4e2,
    0x72be5d74f27b896f, 0x80deb1fe3b1696b1, 0x9bdc06a725c71235, 0xc19bf174cf692694,
    0xe49b69c19ef14ad2, 0xefbe4786384f25e3, 0x0fc19dc68b8cd5b5, 0x240ca1cc77ac9c65,
    0x2de92c6f592b0275, 0x4a7484aa6ea6e483, 0x5cb0a9dcbd41fbd4, 0x76f988da831153b5,
    0x983e5152ee66dfab, 0xa831c66d2db43210, 0xb00327c898fb213f, 0xbf597fc7beef0ee4,
    0xc6e00bf33da88fc2, 0xd5a79147930aa725, 0x06ca6351e003826f, 0x142929670a0e6e70,
    0x27b70a8546d22ffc, 0x2e1b21385c26c926, 0x4d2c6dfc5ac42aed, 0x53380d139d95b3df,
    0x650a73548baf63de, 0x766a0abb3c77b2a8, 0x81c2c92e47edaee6, 0x92722c851482353b,
    0xa2bfe8a14cf10364, 0xa81a664bbc423001, 0xc24b8b70d0f89791, 0xc76c51a30654be30,
    0xd192e819d6ef5218, 0xd69906245565a910, 0xf40e35855771202a, 0x106aa07032bbd1b8,
    0x19a4c116b8d2d0c8, 0x1e376c085141ab53, 0x2748774cdf8eeb99, 0x34b0bcb5e19b48a8,
    0x391c0cb3c5c95a63, 0x4ed8aa4ae3418acb, 0x5b9cca4f7763e373, 0x682e6ff3d6b2b8a3,
    0x748f82ee5defb2fc, 0x78a5636f43172f60, 0x84c87814a1f0ab72, 0x8cc702081a6439ec,
    0x90befffa23631e28, 0xa4506cebde82bde9, 0xbef9a3f7b2c67915, 0xc67178f2e372532b,
    0xca273eceea26619c, 0xd186b8c721c0c207, 0xeada7dd6cde0eb1e, 0xf57d4f7fee6ed178,
    0x06f067aa72176fba, 0x0a637dc5a2c898a6, 0x113f9804bef90dae, 0x1b710b35131c471b,
    0x28db77f523047d84, 0x32caab7b40c72493, 0x3c9ebe0a15c9bebc, 0x431d67c49c100d4c,
    0x4cc5d4becb3e42b6, 0x597f299cfc657e2a, 0x5fcb6fab3ad6faec, 0x6c44198c4a475817]

def rotate (x : UInt64) (n : UInt64) : UInt64 := (x >>> n) ||| (x <<< (64 - n))

/-- The words of a block, highest byte first. -/
def wordsOf : Bytes → List UInt64
  | p :: q :: r :: s :: t :: u :: v :: w :: rest =>
    ((p.toUInt64 <<< 56) ||| (q.toUInt64 <<< 48) ||| (r.toUInt64 <<< 40) ||| (s.toUInt64 <<< 32) |||
      (t.toUInt64 <<< 24) ||| (u.toUInt64 <<< 16) ||| (v.toUInt64 <<< 8) ||| w.toUInt64) :: wordsOf rest
  | _ => []

/-- The message schedule, grown from the words of a block by the given count of words. -/
def schedule : Nat → Array UInt64 → Array UInt64
  | 0, w => w
  | n + 1, w =>
    let i := w.size
    let x := w.getD (i - 15) 0
    let y := w.getD (i - 2) 0
    let s0 := rotate x 1 ^^^ rotate x 8 ^^^ (x >>> 7)
    let s1 := rotate y 19 ^^^ rotate y 61 ^^^ (y >>> 6)
    schedule n (w.push (w.getD (i - 16) 0 + s0 + w.getD (i - 7) 0 + s1))

def round (v : Chain) (k w : UInt64) : Chain :=
  let s1 := rotate v.e 14 ^^^ rotate v.e 18 ^^^ rotate v.e 41
  let ch := (v.e &&& v.f) ^^^ ((v.e ^^^ 0xffffffffffffffff) &&& v.g)
  let t1 := v.h + s1 + ch + k + w
  let s0 := rotate v.a 28 ^^^ rotate v.a 34 ^^^ rotate v.a 39
  let maj := (v.a &&& v.b) ^^^ (v.a &&& v.c) ^^^ (v.b &&& v.c)
  ⟨t1 + (s0 + maj), v.a, v.b, v.c, v.d + t1, v.e, v.f, v.g⟩

def compress (v : Chain) (block : Bytes) : Chain :=
  let w := schedule 64 (wordsOf block).toArray
  let u := (List.range 80).foldl (fun u i => round u (roundWords.getD i 0) (w.getD i 0)) v
  ⟨v.a + u.a, v.b + u.b, v.c + u.c, v.d + u.d, v.e + u.e, v.f + u.f, v.g + u.g, v.h + u.h⟩

/-- A hasher: the chaining value, the bytes that wait for a whole block, and the length so far. -/
structure Hasher where
  chain : Chain
  waiting : Bytes
  length : Nat

/-- A hasher that has read nothing. -/
def Hasher.start : Hasher := ⟨Chain.start, [], 0⟩

/-- Compresses the whole blocks at the front and gives the bytes that are left. -/
def absorb (v : Chain) (bytes : Bytes) : Chain × Bytes :=
  let block := bytes.take 128
  if block.length = 128 then absorb (compress v block) (bytes.drop 128) else (v, bytes)
termination_by bytes.length
decreasing_by
  rename_i h
  simp only [block, List.length_take] at h
  simp only [List.length_drop]
  omega

def Hasher.update (h : Hasher) (bytes : Bytes) : Hasher :=
  let (chain, waiting) := absorb h.chain (h.waiting ++ bytes)
  ⟨chain, waiting, h.length + bytes.length⟩

/-- What follows the message: a one bit, zeros, and the length in bits, up to a whole block. -/
def padding (length : Nat) : Bytes :=
  0x80 :: List.replicate ((239 - length % 128) % 128) 0 ++ Bytes.bigEndian 16 (8 * length)

def Chain.toBytes (v : Chain) : Bytes :=
  [v.a, v.b, v.c, v.d, v.e, v.f, v.g, v.h].flatMap fun w => Bytes.bigEndian 8 w.toNat

def Hasher.digest (h : Hasher) : Bytes :=
  (absorb h.chain (h.waiting ++ padding h.length)).1.toBytes

def digest (message : Bytes) : Bytes := (Hasher.start.update message).digest

end WasmReceipt.Sha512
