import WasmReceipt.Bytes

/-! # SHA-256

The hash of FIPS 180-4 as a hasher that takes its message in parts of any size. It keeps the
chaining value of the whole blocks, the bytes that do not fill a block yet, and the length. -/

namespace WasmReceipt.Sha256

/-- The eight words of the chaining value. -/
structure Chain where
  a : UInt32
  b : UInt32
  c : UInt32
  d : UInt32
  e : UInt32
  f : UInt32
  g : UInt32
  h : UInt32

/-- The chaining value before the first block. -/
def Chain.start : Chain :=
  ⟨0x6a09e667, 0xbb67ae85, 0x3c6ef372, 0xa54ff53a,
    0x510e527f, 0x9b05688c, 0x1f83d9ab, 0x5be0cd19⟩

def roundWords : Array UInt32 :=
  #[0x428a2f98, 0x71374491, 0xb5c0fbcf, 0xe9b5dba5, 0x3956c25b, 0x59f111f1, 0x923f82a4, 0xab1c5ed5,
    0xd807aa98, 0x12835b01, 0x243185be, 0x550c7dc3, 0x72be5d74, 0x80deb1fe, 0x9bdc06a7, 0xc19bf174,
    0xe49b69c1, 0xefbe4786, 0x0fc19dc6, 0x240ca1cc, 0x2de92c6f, 0x4a7484aa, 0x5cb0a9dc, 0x76f988da,
    0x983e5152, 0xa831c66d, 0xb00327c8, 0xbf597fc7, 0xc6e00bf3, 0xd5a79147, 0x06ca6351, 0x14292967,
    0x27b70a85, 0x2e1b2138, 0x4d2c6dfc, 0x53380d13, 0x650a7354, 0x766a0abb, 0x81c2c92e, 0x92722c85,
    0xa2bfe8a1, 0xa81a664b, 0xc24b8b70, 0xc76c51a3, 0xd192e819, 0xd6990624, 0xf40e3585, 0x106aa070,
    0x19a4c116, 0x1e376c08, 0x2748774c, 0x34b0bcb5, 0x391c0cb3, 0x4ed8aa4a, 0x5b9cca4f, 0x682e6ff3,
    0x748f82ee, 0x78a5636f, 0x84c87814, 0x8cc70208, 0x90befffa, 0xa4506ceb, 0xbef9a3f7, 0xc67178f2]

def rotate (x : UInt32) (n : UInt32) : UInt32 := (x >>> n) ||| (x <<< (32 - n))

/-- The words of a block, highest byte first. -/
def wordsOf : Bytes → List UInt32
  | p :: q :: r :: s :: rest =>
    ((p.toUInt32 <<< 24) ||| (q.toUInt32 <<< 16) ||| (r.toUInt32 <<< 8) ||| s.toUInt32) :: wordsOf rest
  | _ => []

/-- The message schedule, grown from the words of a block by the given count of words. -/
def schedule : Nat → Array UInt32 → Array UInt32
  | 0, w => w
  | n + 1, w =>
    let i := w.size
    let x := w.getD (i - 15) 0
    let y := w.getD (i - 2) 0
    let s0 := rotate x 7 ^^^ rotate x 18 ^^^ (x >>> 3)
    let s1 := rotate y 17 ^^^ rotate y 19 ^^^ (y >>> 10)
    schedule n (w.push (w.getD (i - 16) 0 + s0 + w.getD (i - 7) 0 + s1))

def round (v : Chain) (k w : UInt32) : Chain :=
  let s1 := rotate v.e 6 ^^^ rotate v.e 11 ^^^ rotate v.e 25
  let ch := (v.e &&& v.f) ^^^ ((v.e ^^^ 0xffffffff) &&& v.g)
  let t1 := v.h + s1 + ch + k + w
  let s0 := rotate v.a 2 ^^^ rotate v.a 13 ^^^ rotate v.a 22
  let maj := (v.a &&& v.b) ^^^ (v.a &&& v.c) ^^^ (v.b &&& v.c)
  ⟨t1 + (s0 + maj), v.a, v.b, v.c, v.d + t1, v.e, v.f, v.g⟩

def compress (v : Chain) (block : Bytes) : Chain :=
  let w := schedule 48 (wordsOf block).toArray
  let u := (List.range 64).foldl (fun u i => round u (roundWords.getD i 0) (w.getD i 0)) v
  ⟨v.a + u.a, v.b + u.b, v.c + u.c, v.d + u.d, v.e + u.e, v.f + u.f, v.g + u.g, v.h + u.h⟩

/-- A hasher: the chaining value, the bytes that wait for a whole block, and the length so far. -/
structure Hasher where
  chain : Chain
  waiting : Bytes
  length : Nat

/-- A hasher that has read nothing. -/
def Hasher.start : Hasher := ⟨Chain.start, [], 0⟩

/-- Compresses the whole blocks at the front and gives the bytes that are left. -/
def absorb (v : Chain) (bytes : Bytes) : Chain × Bytes :=
  let block := bytes.take 64
  if block.length = 64 then absorb (compress v block) (bytes.drop 64) else (v, bytes)
termination_by bytes.length
decreasing_by
  rename_i h
  simp only [block, List.length_take] at h
  simp only [List.length_drop]
  omega

def Hasher.update (h : Hasher) (bytes : Bytes) : Hasher :=
  let (chain, waiting) := absorb h.chain (h.waiting ++ bytes)
  ⟨chain, waiting, h.length + bytes.length⟩

/-- What follows the message: a one bit, zeros, and the length in bits, up to a whole block. -/
def padding (length : Nat) : Bytes :=
  0x80 :: List.replicate ((119 - length % 64) % 64) 0 ++ Bytes.bigEndian 8 (8 * length)

def Chain.toBytes (v : Chain) : Bytes :=
  [v.a, v.b, v.c, v.d, v.e, v.f, v.g, v.h].flatMap fun w => Bytes.bigEndian 4 w.toNat

def Hasher.digest (h : Hasher) : Bytes :=
  (absorb h.chain (h.waiting ++ padding h.length)).1.toBytes

def digest (message : Bytes) : Bytes := (Hasher.start.update message).digest

end WasmReceipt.Sha256
