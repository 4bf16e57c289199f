import WasmReceipt.Bytes

/-! # UTF-16 and UTF-32

Code units of two or four bytes, in either byte order. Both decoders take a surrogate that stands
alone; UTF-16 joins the two halves of a pair. Bytes that do not fill a last unit are an error, and
so is a unit that is no code point. -/

namespace WasmReceipt.Units

/-- Which byte of a unit comes first. -/
inductive ByteOrder where
  | little
  | big
deriving DecidableEq

/-- Why bytes are no text. -/
inductive Reason where
  | truncated
  | outOfRange
deriving DecidableEq

/-! ## UTF-16 -/

def unit16 (order : ByteOrder) (n : Nat) : Bytes :=
  match order with
  | .little => [UInt8.ofNat n, UInt8.ofNat (n / 0x100)]
  | .big => [UInt8.ofNat (n / 0x100), UInt8.ofNat n]

/-- One unit for a code point below 0x10000, and a pair for every other. -/
def encodeChar16 (order : ByteOrder) (c : CodePoint) : Bytes :=
  if c.val < 0x10000 then unit16 order c.val
  else
    unit16 order (0xD800 + (c.val - 0x10000) / 0x400) ++
      unit16 order (0xDC00 + (c.val - 0x10000) % 0x400)

def encode16 (order : ByteOrder) (t : Text) : Bytes := t.flatMap (encodeChar16 order)

def value16 (order : ByteOrder) (a b : UInt8) : Nat :=
  match order with
  | .little => a.toNat + 0x100 * b.toNat
  | .big => 0x100 * a.toNat + b.toNat

/-- Puts a unit behind the text so far, which is kept in reverse: a low surrogate joins a high one
in front of it. -/
def push16 (done : Text) (c : CodePoint) : Text :=
  match done with
  | h :: rest =>
    if h.isHighSurrogate && c.isLowSurrogate then CodePoint.joinSurrogates h c :: rest
    else c :: done
  | [] => [c]

/-- Decodes units onto the text so far, which is kept in reverse. -/
def read16 (order : ByteOrder) (done : Text) : Bytes → Except Reason Text
  | [] => .ok done.reverse
  | [_] => .error .truncated
  | a :: b :: rest => read16 order (push16 done (CodePoint.ofNat (value16 order a b))) rest

def decode16 (order : ByteOrder) (bytes : Bytes) : Except Reason Text := read16 order [] bytes

/-! ## UTF-32 -/

def encodeChar32 (order : ByteOrder) (c : CodePoint) : Bytes :=
  match order with
  | .little => Bytes.littleEndian 4 c.val
  | .big => Bytes.bigEndian 4 c.val

def encode32 (order : ByteOrder) (t : Text) : Bytes := t.flatMap (encodeChar32 order)

def value32 (order : ByteOrder) (a b c d : UInt8) : Nat :=
  match order with
  | .little => a.toNat + 0x100 * (b.toNat + 0x100 * (c.toNat + 0x100 * d.toNat))
  | .big => d.toNat + 0x100 * (c.toNat + 0x100 * (b.toNat + 0x100 * a.toNat))

/-- Decodes units onto the text so far, which is kept in reverse. -/
def read32 (order : ByteOrder) (done : Text) : Bytes → Except Reason Text
  | [] => .ok done.reverse
  | a :: b :: c :: d :: rest =>
    if h : value32 order a b c d < 0x110000 then read32 order (⟨_, h⟩ :: done) rest
    else .error .outOfRange
  | _ => .error .truncated

def decode32 (order : ByteOrder) (bytes : Bytes) : Except Reason Text := read32 order [] bytes

end WasmReceipt.Units
