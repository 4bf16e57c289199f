import WasmReceipt.Bytes

/-! # UTF-8

Decoding cuts a byte string into pieces: characters, and bad parts. A bad part is the longest
beginning of a character that the next byte (or the end) leaves unfinished, or one byte that can
begin nothing. Three decoders read the pieces: one that replaces each bad part, one that refuses
at the first, and one that in addition takes the three-byte forms of surrogates as they stand. -/

namespace WasmReceipt.Utf8

/-! ## Encoding -/

/-- The bytes of a code point. Surrogates take the three-byte form like their neighbours. -/
def encodeChar (c : CodePoint) : Bytes :=
  let n := c.val
  if n < 0x80 then [UInt8.ofNat n]
  else if n < 0x800 then [UInt8.ofNat (0xC0 + n / 0x40), UInt8.ofNat (0x80 + n % 0x40)]
  else if n < 0x10000 then
    [UInt8.ofNat (0xE0 + n / 0x1000), UInt8.ofNat (0x80 + n / 0x40 % 0x40),
      UInt8.ofNat (0x80 + n % 0x40)]
  else
    [UInt8.ofNat (0xF0 + n / 0x40000), UInt8.ofNat (0x80 + n / 0x1000 % 0x40),
      UInt8.ofNat (0x80 + n / 0x40 % 0x40), UInt8.ofNat (0x80 + n % 0x40)]

/-- The bytes of a text, surrogates included. -/
def encodeLoose (t : Text) : Bytes := t.flatMap encodeChar

/-- A run of surrogates that stopped an encoding: its first member, its position, its length. -/
structure EncodeFault where
  first : CodePoint
  start : Nat
  length : Nat
deriving DecidableEq

/-- The first code point of a text that is refused, and the surrogates that follow it. -/
def firstRefused (refuses : CodePoint → Bool) (t : Text) : Option EncodeFault :=
  let plain := t.takeWhile (!refuses ·)
  match t.dropWhile (!refuses ·) with
  | [] => none
  | c :: rest =>
    some ⟨c, plain.length, 1 + (rest.takeWhile (·.isSurrogate)).length⟩

def firstSurrogates (t : Text) : Option EncodeFault := firstRefused CodePoint.isSurrogate t

/-- The bytes of a text, which must hold no surrogate. -/
def encode (t : Text) : Except EncodeFault Bytes :=
  match firstSurrogates t with
  | none => .ok (encodeLoose t)
  | some fault => .error fault

/-! ## Decoding -/

/-- Why a part of a byte string is no character. -/
inductive Reason where
  | invalidStart
  | invalidContinuation
  | unexpectedEnd
deriving DecidableEq

/-- A piece of a byte string: a character, or a bad part with its length in bytes. -/
inductive Piece where
  | char (c : CodePoint)
  | bad (reason : Reason) (length : Nat)
deriving DecidableEq

/-- A character that has begun: the continuation bytes still owed, the range of the next one, the
value so far and the bytes taken. -/
structure Begun where
  owed : Nat
  low : Nat
  high : Nat
  value : Nat
  taken : Nat

/-- Why a character that has begun cannot end here. The beginning of a surrogate was lost already
at its second byte, so for it the end comes as no surprise. -/
def Begun.endReason (g : Begun) : Reason :=
  if g.owed = 1 ∧ g.value / 0x20 = 0x1B then .invalidContinuation else .unexpectedEnd

/-- Where the decoder stands: the pieces so far in reverse, and the character that has begun. -/
structure Position where
  pieces : List Piece
  begun : Option Begun

/-- The position after a byte between characters. With `surrogates` the byte `ED` may begin one. -/
def start (surrogates : Bool) (pieces : List Piece) (b : Nat) : Position :=
  let owing (owed low high value : Nat) : Position := ⟨pieces, some ⟨owed, low, high, value, 1⟩⟩
  if b < 0x80 then ⟨.char (CodePoint.ofNat b) :: pieces, none⟩
  else if b < 0xC2 then ⟨.bad .invalidStart 1 :: pieces, none⟩
  else if b < 0xE0 then owing 1 0x80 0xBF (b - 0xC0)
  else if b = 0xE0 then owing 2 0xA0 0xBF 0
  else if b = 0xED then owing 2 0x80 (if surrogates then 0xBF else 0x9F) 0xD
  else if b < 0xF0 then owing 2 0x80 0xBF (b - 0xE0)
  else if b = 0xF0 then owing 3 0x90 0xBF 0
  else if b < 0xF4 then owing 3 0x80 0xBF (b - 0xF0)
  else if b = 0xF4 then owing 3 0x80 0x8F 4
  else ⟨.bad .invalidStart 1 :: pieces, none⟩

/-- The position after one more byte. A byte out of range ends the character that has begun as a
bad part and is read anew. -/
def step (surrogates : Bool) (p : Position) (byte : UInt8) : Position :=
  let b := byte.toNat
  match p.begun with
  | none => start surrogates p.pieces b
  | some g =>
    if g.low ≤ b ∧ b ≤ g.high then
      let value := g.value * 0x40 + (b - 0x80)
      if g.owed = 1 then ⟨.char (CodePoint.ofNat value) :: p.pieces, none⟩
      else ⟨p.pieces, some ⟨g.owed - 1, 0x80, 0xBF, value, g.taken + 1⟩⟩
    else start surrogates (.bad .invalidContinuation g.taken :: p.pieces) b

def Position.finish (p : Position) : List Piece :=
  match p.begun with
  | none => p.pieces.reverse
  | some g => (.bad g.endReason g.taken :: p.pieces).reverse

def pieces (surrogates : Bool) (bytes : Bytes) : List Piece :=
  (bytes.foldl (step surrogates) ⟨[], none⟩).finish

/-- What a piece shows when bad parts are replaced. -/
def Piece.shown : Piece → CodePoint
  | .char c => c
  | .bad _ _ => CodePoint.replacement

/-- Decodes all bytes, with one replacement character for each bad part. -/
def decodeReplacing (bytes : Bytes) : Text := (pieces false bytes).map Piece.shown

/-- A bad part that stopped a decoding: its reason, its first byte, its position, its length. -/
structure DecodeFault where
  reason : Reason
  first : UInt8
  start : Nat
  length : Nat
deriving DecidableEq

/-- The characters before the first bad part, which is given with its position if there is one. -/
def untilBad (done : Text) (position : Nat) : List Piece → Except (Reason × Nat × Nat) Text
  | [] => .ok done.reverse
  | .char c :: rest => untilBad (c :: done) (position + (encodeChar c).length) rest
  | .bad reason length :: _ => .error (reason, position, length)

/-- Decodes bytes that must hold no bad part. -/
def decode (bytes : Bytes) : Except DecodeFault Text :=
  match untilBad [] 0 (pieces false bytes) with
  | .ok t => .ok t
  | .error (reason, start, length) =>
    .error ⟨reason, (bytes.drop start).headD 0, start, length⟩

/-- Decodes bytes that may hold surrogates in their three-byte form, but no other bad part. -/
def decodeLoose (bytes : Bytes) : Except Reason Text :=
  match untilBad [] 0 (pieces true bytes) with
  | .ok t => .ok t
  | .error (reason, _, _) => .error reason

end WasmReceipt.Utf8
