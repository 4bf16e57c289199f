import WasmReceipt.Manifest
import WasmReceipt.Proofs.FileTree
import WasmReceipt.Proofs.Receipt.KeyMaterial

/-! # Content hashes of files

A hasher may be given its message in parts: whole blocks are compressed as they fill, and what is
left over waits for the next part. The digest is the one of the padded message at once, so a file
that is read in chunks has the content hash of its bytes. -/

namespace WasmReceipt

/-! ## Pieces of one size -/

namespace Bytes

variable {size : Nat} {bytes : Bytes}

/-- Bytes cut into pieces of one size, but for the last piece, which may be shorter. -/
def pieces (size : Nat) (bytes : Bytes) : List Bytes :=
  (List.range ((bytes.length + (size - 1)) / size)).map fun i => (bytes.drop (size * i)).take size

theorem pieces_nil (h : 0 < size) : pieces size [] = [] := by
  have hnone : (([] : Bytes).length + (size - 1)) / size = 0 := by
    rw [List.length_nil, Nat.zero_add]
    exact Nat.div_eq_of_lt (by omega)
  rw [pieces, hnone]
  rfl

/-- The first piece comes off the front. -/
theorem pieces_of_ne_nil (h : 0 < size) (hb : bytes ≠ []) :
    pieces size bytes = bytes.take size :: pieces size (bytes.drop size) := by
  have hlength := List.length_pos_iff.mpr hb
  have hcount : (bytes.length + (size - 1)) / size =
      ((bytes.drop size).length + (size - 1)) / size + 1 := by
    have hfirst : bytes.length + (size - 1) = bytes.length - 1 + size := by omega
    rw [hfirst, Nat.add_div_right _ h, List.length_drop]
    refine congrArg (· + 1) ?_
    by_cases hshort : bytes.length ≤ size
    · rw [Nat.div_eq_of_lt (by omega), Nat.div_eq_of_lt (by omega)]
    · congr 1
      omega
  rw [pieces, hcount, List.range_succ_eq_map, List.map_cons, List.map_map]
  refine congrArg₂ List.cons (by rw [Nat.mul_zero, List.drop_zero]) ?_
  refine List.map_congr_left fun i _ => ?_
  rw [Function.comp_apply, List.drop_drop, Nat.mul_succ, Nat.add_comm size]

/-- Pieces are cut off one by one, so what holds of none and of one more holds of all. -/
theorem pieces_induction {motive : Bytes → Prop} (h : 0 < size) (nil : motive [])
    (cut : ∀ bytes : Bytes, bytes ≠ [] → motive (bytes.drop size) → motive bytes)
    (bytes : Bytes) : motive bytes := by
  by_cases hb : bytes = []
  · rw [hb]
    exact nil
  · exact cut bytes hb (pieces_induction h nil cut (bytes.drop size))
termination_by bytes.length
decreasing_by
  have hlength := List.length_pos_iff.mpr hb
  rw [List.length_drop]
  omega

/-- **No byte is lost or repeated**: the pieces in a row are the bytes. -/
theorem flatten_pieces (h : 0 < size) (bytes : Bytes) : (pieces size bytes).flatten = bytes := by
  induction bytes using pieces_induction h with
  | nil => rw [pieces_nil h, List.flatten_nil]
  | cut bytes hb ih => rw [pieces_of_ne_nil h hb, List.flatten_cons, ih, List.take_append_drop]

end Bytes

namespace Sha256

variable {v : Chain} {a b : Bytes}

theorem absorb_of_short (h : a.length < 64) : absorb v a = (v, a) := by
  have hblock : ¬ (a.take 64).length = 64 := by
    rw [List.length_take]
    omega
  rw [absorb, if_neg hblock]

theorem absorb_of_block (h : 64 ≤ a.length) :
    absorb v a = absorb (compress v (a.take 64)) (a.drop 64) := by
  have hblock : (a.take 64).length = 64 := by
    rw [List.length_take]
    omega
  rw [absorb, if_pos hblock]

/-- What is absorbed in two parts is absorbed as one: what the first part leaves over stands before
the second. -/
theorem absorb_append (v : Chain) (a b : Bytes) :
    absorb v (a ++ b) = absorb (absorb v a).1 ((absorb v a).2 ++ b) := by
  by_cases h : 64 ≤ a.length
  · have happend : 64 ≤ (a ++ b).length := by
      rw [List.length_append]
      omega
    rw [absorb_of_block happend, List.take_append_of_le_length h, List.drop_append_of_le_length h,
      absorb_of_block h]
    exact absorb_append (compress v (a.take 64)) (a.drop 64) b
  · rw [absorb_of_short (Nat.lt_of_not_le h)]
termination_by a.length
decreasing_by
  rw [List.length_drop]
  omega

namespace Hasher

variable {h : Hasher}

/-- No whole block waits. -/
def IsSettled (h : Hasher) : Prop := absorb h.chain h.waiting = (h.chain, h.waiting)

theorem absorb_absorb (v : Chain) (a : Bytes) :
    absorb (absorb v a).1 (absorb v a).2 = absorb v a := by
  have happend := absorb_append v a []
  rw [List.append_nil, List.append_nil] at happend
  exact happend.symm

theorem isSettled_start : start.IsSettled := absorb_of_short (by decide)

theorem isSettled_update (h : Hasher) (a : Bytes) : (h.update a).IsSettled := absorb_absorb _ _

theorem update_nil (hs : h.IsSettled) : h.update [] = h := by
  rw [IsSettled] at hs
  rw [update, List.append_nil, hs]
  rfl

/-- **Two parts of a message are as good as one.** -/
theorem update_update (h : Hasher) (a b : Bytes) : (h.update a).update b = h.update (a ++ b) := by
  simp only [update]
  rw [← List.append_assoc, absorb_append h.chain (h.waiting ++ a) b, List.length_append,
    Nat.add_assoc]

/-- **Any number of parts are as good as one.** -/
theorem foldl_update (hs : h.IsSettled) (parts : List Bytes) :
    parts.foldl update h = h.update parts.flatten := by
  induction parts generalizing h with
  | nil => exact (update_nil hs).symm
  | cons a parts ih =>
    rw [List.foldl_cons, ih (isSettled_update h a), update_update, List.flatten_cons]

end Hasher

/-! ## The digest at once -/

/-- The digest of a message, from the blocks of the padded message. -/
def digestOfBlocks (message : Bytes) : Bytes :=
  ((Bytes.pieces 64 (message ++ padding message.length)).foldl compress Chain.start).toBytes

theorem absorb_of_whole (v : Chain) (h : a.length % 64 = 0) :
    absorb v a = ((Bytes.pieces 64 a).foldl compress v, []) := by
  have hpos : 0 < 64 := by decide
  induction a using Bytes.pieces_induction hpos generalizing v with
  | nil =>
    rw [Bytes.pieces_nil (by decide)]
    exact absorb_of_short (by decide)
  | cut a ha ih =>
    have hlength := List.length_pos_iff.mpr ha
    have hrest : (a.drop 64).length % 64 = 0 := by
      rw [List.length_drop]
      omega
    rw [absorb_of_block (by omega), ih _ hrest, Bytes.pieces_of_ne_nil (by decide) ha,
      List.foldl_cons]

/-- A padded message fills its last block. -/
theorem length_padded (message : Bytes) :
    (message ++ padding message.length).length % 64 = 0 := by
  simp only [padding, Bytes.bigEndian, List.length_append, List.length_cons, List.length_replicate,
    List.length_map, List.length_range]
  omega

/-- **The hasher computes the digest of the whole message.** -/
theorem digest_eq_digestOfBlocks (message : Bytes) : digest message = digestOfBlocks message := by
  have hread : Hasher.start.update message =
      ⟨(absorb Chain.start message).1, (absorb Chain.start message).2, message.length⟩ := by
    rw [Hasher.update, Hasher.start, List.nil_append, Nat.zero_add]
  rw [digest, hread, Hasher.digest, ← absorb_append, absorb_of_whole _ (length_padded message),
    digestOfBlocks]

theorem length_toBytes (v : Chain) : v.toBytes.length = 32 := by
  simp [Chain.toBytes, Bytes.bigEndian]

theorem length_digest (message : Bytes) : (digest message).length = 32 := length_toBytes _

end Sha256

/-! ## Hexadecimal digits -/

namespace CodePoint

def isLowerHex (c : CodePoint) : Bool := c.isDigit || (0x61 ≤ c.val && c.val ≤ 0x66)

theorem isLowerHex_hexDigit {n : Nat} (h : n < 16) : (hexDigit n).isLowerHex = true := by
  have hall : ∀ n < 16, (hexDigit n).isLowerHex = true := by decide
  exact hall n h

end CodePoint

namespace Bytes

theorem length_toHex (bytes : Bytes) : bytes.toHex.length = 2 * bytes.length := by
  induction bytes with
  | nil => rfl
  | cons b bytes ih =>
    rw [toHex, List.flatMap_cons, List.length_append, ← toHex, ih, List.length_cons]
    simp only [hexPair, List.length_cons, List.length_nil]
    omega

theorem isLowerHex_of_mem_toHex {bytes : Bytes} {c : CodePoint} (h : c ∈ bytes.toHex) :
    c.isLowerHex = true := by
  obtain ⟨b, -, hc⟩ := List.mem_flatMap.mp h
  have hb := b.toNat_lt
  simp only [hexPair, List.mem_cons, List.not_mem_nil, or_false] at hc
  rcases hc with rfl | rfl
  · exact CodePoint.isLowerHex_hexDigit (by omega)
  · exact CodePoint.isLowerHex_hexDigit (by omega)

end Bytes

namespace ContentHash

open Sha256

variable {tree : FileTree} {p : Path} {a b content : Bytes} {t : Text}

/-- **Content is fed in chunks**, every byte once and in order, until there is none left. -/
theorem feed_eq_foldl (hasher : Hasher) (content : Bytes) :
    feed hasher content = (Bytes.pieces chunkBytes content).foldl Hasher.update hasher := by
  have hpos : 0 < chunkBytes := by decide
  induction content using Bytes.pieces_induction hpos generalizing hasher with
  | nil =>
    rw [Bytes.pieces_nil hpos, feed, List.take_nil, if_pos List.isEmpty_nil]
    rfl
  | cut content hc ih =>
    have hchunk : ¬ (content.take chunkBytes).isEmpty = true := by
      rw [List.isEmpty_iff, List.take_eq_nil_iff, not_or]
      exact ⟨hpos.ne', hc⟩
    rw [feed, if_neg hchunk, ih, Bytes.pieces_of_ne_nil hpos hc, List.foldl_cons]

theorem digest_feed (content : Bytes) : (feed .start content).digest = digest content := by
  rw [feed_eq_foldl, Hasher.foldl_update Hasher.isSettled_start,
    Bytes.flatten_pieces (by decide), digest]

/-- **The content hash of a file is that of its bytes**, however many chunks it is read in. -/
theorem ofFile_eq_ok_iff :
    ofFile tree p = .ok t ↔ ∃ content, tree.HoldsReadable p content ∧ t = ofBytes content := by
  constructor
  · intro h
    unfold ofFile at h
    obtain ⟨found, hfile, h⟩ := bind_eq_ok h
    cases found with
    | false => cases h
    | true =>
      obtain ⟨content, hread, h⟩ := bind_eq_ok h
      cases h
      exact ⟨content, FileTree.read_eq_ok_iff.mp hread, by rw [digest_feed, ofBytes]⟩
  · rintro ⟨content, hcontent, rfl⟩
    rw [ofFile, FileTree.isFile_of_holdsFile hcontent.holdsFile, FileTree.read_eq_ok_iff.mpr hcontent,
      ofBytes, ← digest_feed]
    rfl

/-- The form of a content hash. -/
theorem exists_digits (content : Bytes) :
    ∃ digits, ofBytes content = scheme ++ digits ∧ digits.length = 64 ∧
      ∀ c ∈ digits, c.isLowerHex = true := by
  refine ⟨(digest content).toHex, rfl, ?_, fun c hc => Bytes.isLowerHex_of_mem_toHex hc⟩
  rw [Bytes.length_toHex, length_digest]

/-- Contents are told apart by their digests, and by nothing else. -/
theorem ofBytes_inj : ofBytes a = ofBytes b ↔ digest a = digest b := by
  constructor
  · intro h
    have hhex : (digest a).toHex = (digest b).toHex := List.append_cancel_left h
    have ha := Bytes.spells_toHex (digest a)
    rw [hhex] at ha
    exact ha.unique (Bytes.spells_toHex (digest b))
  · intro h
    rw [ofBytes, h, ofBytes]

end ContentHash

/-- The manifest of a module file names what the file holds. -/
theorem Manifest.ofModuleFile_eq_ok_iff {tree : FileTree} {p : Path} {limits : Limits}
    {m : Manifest} :
    ofModuleFile tree p limits = .ok m ↔
      ∃ content, tree.HoldsReadable p content ∧
        m = ⟨currentVersion, ContentHash.ofBytes content, limits⟩ := by
  constructor
  · intro h
    unfold ofModuleFile at h
    obtain ⟨moduleHash, hhash, h⟩ := bind_eq_ok h
    obtain ⟨content, hcontent, rfl⟩ := ContentHash.ofFile_eq_ok_iff.mp hhash
    cases h
    exact ⟨content, hcontent, rfl⟩
  · rintro ⟨content, hcontent, rfl⟩
    rw [ofModuleFile, ContentHash.ofFile_eq_ok_iff.mpr ⟨content, hcontent, rfl⟩]
    rfl

end WasmReceipt
