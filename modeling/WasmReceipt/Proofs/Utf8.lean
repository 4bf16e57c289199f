import Mathlib.Data.List.TakeWhile
import WasmReceipt.Proofs.Text
import WasmReceipt.Text.Utf8

/-! # Decoding what was encoded

Encoding refuses exactly the texts that hold a surrogate. The bytes of a character take the decoder
from between two characters to between two characters again, and leave that character behind; so
every decoder gives an encoded text back. -/

namespace WasmReceipt

namespace Utf8

/-! ## What can be encoded -/

theorem firstRefused_eq_none_iff {refuses : CodePoint → Bool} {t : Text} :
    firstRefused refuses t = none ↔ ∀ c ∈ t, refuses c = false := by
  have hall : t.dropWhile (!refuses ·) = [] ↔ ∀ c ∈ t, refuses c = false := by
    rw [List.dropWhile_eq_nil_iff]
    simp only [Bool.not_eq_true']
  rw [← hall, firstRefused]
  cases t.dropWhile (!refuses ·) with
  | nil => exact iff_of_true rfl rfl
  | cons c rest => exact iff_of_false nofun nofun

theorem firstSurrogates_eq_none_iff {t : Text} :
    firstSurrogates t = none ↔ t.isScalar = true := by
  rw [firstSurrogates, firstRefused_eq_none_iff, Text.isScalar_iff]

theorem encode_of_isScalar {t : Text} (h : t.isScalar = true) : encode t = .ok (encodeLoose t) := by
  rw [encode, firstSurrogates_eq_none_iff.mpr h]

theorem encode_eq_ok_iff {t : Text} {bytes : Bytes} :
    encode t = .ok bytes ↔ t.isScalar = true ∧ bytes = encodeLoose t := by
  constructor
  · intro h
    unfold encode at h
    split at h
    · rename_i hn
      cases h
      exact ⟨firstSurrogates_eq_none_iff.mp hn, rfl⟩
    · cases h
  · rintro ⟨hs, rfl⟩
    exact encode_of_isScalar hs

theorem exists_encode_error {t : Text} (h : t.isScalar = false) :
    ∃ fault, encode t = .error fault := by
  unfold encode
  cases hf : firstSurrogates t with
  | none =>
    rw [firstSurrogates_eq_none_iff.mp hf] at h
    cases h
  | some fault => exact ⟨fault, rfl⟩

/-! ## Strings -/

/-- The bytes of a character are those that it has in a string. -/
theorem encodeChar_ofChar (c : Char) :
    encodeChar (CodePoint.ofChar c) = String.utf8EncodeChar c := by
  obtain ⟨n, hn⟩ : ∃ n, c.toNat = n := ⟨_, rfl⟩
  have hpoint : (CodePoint.ofChar c).val = n := hn
  have hchar : c.val.toNat = n := hn
  have hlt : n < 0x110000 := hpoint ▸ (CodePoint.ofChar c).val_lt
  have hbyte {a b : Nat} (h : a = b) : UInt8.ofNat a = UInt8.ofNat b := congrArg UInt8.ofNat h
  simp only [encodeChar, String.utf8EncodeChar, hpoint, hchar]
  by_cases hone : n < 0x80
  · rw [if_pos hone, if_pos (by omega)]
  by_cases htwo : n < 0x800
  · rw [if_neg hone, if_pos htwo, if_neg (by omega), if_pos (by omega)]
    simp only [List.cons.injEq, and_true]
    exact ⟨hbyte (by omega), hbyte (by omega)⟩
  by_cases hthree : n < 0x10000
  · rw [if_neg hone, if_neg htwo, if_pos hthree, if_neg (by omega), if_neg (by omega),
      if_pos (by omega)]
    simp only [List.cons.injEq, and_true]
    exact ⟨hbyte (by omega), hbyte (by omega), hbyte (by omega)⟩
  · rw [if_neg hone, if_neg htwo, if_neg hthree, if_neg (by omega), if_neg (by omega),
      if_neg (by omega)]
    simp only [List.cons.injEq, and_true]
    exact ⟨hbyte (by omega), hbyte (by omega), hbyte (by omega), hbyte (by omega)⟩

/-- **The bytes of a text are those of the string with its characters.** -/
theorem encodeLoose_ofString (s : String) :
    encodeLoose (Text.ofString s) = s.toUTF8.data.toList := by
  have hchars : encodeLoose (Text.ofString s) = s.toList.flatMap String.utf8EncodeChar := by
    rw [encodeLoose, Text.ofString, List.flatMap_map]
    exact congrArg (List.flatMap · s.toList) (funext encodeChar_ofChar)
  rw [hchars, String.toUTF8, ← String.utf8Encode_toList, List.utf8Encode,
    List.toList_data_toByteArray]

end Utf8

/-- A string holds no surrogate, -/
theorem Text.isScalar_ofString (s : String) : (ofString s).isScalar = true := by
  rw [isScalar_iff]
  intro c hc
  obtain ⟨k, -, rfl⟩ := List.mem_map.mp hc
  have hvalid := k.valid
  have hval : k.val.toNat = k.toNat := rfl
  simp only [UInt32.isValidChar, Nat.isValidChar, hval] at hvalid
  rw [CodePoint.isSurrogate, Bool.and_eq_false_iff, decide_eq_false_iff_not,
    decide_eq_false_iff_not, CodePoint.val_ofChar]
  omega

/-- and a text without surrogates is a string. -/
theorem Text.exists_ofString {t : Text} (h : t.isScalar = true) :
    ∃ s : String, t = Text.ofString s := by
  induction t with
  | nil => exact ⟨"", rfl⟩
  | cons c t ih =>
    rw [isScalar_cons, Bool.and_eq_true] at h
    obtain ⟨s, rfl⟩ := ih h.2
    have hvalid : c.val.isValidChar := by
      have hc := c.val_lt
      have hsurrogate : c.isSurrogate = false := by simpa using h.1
      simp only [CodePoint.isSurrogate, Bool.and_eq_false_iff, decide_eq_false_iff_not] at hsurrogate
      unfold Nat.isValidChar
      omega
    refine ⟨String.ofList (Char.ofNatAux c.val hvalid :: s.toList), ?_⟩
    have hchars : ofString (String.ofList (Char.ofNatAux c.val hvalid :: s.toList)) =
        CodePoint.ofChar (Char.ofNatAux c.val hvalid) :: ofString s := by
      rw [ofString, String.toList_ofList, List.map_cons, ofString]
    rw [hchars]
    exact congrArg (· :: ofString s) (CodePoint.val_injective rfl)

namespace Utf8

/-! ## One character -/

section

variable {surrogates : Bool} {done : List Piece}

theorem step_start {b : UInt8} :
    step surrogates ⟨done, none⟩ b = start surrogates done b.toNat := rfl

/-- A continuation byte in range that leaves others owed. -/
theorem step_next (owed : Nat) {low high value taken : Nat} {b : UInt8} (hl : low ≤ b.toNat)
    (hh : b.toNat ≤ high) :
    step surrogates ⟨done, some ⟨owed + 2, low, high, value, taken⟩⟩ b =
      ⟨done, some ⟨owed + 1, 0x80, 0xBF, value * 0x40 + (b.toNat - 0x80), taken + 1⟩⟩ := by
  simp [step, hl, hh]

/-- The last continuation byte. -/
theorem step_last {low high value taken : Nat} {b : UInt8} (hl : low ≤ b.toNat)
    (hh : b.toNat ≤ high) :
    step surrogates ⟨done, some ⟨1, low, high, value, taken⟩⟩ b =
      ⟨.char (CodePoint.ofNat (value * 0x40 + (b.toNat - 0x80))) :: done, none⟩ := by
  simp [step, hl, hh]

theorem toNat_ofNat {n : Nat} (h : n < 0x100) : (UInt8.ofNat n).toNat = n :=
  UInt8.toNat_ofNat_of_lt' (by simpa [UInt8.size] using h)

/-- The first byte of three leaves two owed, and the second one is in range. -/
theorem start_three (done : List Piece) {n : Nat} (hn : 0x800 ≤ n) (hn' : n < 0x10000)
    (hs : surrogates = true ∨ ¬ (0xD800 ≤ n ∧ n < 0xE000)) :
    ∃ low high, start surrogates done (0xE0 + n / 0x1000) =
        ⟨done, some ⟨2, low, high, n / 0x1000, 1⟩⟩ ∧
      low ≤ 0x80 + n / 0x40 % 0x40 ∧ 0x80 + n / 0x40 % 0x40 ≤ high := by
  unfold start
  rw [if_neg (by omega), if_neg (by omega), if_neg (by omega)]
  by_cases h0 : n / 0x1000 = 0
  · refine ⟨0xA0, 0xBF, ?_, by omega, by omega⟩
    rw [if_pos (by omega), h0]
  · rw [if_neg (by omega)]
    by_cases hd : n / 0x1000 = 0xD
    · refine ⟨0x80, if surrogates then 0xBF else 0x9F, ?_, by omega, ?_⟩
      · rw [if_pos (by omega), hd]
      · cases surrogates with
        | true =>
          rw [if_pos rfl]
          omega
        | false =>
          have hn'' : ¬ (0xD800 ≤ n ∧ n < 0xE000) := by simpa using hs
          rw [if_neg (by decide)]
          omega
    · refine ⟨0x80, 0xBF, ?_, by omega, by omega⟩
      rw [if_neg (by omega), if_pos (by omega), Nat.add_sub_cancel_left]

/-- The first byte of four leaves three owed, and the second one is in range. -/
theorem start_four (surrogates : Bool) (done : List Piece) {n : Nat} (hn : 0x10000 ≤ n)
    (hn' : n < 0x110000) :
    ∃ low high, start surrogates done (0xF0 + n / 0x40000) =
        ⟨done, some ⟨3, low, high, n / 0x40000, 1⟩⟩ ∧
      low ≤ 0x80 + n / 0x1000 % 0x40 ∧ 0x80 + n / 0x1000 % 0x40 ≤ high := by
  unfold start
  rw [if_neg (by omega), if_neg (by omega), if_neg (by omega), if_neg (by omega),
    if_neg (by omega), if_neg (by omega)]
  by_cases h0 : n / 0x40000 = 0
  · refine ⟨0x90, 0xBF, ?_, by omega, by omega⟩
    rw [if_pos (by omega), h0]
  · rw [if_neg (by omega)]
    by_cases h4 : n / 0x40000 = 4
    · refine ⟨0x80, 0x8F, ?_, by omega, by omega⟩
      rw [if_neg (by omega), if_pos (by omega), h4]
    · refine ⟨0x80, 0xBF, ?_, by omega, by omega⟩
      rw [if_pos (by omega), Nat.add_sub_cancel_left]

/-- **A character's bytes leave that character behind.** Without surrogates among the characters it
does not matter whether the decoder takes them. -/
theorem foldl_step_encodeChar (c : CodePoint) (hs : surrogates = true ∨ c.isSurrogate = false) :
    (encodeChar c).foldl (step surrogates) ⟨done, none⟩ = ⟨.char c :: done, none⟩ := by
  have hc := c.val_lt
  unfold encodeChar
  dsimp only
  by_cases h1 : c.val < 0x80
  · rw [if_pos h1, List.foldl_cons, List.foldl_nil, step_start, toNat_ofNat (by omega), start,
      if_pos h1, CodePoint.ofNat_val]
  rw [if_neg h1]
  by_cases h2 : c.val < 0x800
  · rw [if_pos h2, List.foldl_cons, List.foldl_cons, List.foldl_nil, step_start,
      toNat_ofNat (by omega), start, if_neg (by omega), if_neg (by omega), if_pos (by omega),
      step_last (by rw [toNat_ofNat] <;> omega) (by rw [toNat_ofNat] <;> omega),
      toNat_ofNat (by omega)]
    rw [show (0xC0 + c.val / 0x40 - 0xC0) * 0x40 + (0x80 + c.val % 0x40 - 0x80) = c.val by omega,
      CodePoint.ofNat_val]
  rw [if_neg h2]
  by_cases h3 : c.val < 0x10000
  · have hs' : surrogates = true ∨ ¬ (0xD800 ≤ c.val ∧ c.val < 0xE000) := by
      simpa [CodePoint.isSurrogate] using hs
    obtain ⟨low, high, hstart, hl, hh⟩ := start_three done (by omega) h3 hs'
    rw [if_pos h3, List.foldl_cons, List.foldl_cons, List.foldl_cons, List.foldl_nil, step_start,
      toNat_ofNat (by omega), hstart, step_next 0 (by rwa [toNat_ofNat (by omega)])
        (by rwa [toNat_ofNat (by omega)]),
      step_last (by rw [toNat_ofNat] <;> omega) (by rw [toNat_ofNat] <;> omega),
      toNat_ofNat (by omega), toNat_ofNat (by omega)]
    rw [show (c.val / 0x1000 * 0x40 + (0x80 + c.val / 0x40 % 0x40 - 0x80)) * 0x40 +
      (0x80 + c.val % 0x40 - 0x80) = c.val by omega, CodePoint.ofNat_val]
  · obtain ⟨low, high, hstart, hl, hh⟩ :=
      start_four surrogates done (n := c.val) (by omega) hc
    rw [if_neg h3, List.foldl_cons, List.foldl_cons, List.foldl_cons, List.foldl_cons,
      List.foldl_nil, step_start, toNat_ofNat (by omega), hstart,
      step_next 1 (by rwa [toNat_ofNat (by omega)]) (by rwa [toNat_ofNat (by omega)]),
      step_next 0 (by rw [toNat_ofNat] <;> omega) (by rw [toNat_ofNat] <;> omega),
      step_last (by rw [toNat_ofNat] <;> omega) (by rw [toNat_ofNat] <;> omega),
      toNat_ofNat (by omega), toNat_ofNat (by omega), toNat_ofNat (by omega)]
    rw [show ((c.val / 0x40000 * 0x40 + (0x80 + c.val / 0x1000 % 0x40 - 0x80)) * 0x40 +
      (0x80 + c.val / 0x40 % 0x40 - 0x80)) * 0x40 + (0x80 + c.val % 0x40 - 0x80) = c.val by omega,
      CodePoint.ofNat_val]

end

/-! ## Whole texts -/

theorem foldl_step_encodeLoose {surrogates : Bool} {t : Text}
    (hs : surrogates = true ∨ t.isScalar = true) (done : List Piece) :
    (encodeLoose t).foldl (step surrogates) ⟨done, none⟩ =
      ⟨(t.map Piece.char).reverse ++ done, none⟩ := by
  induction t generalizing done with
  | nil => rfl
  | cons c t ih =>
    have hc : surrogates = true ∨ c.isSurrogate = false := by
      rcases hs with hs | hs
      · exact .inl hs
      · exact .inr (by simpa using List.all_eq_true.mp hs c List.mem_cons_self)
    have ht : surrogates = true ∨ Text.isScalar t = true := by
      rcases hs with hs | hs
      · exact .inl hs
      · exact .inr (Bool.and_eq_true_iff.mp hs).2
    rw [encodeLoose, List.flatMap_cons, List.foldl_append, foldl_step_encodeChar c hc]
    have := ih ht (.char c :: done)
    rw [encodeLoose] at this
    rw [this]
    simp

/-- The pieces of an encoded text are its characters. -/
theorem pieces_encodeLoose {surrogates : Bool} {t : Text}
    (hs : surrogates = true ∨ t.isScalar = true) :
    pieces surrogates (encodeLoose t) = t.map Piece.char := by
  rw [pieces, foldl_step_encodeLoose hs]
  simp [Position.finish]

theorem decodeReplacing_encodeLoose {t : Text} (h : t.isScalar = true) :
    decodeReplacing (encodeLoose t) = t := by
  rw [decodeReplacing, pieces_encodeLoose (.inr h), List.map_map]
  exact List.map_id t

theorem untilBad_chars (done : Text) (position : Nat) (t : Text) :
    untilBad done position (t.map Piece.char) = .ok (done.reverse ++ t) := by
  induction t generalizing done position with
  | nil => simp [untilBad]
  | cons c t ih =>
    rw [List.map_cons, untilBad, ih]
    simp

/-- The decoder that takes surrogates gives every text back. -/
theorem decodeLoose_encodeLoose (t : Text) : decodeLoose (encodeLoose t) = .ok t := by
  rw [decodeLoose, pieces_encodeLoose (.inl rfl), untilBad_chars]
  rfl

/-- The strict decoder gives back what could be encoded. -/
theorem decode_encodeLoose {t : Text} (h : t.isScalar = true) : decode (encodeLoose t) = .ok t := by
  rw [decode, pieces_encodeLoose (.inr h), untilBad_chars]
  rfl

/-! ## Line by line -/

/-- The position with pieces that were there before. -/
def Position.onto (earlier : List Piece) (p : Position) : Position := ⟨p.pieces ++ earlier, p.begun⟩

section

variable (surrogates : Bool)

theorem start_onto (earlier done : List Piece) (b : Nat) :
    start surrogates (done ++ earlier) b = (start surrogates done b).onto earlier := by
  simp only [start, apply_ite (Position.onto earlier)]
  rfl

/-- What the decoder does next depends on what has begun, and not on the pieces so far. -/
theorem step_onto (earlier : List Piece) (p : Position) (byte : UInt8) :
    step surrogates (p.onto earlier) byte = (step surrogates p byte).onto earlier := by
  obtain ⟨done, begun⟩ := p
  cases begun with
  | none => exact start_onto surrogates earlier done byte.toNat
  | some g =>
    have hanew := start_onto surrogates earlier (.bad .invalidContinuation g.taken :: done)
      byte.toNat
    simp only [step, Position.onto]
    rw [List.cons_append] at hanew
    split
    · split
      · rfl
      · rfl
    · exact hanew

theorem foldl_step_onto (earlier : List Piece) (p : Position) (bytes : Bytes) :
    bytes.foldl (step surrogates) (p.onto earlier) =
      (bytes.foldl (step surrogates) p).onto earlier := by
  induction bytes generalizing p with
  | nil => rfl
  | cons byte bytes ih =>
    rw [List.foldl_cons, List.foldl_cons, step_onto]
    exact ih _

theorem finish_onto (earlier : List Piece) (p : Position) :
    (p.onto earlier).finish = earlier.reverse ++ p.finish := by
  obtain ⟨done, begun⟩ := p
  cases begun with
  | none => simp [Position.onto, Position.finish]
  | some g => simp [Position.onto, Position.finish]

/-- Whatever has begun goes on with a continuation byte. -/
def Position.OwesContinuation (p : Position) : Prop := ∀ g, p.begun = some g → 0x80 ≤ g.low

theorem owesContinuation_start (done : List Piece) (b : Nat) :
    (start surrogates done b).OwesContinuation := by
  unfold start Position.OwesContinuation
  dsimp only
  intro g h
  split_ifs at h <;> cases h <;> simp

theorem owesContinuation_step {p : Position} (byte : UInt8) :
    (step surrogates p byte).OwesContinuation := by
  obtain ⟨done, begun⟩ := p
  cases begun with
  | none => exact owesContinuation_start surrogates done byte.toNat
  | some g =>
    simp only [step]
    split
    · split
      · intro g h
        cases h
      · intro g h
        cases h
        exact Nat.le_refl _
    · exact owesContinuation_start surrogates _ _

theorem owesContinuation_foldl {p : Position} (h : p.OwesContinuation) (bytes : Bytes) :
    (bytes.foldl (step surrogates) p).OwesContinuation := by
  induction bytes generalizing p with
  | nil => exact h
  | cons byte bytes ih => exact ih (owesContinuation_step surrogates byte)

/-- A line feed ends what has begun as the end of the bytes would, and stands behind it. -/
theorem step_lineFeed {p : Position} (h : p.OwesContinuation) :
    ∃ done, step surrogates p 0x0A = ⟨.char (CodePoint.ofChar '\n') :: done, none⟩ ∧
      done.reverse.map Piece.shown = p.finish.map Piece.shown := by
  obtain ⟨done, begun⟩ := p
  cases begun with
  | none => exact ⟨done, rfl, rfl⟩
  | some g =>
    have hlow : ¬ (g.low ≤ (0x0A : UInt8).toNat ∧ (0x0A : UInt8).toNat ≤ g.high) := by
      have hg : 0x80 ≤ g.low := h g rfl
      have hten : (0x0A : UInt8).toNat = 10 := rfl
      omega
    refine ⟨.bad .invalidContinuation g.taken :: done, ?_, ?_⟩
    · simp only [step, if_neg hlow]
      rfl
    · simp [Position.finish, Piece.shown]

end

/-- **Replacing works line by line**: a line feed is kept, and what is decoded on one side of it
does not depend on the other side. -/
theorem decodeReplacing_append_lineFeed (a b : Bytes) :
    decodeReplacing (a ++ 0x0A :: b) =
      decodeReplacing a ++ CodePoint.ofChar '\n' :: decodeReplacing b := by
  have howes : (a.foldl (step false) ⟨[], none⟩).OwesContinuation :=
    owesContinuation_foldl false (fun g h => by cases h) a
  obtain ⟨done, hstep, hdone⟩ := step_lineFeed false howes
  have hrest := foldl_step_onto false (.char (CodePoint.ofChar '\n') :: done) ⟨[], none⟩ b
  have hfresh : Position.onto (.char (CodePoint.ofChar '\n') :: done) ⟨[], none⟩ =
      ⟨.char (CodePoint.ofChar '\n') :: done, none⟩ := rfl
  rw [hfresh] at hrest
  unfold decodeReplacing pieces
  rw [List.foldl_append, List.foldl_cons, hstep, hrest, finish_onto, List.map_append, ← hdone]
  simp [Piece.shown]

end Utf8

end WasmReceipt
