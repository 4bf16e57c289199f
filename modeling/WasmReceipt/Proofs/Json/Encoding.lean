import WasmReceipt.Json.Encoding
import WasmReceipt.Proofs.Units
import WasmReceipt.Proofs.Utf8

/-! # Documents in bytes

A document in UTF-8 is told from the other encodings as long as it does not begin with U+FEFF and
there is no NUL at its front; any document is told from the others when it begins with two ASCII
characters. It is then read like its text. -/

namespace WasmReceipt

/-! ## The first bytes of UTF-8 -/

namespace Utf8

variable {c : CodePoint} {t : Text}

theorem ofNat_ne_zero {n : Nat} (hn : n ≠ 0) (hlt : n < 0x100) : UInt8.ofNat n ≠ 0 := by
  intro h
  have hval := congrArg UInt8.toNat h
  rw [toNat_ofNat hlt] at hval
  exact hn hval

theorem encodeChar_ne_nil (c : CodePoint) : encodeChar c ≠ [] := by
  unfold encodeChar
  dsimp only
  split_ifs <;> simp

theorem encodeChar_of_ascii (h : c.val < 0x80) : encodeChar c = [UInt8.ofNat c.val] := by
  rw [encodeChar, if_pos h]

/-- No byte of a character is zero, unless the character is NUL. -/
theorem ne_zero_of_mem_encodeChar (h : c.val ≠ 0) : ∀ b ∈ encodeChar c, b ≠ 0 := by
  have hc := c.val_lt
  unfold encodeChar
  dsimp only
  split_ifs
  all_goals simp only [List.forall_mem_cons, List.not_mem_nil, false_implies, implies_true, and_true]
  · exact ofNat_ne_zero h (by omega)
  · exact ⟨ofNat_ne_zero (by omega) (by omega), ofNat_ne_zero (by omega) (by omega)⟩
  · exact ⟨ofNat_ne_zero (by omega) (by omega), ofNat_ne_zero (by omega) (by omega),
      ofNat_ne_zero (by omega) (by omega)⟩
  · exact ⟨ofNat_ne_zero (by omega) (by omega), ofNat_ne_zero (by omega) (by omega),
      ofNat_ne_zero (by omega) (by omega), ofNat_ne_zero (by omega) (by omega)⟩

/-- The bytes from F5 on begin no character. -/
theorem lt_of_head?_encodeChar {b : UInt8} (h : (encodeChar c).head? = some b) : b < 0xF5 := by
  have hc := c.val_lt
  have hlt {n : Nat} (hn : n < 0xF5) : UInt8.ofNat n < 0xF5 := by
    rw [UInt8.lt_iff_toNat_lt, toNat_ofNat (by omega)]
    exact hn
  unfold encodeChar at h
  dsimp only at h
  split_ifs at h
  all_goals
    cases h
    exact hlt (by omega)

/-- A character at the front is the first piece. -/
theorem pieces_encodeChar_append (c : CodePoint) (rest : Bytes) :
    pieces true (encodeChar c ++ rest) = .char c :: pieces true rest := by
  have honto := foldl_step_onto true [.char c] ⟨[], none⟩ rest
  unfold pieces
  rw [List.foldl_append, foldl_step_encodeChar c (.inl rfl)]
  change (rest.foldl (step true) (Position.onto [.char c] ⟨[], none⟩)).finish = _
  rw [honto, finish_onto]
  rfl

/-- A text whose bytes begin with a character begins with that character. -/
theorem head?_of_encodeChar_prefix (h : encodeChar c <+: encodeLoose t) : t.head? = some c := by
  obtain ⟨rest, hrest⟩ := h
  have hpieces : pieces true (encodeLoose t) = t.map Piece.char := pieces_encodeLoose (.inl rfl)
  rw [← hrest, pieces_encodeChar_append] at hpieces
  cases t with
  | nil => cases hpieces
  | cons d t =>
    obtain ⟨hchar, -⟩ := List.cons.inj hpieces
    cases hchar
    rfl

end Utf8

/-! ## How a text may begin -/

namespace Text

/-- A text does not begin with a byte order mark, and neither of its first two code points is
NUL. -/
structure IsUnmarked (t : Text) : Prop where
  noMark : ∀ c, t.head? = some c → c.val ≠ 0xFEFF
  noNul : ∀ c ∈ t.take 2, c.val ≠ 0

def BeginsAsciiTwice (t : Text) : Prop :=
  ∃ c d rest, t = c :: d :: rest ∧ (c.val ≠ 0 ∧ c.val < 0x80) ∧ d.val ≠ 0 ∧ d.val < 0x80

end Text

namespace Json

/-! ## Encodings and their marks -/

namespace Encoding

variable {e : Encoding} {t : Text}

/-- The bytes of a text in an encoding. -/
def encode : Encoding → Text → Bytes
  | .utf8, t => Utf8.encodeLoose t
  | .utf16 order, t => Units.encode16 order t
  | .utf32 order, t => Units.encode32 order t

def mark (e : Encoding) : Bytes := e.encode [CodePoint.ofNat 0xFEFF]

def decode : Encoding → Bytes → Except EncodingFault Text
  | .utf8, bytes => (Utf8.decodeLoose bytes).mapError .utf8
  | .utf16 order, bytes => (Units.decode16 order bytes).mapError .units
  | .utf32 order, bytes => (Units.decode32 order bytes).mapError .units

/-- UTF-8 carries every text, and so does every other encoding if there is no surrogate in it. -/
theorem decode_encode (h : e = .utf8 ∨ t.isScalar = true) : e.decode (e.encode t) = .ok t := by
  cases e with
  | utf8 => rw [encode, decode, Utf8.decodeLoose_encodeLoose]; rfl
  | utf16 order =>
    have hscalar : t.isScalar = true := h.resolve_left (by simp)
    rw [encode, decode, Units.decode16_encode16 hscalar]
    rfl
  | utf32 order => rw [encode, decode, Units.decode32_encode32]; rfl

/-- The first bytes of a text that begins with two ASCII characters. -/
def lead : Encoding → UInt8 → UInt8 → Bytes
  | .utf8, a, b => [a, b]
  | .utf16 .little, a, b => [a, 0, b, 0]
  | .utf16 .big, a, b => [0, a, 0, b]
  | .utf32 .little, a, _ => [a, 0, 0, 0]
  | .utf32 .big, a, _ => [0, 0, 0, a]

end Encoding

theorem decode_of_detect {bytes : Bytes} {e : Encoding} {n : Nat} (h : detect bytes = (e, n)) :
    decode bytes = e.decode (bytes.drop n) := by
  unfold decode
  rw [h]
  cases e <;> rfl

/-! ## Telling encodings apart -/

theorem unmarked_of_ne_zero {bytes : Bytes} (h : ∀ b ∈ bytes.take 2, b ≠ 0) :
    unmarked bytes = .utf8 := by
  have hpair {a b : UInt8} {rest : Bytes} (heq : bytes = a :: b :: rest) : a ≠ 0 ∧ b ≠ 0 := by
    rw [heq] at h
    simpa using h
  unfold unmarked
  split
  · obtain ⟨ha, hb⟩ := hpair rfl
    rw [if_neg ha, if_neg hb]
  · obtain ⟨ha, hb⟩ := hpair rfl
    rw [if_neg ha, if_neg hb]
  · rfl

/-- Without zeros at the front, and without its mark, bytes are in UTF-8. -/
theorem detect_of_ne_zero {bytes : Bytes} (hzero : ∀ b ∈ bytes.take 2, b ≠ 0)
    (hfirst : ∀ b, bytes.head? = some b → b < 0xF5) (hmark : ¬ Encoding.utf8.mark <+: bytes) :
    detect bytes = (.utf8, 0) := by
  have hnone : byteOrderMarks.find? (·.1.isPrefixOf bytes) = none := by
    rw [List.find?_eq_none]
    intro found hfound
    rw [List.isPrefixOf_iff_prefix]
    have hhead {a : UInt8} {mark : Bytes} (h : a :: mark <+: bytes) : a ≠ 0 ∧ a < 0xF5 := by
      obtain ⟨rest, rfl⟩ := h
      exact ⟨hzero a (by simp), hfirst a rfl⟩
    simp only [byteOrderMarks, List.mem_cons, List.not_mem_nil, or_false] at hfound
    rcases hfound with rfl | rfl | rfl | rfl | rfl
    · exact fun h => (hhead h).1 rfl
    · exact fun h => absurd (hhead h).2 (by decide)
    · exact fun h => absurd (hhead h).2 (by decide)
    · exact fun h => absurd (hhead h).2 (by decide)
    · exact hmark
  rw [detect, hnone]
  exact congrArg (·, 0) (unmarked_of_ne_zero hzero)

theorem ne_zero_of_mem_encodeLoose {t : Text} (h : ∀ c ∈ t.take 2, c.val ≠ 0) :
    ∀ b ∈ (Utf8.encodeLoose t).take 2, b ≠ 0 := by
  have hall : ∀ b ∈ Utf8.encodeLoose (t.take 2), b ≠ 0 := by
    intro b hb
    obtain ⟨c, hc, hbc⟩ := List.mem_flatMap.mp hb
    exact Utf8.ne_zero_of_mem_encodeChar (h c hc) b hbc
  -- two characters take two bytes at least
  have htake : ∀ b ∈ (Utf8.encodeLoose t).take 2, b ∈ Utf8.encodeLoose (t.take 2) := by
    have hpos (c : CodePoint) : 0 < (Utf8.encodeChar c).length :=
      List.length_pos_iff.mpr (Utf8.encodeChar_ne_nil c)
    match t with
    | [] => exact fun b hb => hb
    | [c] => exact fun b hb => List.mem_of_mem_take hb
    | c :: d :: rest =>
      intro b hb
      have hsplit : Utf8.encodeLoose (c :: d :: rest) =
          Utf8.encodeLoose [c, d] ++ Utf8.encodeLoose rest := by
        simp [Utf8.encodeLoose]
      have hlength : 2 ≤ (Utf8.encodeLoose [c, d]).length := by
        have hc := hpos c
        have hd := hpos d
        simp only [Utf8.encodeLoose, List.flatMap_cons, List.flatMap_nil, List.length_append,
          List.length_nil]
        omega
      rw [hsplit, List.take_append_of_le_length hlength] at hb
      exact List.mem_of_mem_take hb
  exact fun b hb => hall b (htake b hb)

/-- **A text in UTF-8 is told from the other encodings** unless something at its front misleads. -/
theorem detect_encodeLoose {t : Text} (h : t.IsUnmarked) :
    detect (Utf8.encodeLoose t) = (.utf8, 0) := by
  refine detect_of_ne_zero (ne_zero_of_mem_encodeLoose h.noNul) ?_ ?_
  · intro b hb
    cases t with
    | nil => cases hb
    | cons c t =>
      rw [Utf8.encodeLoose, List.flatMap_cons, List.head?_append,
        List.head?_eq_some_head (Utf8.encodeChar_ne_nil c), Option.some_or,
        ← List.head?_eq_some_head (Utf8.encodeChar_ne_nil c)] at hb
      exact Utf8.lt_of_head?_encodeChar hb
  · intro hmark
    have hhead := Utf8.head?_of_encodeChar_prefix (c := CodePoint.ofNat 0xFEFF) (t := t) hmark
    exact h.noMark _ hhead rfl

theorem detect_mark (bytes : Bytes) :
    detect (Encoding.utf8.mark ++ bytes) = (.utf8, Encoding.utf8.mark.length) := rfl

section

variable {a b : UInt8} (ha : a ≠ 0) (ha' : a < 0x80) (hb : b ≠ 0)

include ha ha' in
/-- No mark begins as a text does that begins with ASCII. -/
theorem find?_byteOrderMarks_lead (e : Encoding) (rest : Bytes) :
    byteOrderMarks.find? (·.1.isPrefixOf (e.lead a b ++ rest)) = none := by
  have hmark {n : UInt8} (hn : ¬ n < 0x80) : (n == a) = false := by
    refine beq_false_of_ne ?_
    rintro rfl
    exact hn ha'
  have hzero : ((0 : UInt8) == a) = false := beq_false_of_ne ha.symm
  have hFE : ((0xFE : UInt8) == a) = false := hmark (by decide)
  have hFF : ((0xFF : UInt8) == a) = false := hmark (by decide)
  have hEF : ((0xEF : UInt8) == a) = false := hmark (by decide)
  match e with
  | .utf8 | .utf16 .little | .utf32 .little =>
    simp [Encoding.lead, byteOrderMarks, List.isPrefixOf, hzero, hFE, hFF, hEF]
  | .utf16 .big | .utf32 .big =>
    simp [Encoding.lead, byteOrderMarks, List.isPrefixOf, hzero]

include ha hb in
/-- The zeros among the first bytes tell the encoding. -/
theorem unmarked_lead (e : Encoding) (rest : Bytes) : unmarked (e.lead a b ++ rest) = e := by
  match e with
  | .utf8 => exact unmarked_of_ne_zero (by simp [Encoding.lead, ha, hb])
  | .utf16 .little => simp [Encoding.lead, unmarked, ha, hb]
  | .utf16 .big => simp [Encoding.lead, unmarked, ha]
  | .utf32 .little => simp [Encoding.lead, unmarked, ha]
  | .utf32 .big => simp [Encoding.lead, unmarked]

include ha in
theorem detect_mark_lead (e : Encoding) (rest : Bytes) :
    detect (e.mark ++ (e.lead a b ++ rest)) = (e, e.mark.length) := by
  match e with
  | .utf8 => exact detect_mark _
  | .utf16 .little =>
    -- its mark is the beginning of another one, which goes on with zeros
    have hmark : Encoding.mark (.utf16 .little) = [0xFF, 0xFE] := rfl
    have hzero : ((0 : UInt8) == a) = false := beq_false_of_ne ha.symm
    simp [hmark, Encoding.lead, detect, byteOrderMarks, List.isPrefixOf, hzero]
  | .utf16 .big | .utf32 .little | .utf32 .big => rfl

end

theorem exists_lead {t : Text} (h : t.BeginsAsciiTwice) (e : Encoding) :
    ∃ a b rest, a ≠ 0 ∧ a < 0x80 ∧ b ≠ 0 ∧ e.encode t = e.lead a b ++ rest := by
  obtain ⟨c, d, t, rfl, ⟨hc, hc'⟩, hd, hd'⟩ := h
  have hc0 : UInt8.ofNat c.val ≠ 0 := Utf8.ofNat_ne_zero hc (by omega)
  have hd0 : UInt8.ofNat d.val ≠ 0 := Utf8.ofNat_ne_zero hd (by omega)
  have hlt : UInt8.ofNat c.val < 0x80 := by
    rw [UInt8.lt_iff_toNat_lt, Utf8.toNat_ofNat (by omega)]
    exact hc'
  refine ⟨UInt8.ofNat c.val, UInt8.ofNat d.val, ?_⟩
  match e with
  | .utf8 =>
    refine ⟨Utf8.encodeLoose t, hc0, hlt, hd0, ?_⟩
    rw [Encoding.encode, Utf8.encodeLoose, List.flatMap_cons, List.flatMap_cons,
      Utf8.encodeChar_of_ascii hc', Utf8.encodeChar_of_ascii hd']
    rfl
  | .utf16 order =>
    refine ⟨Units.encode16 order t, hc0, hlt, hd0, ?_⟩
    rw [Encoding.encode, Units.encode16, List.flatMap_cons, List.flatMap_cons,
      Units.encodeChar16_of_ascii order hc', Units.encodeChar16_of_ascii order hd']
    cases order <;> rfl
  | .utf32 order =>
    refine ⟨Units.encode32 order (d :: t), hc0, hlt, hd0, ?_⟩
    rw [Encoding.encode, Units.encode32, List.flatMap_cons,
      Units.encodeChar32_of_ascii order hc']
    cases order <;> rfl

/-- **A text that begins with two ASCII characters is told by them**, in every encoding, -/
theorem detect_encode {t : Text} (h : t.BeginsAsciiTwice) (e : Encoding) :
    detect (e.encode t) = (e, 0) := by
  obtain ⟨a, b, rest, ha, ha', hb, hbytes⟩ := exists_lead h e
  rw [hbytes, detect, find?_byteOrderMarks_lead ha ha']
  exact congrArg (·, 0) (unmarked_lead ha hb e rest)

/-- and behind its mark. -/
theorem detect_mark_encode {t : Text} (h : t.BeginsAsciiTwice) (e : Encoding) :
    detect (e.mark ++ e.encode t) = (e, e.mark.length) := by
  obtain ⟨a, b, rest, ha, -, -, hbytes⟩ := exists_lead h e
  rw [hbytes]
  exact detect_mark_lead ha e rest

/-! ## Reading documents in bytes -/

/-- Bytes that decode to a text are read like it. -/
theorem readDocument_of_decode {t : Text} {bytes : Bytes} (h : decode bytes = .ok t)
    (hm : ∀ c, t.head? = some c → c.val ≠ 0xFEFF) :
    readDocument (.bytes bytes) = readDocument (.text t) := by
  have hmark : t.head?.any (·.val == 0xFEFF) = false := by
    cases hhead : t.head? with
    | none => rfl
    | some c => simpa using hm c hhead
  simp only [readDocument, h, hmark, Bool.false_eq_true, if_false]

/-- Bytes that are told to be in an encoding, behind as many others, are read like the text. -/
theorem readDocument_of_detect {t : Text} {e : Encoding} {mark : Bytes}
    (hdetect : detect (mark ++ e.encode t) = (e, mark.length))
    (hcarries : e = .utf8 ∨ t.isScalar = true) (hm : ∀ c, t.head? = some c → c.val ≠ 0xFEFF) :
    readDocument (.bytes (mark ++ e.encode t)) = readDocument (.text t) := by
  refine readDocument_of_decode ?_ hm
  rw [decode_of_detect hdetect, List.drop_left, Encoding.decode_encode hcarries]

/-- **A document in UTF-8 is read like its text**, with its mark or without, -/
theorem readDocument_utf8 {t : Text} (h : t.IsUnmarked) :
    ∀ mark ∈ [[], Encoding.utf8.mark],
      readDocument (.bytes (mark ++ Encoding.utf8.encode t)) = readDocument (.text t) := by
  simp only [List.forall_mem_cons, List.not_mem_nil, false_implies, implies_true, and_true]
  exact ⟨readDocument_of_detect (detect_encodeLoose h) (.inl rfl) h.noMark,
    readDocument_of_detect (detect_mark _) (.inl rfl) h.noMark⟩

/-- and so is a document in any encoding that begins with two ASCII characters. -/
theorem readDocument_encode {t : Text} (h : t.BeginsAsciiTwice) (hs : t.isScalar = true)
    (e : Encoding) : ∀ mark ∈ [[], e.mark],
      readDocument (.bytes (mark ++ e.encode t)) = readDocument (.text t) := by
  have hmark : ∀ c, t.head? = some c → c.val ≠ 0xFEFF := by
    obtain ⟨c, d, t, rfl, ⟨-, hc⟩, -⟩ := h
    rintro x ⟨⟩
    omega
  simp only [List.forall_mem_cons, List.not_mem_nil, false_implies, implies_true, and_true]
  exact ⟨readDocument_of_detect (detect_encode h e) (.inr hs) hmark,
    readDocument_of_detect (detect_mark_encode h e) (.inr hs) hmark⟩

def BeginsAscii (t : Text) : Prop :=
  ∃ c d rest, t = c :: d :: rest ∧ c.val ≠ 0 ∧ c.val < 0x80 ∧ d.val ≠ 0

theorem BeginsAscii.isUnmarked {t : Text} (h : BeginsAscii t) : t.IsUnmarked := by
  obtain ⟨c, d, t, rfl, hc, hc', hd⟩ := h
  constructor
  · rintro x ⟨⟩
    omega
  · simp [hc, hd]

theorem decode_encodeLoose {t : Text} (h : BeginsAscii t) :
    decode (Utf8.encodeLoose t) = .ok t := by
  rw [decode_of_detect (detect_encodeLoose h.isUnmarked)]
  exact Encoding.decode_encode (.inl rfl)

theorem readDocument_encodeLoose {t : Text} (h : BeginsAscii t) :
    readDocument (.bytes (Utf8.encodeLoose t)) = readDocument (.text t) :=
  readDocument_utf8 h.isUnmarked [] List.mem_cons_self

end Json

end WasmReceipt
