import WasmReceipt.Json.Printer
import WasmReceipt.Proofs.Text

/-! # The text of strings

A string is written in pieces: code points that stand for themselves, raw or in a short escape, and
units of sixteen bits in escapes. Units of a pair that stand side by side mean one code point, so a
string whose surrogates are written as units comes back with every adjacent pair joined. -/

namespace WasmReceipt

/-- A text with every adjacent surrogate pair joined. -/
def Text.paired : Text → Text
  | high :: low :: rest =>
    if high.isHighSurrogate && low.isLowSurrogate then
      CodePoint.joinSurrogates high low :: paired rest
    else high :: paired (low :: rest)
  | t => t

theorem Text.paired_of_isScalar {t : Text} (h : t.isScalar = true) : t.paired = t := by
  induction t using paired.induct with
  | case1 high low rest hpair ih =>
    rw [Bool.and_eq_true] at hpair
    rw [isScalar_cons, CodePoint.isSurrogate_of_isHighSurrogate hpair.1] at h
    cases h
  | case2 high low rest hpair ih =>
    rw [isScalar_cons, Bool.and_eq_true] at h
    rw [paired, if_neg hpair, ih h.2]
  | case3 t ht =>
    rw [paired]
    exact ht

namespace Json

/-- A piece of a string: a code point by itself, or a unit in an escape. -/
inductive Piece where
  | plain (c : CodePoint)
  | unit (c : CodePoint)

namespace Piece

inductive Spells : Text → Piece → Prop
  | raw {c : CodePoint} : c.is '"' = false → c.is '\\' = false → 0x20 ≤ c.val →
      Spells [c] (.plain c)
  | short {e c : CodePoint} : shortEscape? e = some c →
      Spells [CodePoint.ofChar '\\', e] (.plain c)
  | unit {a b x d c : CodePoint} : hexUnit? a b x d = some c →
      Spells [CodePoint.ofChar '\\', CodePoint.ofChar 'u', a, b, x, d] (.unit c)

/-- The text that pieces mean. -/
def meaning : List Piece → Text
  | .unit high :: .unit low :: rest =>
    if high.isHighSurrogate && low.isLowSurrogate then
      CodePoint.joinSurrogates high low :: meaning rest
    else high :: meaning (.unit low :: rest)
  | .unit c :: rest => c :: meaning rest
  | .plain c :: rest => c :: meaning rest
  | [] => []

end Piece

inductive SpellsString : Text → List Piece → Prop
  | nil : SpellsString [] []
  | cons {s t : Text} {p : Piece} {ps : List Piece} :
      p.Spells s → SpellsString t ps → SpellsString (s ++ t) (p :: ps)

theorem SpellsString.append {s t : Text} {ps qs : List Piece} (hs : SpellsString s ps)
    (ht : SpellsString t qs) : SpellsString (s ++ t) (ps ++ qs) := by
  induction hs with
  | nil => exact ht
  | cons hp h ih =>
    rw [List.append_assoc]
    exact .cons hp ih

/-! ## Reading pieces -/

variable {done rest after : Text}

theorem readString_quote :
    readString done (CodePoint.ofChar '"' :: rest) = .ok (done.reverse, rest) := by
  rw [readString.eq_def]
  dsimp only
  rw [if_pos (by decide)]

theorem readString_raw {c : CodePoint} (hq : c.is '"' = false) (hb : c.is '\\' = false)
    (hc : 0x20 ≤ c.val) : readString done (c :: rest) = readString (c :: done) rest := by
  rw [readString.eq_def]
  dsimp only
  rw [if_neg (by simp [hq]), if_neg (by simp [hb]), if_neg (by omega)]

theorem readString_short {e c : CodePoint} (h : shortEscape? e = some c) :
    readString done (CodePoint.ofChar '\\' :: e :: rest) = readString (c :: done) rest := by
  have hu : e.is 'u' = false := by
    cases hu : e.is 'u' with
    | false => rfl
    | true =>
      rw [CodePoint.is_iff.mp hu] at h
      cases h
  rw [readString.eq_def]
  dsimp only
  rw [if_neg (by decide), if_pos (by decide)]
  simp only [hu, Bool.false_eq_true, if_false, h]

/-- A unit stands for itself unless it begins a surrogate pair. -/
theorem readString_unit {a b x d c : CodePoint} (h : hexUnit? a b x d = some c)
    (hrest : rest ≠ []) (hc : c.isHighSurrogate = true → lowEscape? rest = none) :
    readString done
        (CodePoint.ofChar '\\' :: CodePoint.ofChar 'u' :: a :: b :: x :: d :: rest) =
      readString (c :: done) rest := by
  obtain ⟨next, rest, rfl⟩ := List.exists_cons_of_ne_nil hrest
  rw [readString, if_neg (by decide), if_pos (by decide)]
  have hu : (CodePoint.ofChar 'u').is 'u' = true := by decide
  simp only [hu, if_true, h]
  split
  · rename_i hhigh
    split
    · rename_i low after hlow
      rw [hc hhigh] at hlow
      cases hlow
    · rfl
  · rfl

/-- A high surrogate and the low one behind it are one code point. -/
theorem readString_pair {a b x d high low : CodePoint} (h : hexUnit? a b x d = some high)
    (hhigh : high.isHighSurrogate = true) (hlow : lowEscape? rest = some (low, after)) :
    readString done
        (CodePoint.ofChar '\\' :: CodePoint.ofChar 'u' :: a :: b :: x :: d :: rest) =
      readString (CodePoint.joinSurrogates high low :: done) after := by
  cases rest with
  | nil => cases hlow
  | cons next rest =>
    rw [readString, if_neg (by decide), if_pos (by decide)]
    have hu : (CodePoint.ofChar 'u').is 'u' = true := by decide
    simp only [hu, if_true, h, hhigh]
    split
    · rename_i low' after' hlow'
      rw [hlow] at hlow'
      cases hlow'
      rfl
    · rename_i hlow'
      rw [hlow] at hlow'
      cases hlow'

/-! ## What follows a high surrogate -/

theorem lowEscape?_quote : lowEscape? (CodePoint.ofChar '"' :: rest) = none := by
  unfold lowEscape?
  split
  · rename_i heq
    cases heq
    rfl
  · rfl

theorem lowEscape?_plain {s : Text} {c : CodePoint} (h : (Piece.plain c).Spells s) :
    lowEscape? (s ++ rest) = none := by
  cases h with
  | raw hq hb hc =>
    unfold lowEscape?
    split
    · rename_i heq
      cases heq
      rw [if_neg (by simp [hb])]
    · rfl
  | @short e c he =>
    unfold lowEscape?
    split
    · rename_i heq
      cases heq
      rw [if_neg]
      intro hu
      rw [Bool.and_eq_true, CodePoint.is_iff (k := 'u')] at hu
      rw [hu.2] at he
      cases he
    · rfl

theorem lowEscape?_unit {s : Text} {c : CodePoint} (h : (Piece.unit c).Spells s)
    (hrest : rest ≠ []) :
    lowEscape? (s ++ rest) = if c.isLowSurrogate then some (c, rest) else none := by
  obtain ⟨next, rest, rfl⟩ := List.exists_cons_of_ne_nil hrest
  cases h with
  | unit hc =>
    have hmarks : ((CodePoint.ofChar '\\').is '\\' && (CodePoint.ofChar 'u').is 'u') = true := by
      decide
    simp only [List.cons_append, List.nil_append, lowEscape?, hmarks, if_true, hc]

/-- Nothing but a low surrogate in a unit is taken together with the high one in front of it. -/
theorem lowEscape?_eq_none {t : Text} {ps : List Piece} (h : SpellsString t ps)
    (hlow : ∀ low qs, ps = .unit low :: qs → low.isLowSurrogate = false) :
    lowEscape? (t ++ CodePoint.ofChar '"' :: rest) = none := by
  cases h with
  | nil => exact lowEscape?_quote
  | @cons s t p ps hp ht =>
    rw [List.append_assoc]
    cases p with
    | plain c => exact lowEscape?_plain hp
    | unit c =>
      rw [lowEscape?_unit hp (by simp), if_neg]
      rw [hlow c ps rfl]
      decide

theorem readString_plain_of_spells {s : Text} {c : CodePoint} (h : (Piece.plain c).Spells s) :
    readString done (s ++ rest) = readString (c :: done) rest := by
  cases h with
  | raw hq hb hc => exact readString_raw hq hb hc
  | short he => exact readString_short he

/-- A unit with no low surrogate behind it that it could take along. -/
theorem readString_unit_of_spells {s t : Text} {c : CodePoint} {ps : List Piece}
    (h : (Piece.unit c).Spells s) (ht : SpellsString t ps)
    (hc : c.isHighSurrogate = true →
      ∀ low qs, ps = .unit low :: qs → low.isLowSurrogate = false) :
    readString done (s ++ (t ++ CodePoint.ofChar '"' :: rest)) =
      readString (c :: done) (t ++ CodePoint.ofChar '"' :: rest) := by
  cases h with
  | unit hx => exact readString_unit hx (by simp) fun hhigh => lowEscape?_eq_none ht (hc hhigh)

theorem readString_pair_of_spells {s t : Text} {high low : CodePoint}
    (h : (Piece.unit high).Spells s) (h' : (Piece.unit low).Spells t) (hrest : rest ≠ [])
    (hhigh : high.isHighSurrogate = true) (hlow : low.isLowSurrogate = true) :
    readString done (s ++ (t ++ rest)) =
      readString (CodePoint.joinSurrogates high low :: done) rest := by
  have hafter : lowEscape? (t ++ rest) = some (low, rest) := by
    rw [lowEscape?_unit h' hrest, if_pos hlow]
  cases h with
  | unit hx => exact readString_pair hx hhigh hafter

theorem meaning_unit {c : CodePoint} {ps : List Piece}
    (h : c.isHighSurrogate = true → ∀ low qs, ps = .unit low :: qs → low.isLowSurrogate = false) :
    Piece.meaning (.unit c :: ps) = c :: Piece.meaning ps := by
  cases ps with
  | nil => rfl
  | cons p ps =>
    cases p with
    | plain d =>
      rw [Piece.meaning]
      rintro low rest ⟨⟩
    | unit low =>
      rw [Piece.meaning, if_neg]
      intro hpair
      rw [Bool.and_eq_true] at hpair
      rw [h hpair.1 low ps rfl] at hpair
      cases hpair.2

/-- **A string comes back as the text that its pieces mean**, up to the closing quote. -/
theorem readString_of_spells {s : Text} {ps : List Piece} (h : SpellsString s ps) :
    readString done (s ++ CodePoint.ofChar '"' :: rest) =
      .ok (done.reverse ++ Piece.meaning ps, rest) := by
  induction ps using Piece.meaning.induct generalizing s done with
  | case1 high low ps hpair ih =>
    have hboth := hpair
    rw [Bool.and_eq_true] at hboth
    cases h with
    | cons hp ht =>
      cases ht with
      | cons hq ht =>
        rw [List.append_assoc, List.append_assoc,
          readString_pair_of_spells hp hq (by simp) hboth.1 hboth.2, ih ht, Piece.meaning,
          if_pos hpair]
        simp
  | case2 high low ps hpair ih =>
    have hlone : high.isHighSurrogate = true →
        ∀ low' qs, .unit low :: ps = .unit low' :: qs → low'.isLowSurrogate = false := by
      rintro hhigh low' qs ⟨⟩
      cases hlow : low.isLowSurrogate with
      | false => rfl
      | true => exact absurd (by rw [hhigh, hlow]; rfl) hpair
    cases h with
    | cons hp ht =>
      rw [List.append_assoc, readString_unit_of_spells hp ht hlone, ih ht, meaning_unit hlone]
      simp
  | case3 c ps hps ih =>
    have hlone : c.isHighSurrogate = true →
        ∀ low qs, ps = .unit low :: qs → low.isLowSurrogate = false :=
      fun _ low qs hqs => (hps low qs hqs).elim
    cases h with
    | cons hp ht =>
      rw [List.append_assoc, readString_unit_of_spells hp ht hlone, ih ht, meaning_unit hlone]
      simp
  | case4 c ps ih =>
    cases h with
    | cons hp ht =>
      rw [List.append_assoc, readString_plain_of_spells hp, ih ht, Piece.meaning]
      simp
  | case5 =>
    cases h with
    | nil =>
      rw [List.nil_append, readString_quote]
      simp [Piece.meaning]

/-! ## Writing pieces -/

def piecesOf (ascii : Bool) (c : CodePoint) : List Piece :=
  if c.val ∈ [0x08, 0x09, 0x0A, 0x0C, 0x0D] then [.plain c]
  else if c.val < 0x20 then [.unit c]
  else if !ascii || c.val < 0x7F then [.plain c]
  else if c.val < 0x10000 then [.unit c]
  else
    [.unit (CodePoint.ofNat (0xD800 + (c.val - 0x10000) / 0x400)),
      .unit (CodePoint.ofNat (0xDC00 + (c.val - 0x10000) % 0x400))]

/-- The text that a written string comes back as. -/
def reread (ascii : Bool) (t : Text) : Text := if ascii then t.paired else t

theorem unitEscape_spells {n : Nat} (h : n < 0x10000) :
    (Piece.unit (CodePoint.ofNat n)).Spells (unitEscape n) := by
  have hdigit (m : Nat) := CodePoint.hexValue?_hexDigit (Nat.mod_lt m (by decide : 16 > 0))
  have hunit : hexUnit? (CodePoint.hexDigit (n >>> 12 % 16)) (CodePoint.hexDigit (n >>> 8 % 16))
      (CodePoint.hexDigit (n >>> 4 % 16)) (CodePoint.hexDigit (n >>> 0 % 16)) =
        some (CodePoint.ofNat n) := by
    have hn :
        ((n >>> 12 % 16 * 16 + n >>> 8 % 16) * 16 + n >>> 4 % 16) * 16 + n >>> 0 % 16 = n := by
      simp only [Nat.shiftRight_eq_div_pow]
      omega
    simp only [hexUnit?, hdigit, Option.bind_eq_bind, Option.bind_some, Option.pure_def, hn]
  exact .unit hunit

theorem unitEscape_spells_self {c : CodePoint} (h : c.val < 0x10000) :
    (Piece.unit c).Spells (unitEscape c.val) := by
  have hc := unitEscape_spells h
  rwa [CodePoint.ofNat_val] at hc

theorem SpellsString.single {s : Text} {p : Piece} (h : p.Spells s) : SpellsString s [p] := by
  have hs : SpellsString (s ++ []) [p] := .cons h .nil
  rwa [List.append_nil] at hs

/-- A code point with an escape of one letter. -/
theorem shortEscape_spells {c : CodePoint} {e : Char}
    (h : shortEscape? (CodePoint.ofChar e) = some (CodePoint.ofNat c.val)) :
    SpellsString [CodePoint.ofChar '\\', CodePoint.ofChar e] [.plain c] := by
  rw [CodePoint.ofNat_val] at h
  exact .single (.short h)

theorem piecesOf_short {ascii : Bool} {c : CodePoint}
    (h : c.val ∈ [0x08, 0x09, 0x0A, 0x0C, 0x0D]) : piecesOf ascii c = [.plain c] := by
  rw [piecesOf, if_pos h]

theorem stringChar_spells (ascii : Bool) (c : CodePoint) :
    SpellsString (stringChar ascii c) (piecesOf ascii c) := by
  have hc := c.val_lt
  unfold stringChar
  by_cases hquote : c.is '"' = true
  · rw [if_pos hquote, CodePoint.is_iff.mp hquote]
    cases ascii <;> exact shortEscape_spells rfl
  rw [if_neg hquote]
  by_cases hbackslash : c.is '\\' = true
  · rw [if_pos hbackslash, CodePoint.is_iff.mp hbackslash]
    cases ascii <;> exact shortEscape_spells rfl
  rw [if_neg hbackslash]
  by_cases h8 : c.val = 0x08
  · rw [if_pos h8, piecesOf_short (by simp [h8])]
    exact shortEscape_spells (by rw [h8]; rfl)
  rw [if_neg h8]
  by_cases hC : c.val = 0x0C
  · rw [if_pos hC, piecesOf_short (by simp [hC])]
    exact shortEscape_spells (by rw [hC]; rfl)
  rw [if_neg hC]
  by_cases hA : c.val = 0x0A
  · rw [if_pos hA, piecesOf_short (by simp [hA])]
    exact shortEscape_spells (by rw [hA]; rfl)
  rw [if_neg hA]
  by_cases hD : c.val = 0x0D
  · rw [if_pos hD, piecesOf_short (by simp [hD])]
    exact shortEscape_spells (by rw [hD]; rfl)
  rw [if_neg hD]
  by_cases h9 : c.val = 0x09
  · rw [if_pos h9, piecesOf_short (by simp [h9])]
    exact shortEscape_spells (by rw [h9]; rfl)
  rw [if_neg h9]
  have hlong : c.val ∉ [0x08, 0x09, 0x0A, 0x0C, 0x0D] := by simp [h8, hC, hA, hD, h9]
  rw [piecesOf, if_neg hlong]
  by_cases h20 : c.val < 0x20
  · rw [if_pos h20, if_pos h20]
    exact .single (unitEscape_spells_self (by omega))
  rw [if_neg h20, if_neg h20]
  by_cases hraw : (!ascii || decide (c.val < 0x7F)) = true
  · rw [if_pos hraw, if_pos hraw]
    exact .single (.raw (by simpa using hquote) (by simpa using hbackslash) (by omega))
  rw [if_neg hraw, if_neg hraw]
  by_cases hunit : c.val < 0x10000
  · rw [if_pos hunit, if_pos hunit]
    exact .single (unitEscape_spells_self hunit)
  rw [if_neg hunit, if_neg hunit]
  exact (SpellsString.single (unitEscape_spells (by omega))).append
    (.single (unitEscape_spells (by omega)))

/-! ## What comes back -/

/-- A code point comes back as itself, unless it is the first half of a pair. -/
theorem meaning_piecesOf {ascii : Bool} {c : CodePoint} {ps : List Piece}
    (h : c.isHighSurrogate = true → ∀ low qs, ps = .unit low :: qs → low.isLowSurrogate = false) :
    Piece.meaning (piecesOf ascii c ++ ps) = c :: Piece.meaning ps := by
  have hc := c.val_lt
  unfold piecesOf
  split
  · rfl
  · split
    · exact meaning_unit h
    · split
      · rfl
      · split
        · exact meaning_unit h
        · have hhigh := CodePoint.val_ofNat (n := 0xD800 + (c.val - 0x10000) / 0x400) (by omega)
          have hlow := CodePoint.val_ofNat (n := 0xDC00 + (c.val - 0x10000) % 0x400) (by omega)
          rw [List.cons_append, List.singleton_append, Piece.meaning, if_pos,
            CodePoint.joinSurrogates_split (by omega)]
          simp only [CodePoint.isHighSurrogate, CodePoint.isLowSurrogate, hhigh, hlow,
            Bool.and_eq_true, decide_eq_true_eq]
          omega

/-- A low surrogate in a unit comes from a low surrogate of a string in printable ASCII. -/
theorem low_of_piecesOf {ascii : Bool} {c low : CodePoint} {ps qs : List Piece}
    (h : piecesOf ascii c ++ ps = .unit low :: qs) (hlow : low.isLowSurrogate = true) :
    ascii = true ∧ c.isLowSurrogate = true := by
  have hc := c.val_lt
  simp only [CodePoint.isLowSurrogate, Bool.and_eq_true, decide_eq_true_eq] at hlow ⊢
  unfold piecesOf at h
  split at h
  · cases h
  · split at h
    · cases h
      omega
    · split at h
      · cases h
      · rename_i hraw
        have hascii : ascii = true := by
          cases ascii
          · simp at hraw
          · rfl
        split at h
        · cases h
          exact ⟨hascii, hlow⟩
        · cases h
          rw [CodePoint.val_ofNat (by omega)] at hlow
          omega

theorem low_of_flatMap_piecesOf {ascii : Bool} {t : Text} {low : CodePoint} {qs : List Piece}
    (h : t.flatMap (piecesOf ascii) = .unit low :: qs) (hlow : low.isLowSurrogate = true) :
    ascii = true ∧ ∃ c rest, t = c :: rest ∧ c.isLowSurrogate = true := by
  cases t with
  | nil => cases h
  | cons c rest =>
    rw [List.flatMap_cons] at h
    obtain ⟨hascii, hc⟩ := low_of_piecesOf h hlow
    exact ⟨hascii, c, rest, rfl, hc⟩

theorem meaning_raw (t : Text) : Piece.meaning (t.flatMap (piecesOf false)) = t := by
  induction t with
  | nil => rfl
  | cons c t ih =>
    rw [List.flatMap_cons, meaning_piecesOf, ih]
    intro _ low qs hqs
    cases hlow : low.isLowSurrogate with
    | false => rfl
    | true => cases (low_of_flatMap_piecesOf hqs hlow).1

theorem piecesOf_of_isSurrogate {c : CodePoint} (h : c.isSurrogate = true) :
    piecesOf true c = [.unit c] := by
  simp only [CodePoint.isSurrogate, Bool.and_eq_true, decide_eq_true_eq] at h
  have hshort : c.val ∉ [0x08, 0x09, 0x0A, 0x0C, 0x0D] := by
    simp only [List.mem_cons, List.not_mem_nil, or_false]
    omega
  have hplain : ¬ (!true || decide (c.val < 0x7F)) = true := by simp; omega
  rw [piecesOf, if_neg hshort, if_neg (by omega), if_neg hplain, if_pos (by omega)]

theorem meaning_ascii (t : Text) : Piece.meaning (t.flatMap (piecesOf true)) = t.paired := by
  induction t using Text.paired.induct with
  | case1 high low rest hpair ih =>
    have hboth := hpair
    rw [Bool.and_eq_true] at hboth
    have hhigh := piecesOf_of_isSurrogate (CodePoint.isSurrogate_of_isHighSurrogate hboth.1)
    have hlow := piecesOf_of_isSurrogate (CodePoint.isSurrogate_of_isLowSurrogate hboth.2)
    rw [Text.paired, if_pos hpair, List.flatMap_cons, List.flatMap_cons, hhigh, hlow,
      List.singleton_append, List.singleton_append, Piece.meaning, if_pos hpair, ih]
  | case2 high low rest hpair ih =>
    rw [Text.paired, if_neg hpair, List.flatMap_cons, meaning_piecesOf, ih]
    intro hhigh low' qs hqs
    cases hlow : low'.isLowSurrogate with
    | false => rfl
    | true =>
      obtain ⟨-, c, rest', hc, hl⟩ := low_of_flatMap_piecesOf hqs hlow
      cases hc
      exact absurd (by rw [hhigh, hl]; rfl) hpair
  | case3 t ht =>
    match t, ht with
    | [], _ => rfl
    | [c], _ =>
      rw [List.flatMap_cons, List.flatMap_nil, meaning_piecesOf]
      · rfl
      · rintro - low qs ⟨⟩
    | high :: low :: rest, ht => exact (ht high low rest rfl).elim

/-- **A written string means the text itself**, with surrogate pairs joined if they are written as
units. -/
theorem meaning_flatMap_piecesOf (ascii : Bool) (t : Text) :
    Piece.meaning (t.flatMap (piecesOf ascii)) = reread ascii t := by
  cases ascii with
  | false => exact meaning_raw t
  | true => exact meaning_ascii t

theorem flatMap_stringChar_spells (ascii : Bool) (t : Text) :
    SpellsString (t.flatMap (stringChar ascii)) (t.flatMap (piecesOf ascii)) := by
  induction t with
  | nil => exact .nil
  | cons c t ih => exact (stringChar_spells ascii c).append ih

end Json

end WasmReceipt
