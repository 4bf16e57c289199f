import WasmReceipt.Text.Blank

/-! # Facts about texts

Code points of characters, texts without surrogates, stripping, splitting at a separator, lines, and
the order of texts by their code points. -/

namespace WasmReceipt

namespace CodePoint

@[simp] theorem val_ofChar (c : Char) : (ofChar c).val = c.toNat := rfl

@[simp] theorem ofNat_val (c : CodePoint) : ofNat c.val = c := by
  simp [ofNat, c.val_lt]

theorem val_ofNat {n : Nat} (h : n < 0x110000) : (ofNat n).val = n := by
  rw [ofNat, dif_pos h]

theorem val_injective {a b : CodePoint} (h : a.val = b.val) : a = b := by
  cases a
  cases b
  cases h
  rfl

theorem ofChar_injective {a b : Char} (h : ofChar a = ofChar b) : a = b :=
  Char.toNat_inj.mp (congrArg val h)

@[simp] theorem ofChar_beq_ofChar (a b : Char) : (ofChar a == ofChar b) = (a == b) := by
  by_cases h : a = b
  · simp [h]
  · have hne : ofChar a ≠ ofChar b := fun he => h (ofChar_injective he)
    rw [beq_eq_false_iff_ne.mpr h, beq_eq_false_iff_ne.mpr hne]

theorem is_iff {c : CodePoint} {k : Char} : c.is k = true ↔ c = ofChar k := by
  constructor
  · intro h
    exact val_injective (by simpa [is] using h)
  · rintro rfl
    simp [is]

theorem isDigit_ofChar_iff {c : Char} : (ofChar c).isDigit = true ↔ c.isDigit = true := by
  simp only [isDigit, Char.isDigit, Bool.and_eq_true, decide_eq_true_eq, ge_iff_le,
    UInt32.le_iff_toNat_le]
  rfl

/-- A digit is none of the characters that are no digits. -/
theorem ne_ofChar_of_isDigit {c : CodePoint} {k : Char} (hc : c.isDigit = true)
    (hk : k.isDigit = false) : c ≠ ofChar k := by
  rintro rfl
  rw [isDigit_ofChar_iff, hk] at hc
  cases hc

theorem isSurrogate_of_isDigit {c : CodePoint} (h : c.isDigit = true) : c.isSurrogate = false := by
  simp only [isDigit, Bool.and_eq_true, decide_eq_true_eq] at h
  have hlt : ¬ 0xD800 ≤ c.val := by omega
  simp [isSurrogate, hlt]

theorem isSurrogate_of_isWhiteSpace {c : CodePoint} (h : c.isWhiteSpace = true) :
    c.isSurrogate = false := by
  rw [← Bool.not_eq_true]
  simp only [isWhiteSpace, isAsciiBlank, Bool.or_eq_true, Bool.and_eq_true, beq_iff_eq,
    decide_eq_true_eq] at h
  simp only [isSurrogate, Bool.and_eq_true, decide_eq_true_eq]
  omega

theorem isSurrogate_of_isHighSurrogate {c : CodePoint} (h : c.isHighSurrogate = true) :
    c.isSurrogate = true := by
  simp only [isHighSurrogate, isSurrogate, Bool.and_eq_true, decide_eq_true_eq] at h ⊢
  omega

theorem isSurrogate_of_isLowSurrogate {c : CodePoint} (h : c.isLowSurrogate = true) :
    c.isSurrogate = true := by
  simp only [isLowSurrogate, isSurrogate, Bool.and_eq_true, decide_eq_true_eq] at h ⊢
  omega

/-- The two units of an astral code point are the halves of its pair. -/
theorem joinSurrogates_split {c : CodePoint} (h : 0x10000 ≤ c.val) :
    joinSurrogates (ofNat (0xD800 + (c.val - 0x10000) / 0x400))
      (ofNat (0xDC00 + (c.val - 0x10000) % 0x400)) = c := by
  have hc := c.val_lt
  have hhigh := val_ofNat (n := 0xD800 + (c.val - 0x10000) / 0x400) (by omega)
  have hlow := val_ofNat (n := 0xDC00 + (c.val - 0x10000) % 0x400) (by omega)
  refine val_injective ?_
  rw [joinSurrogates, hhigh, hlow, val_ofNat (by omega)]
  omega

/-! ## Hexadecimal digits -/

theorem hexValue?_hexDigit {n : Nat} (h : n < 16) : (hexDigit n).hexValue? = some n := by
  have hall : ∀ n < 16, (hexDigit n).hexValue? = some n := by decide
  exact hall n h

theorem isSurrogate_hexDigit {n : Nat} (h : n < 16) : (hexDigit n).isSurrogate = false := by
  have hall : ∀ n < 16, (hexDigit n).isSurrogate = false := by decide
  exact hall n h

theorem hexValue?_lt {c : CodePoint} {n : Nat} (h : c.hexValue? = some n) : n < 16 := by
  unfold hexValue? at h
  split at h
  · cases h; omega
  · split at h
    · cases h; omega
    · split at h
      · cases h; omega
      · cases h

end CodePoint

namespace Text

/-! ## Texts without surrogates -/

@[simp] theorem isScalar_append (s t : Text) : isScalar (s ++ t) = (isScalar s && isScalar t) :=
  List.all_append

@[simp] theorem isScalar_cons (c : CodePoint) (t : Text) :
    isScalar (c :: t) = (!c.isSurrogate && isScalar t) := rfl

theorem isScalar_iff {t : Text} : t.isScalar = true ↔ ∀ c ∈ t, c.isSurrogate = false := by
  simp [isScalar]

/-! ## Stripping -/

/-- What is put around a text is dropped with whatever was there to drop. -/
theorem strip_surrounded {p : CodePoint → Bool} {before after : Text} (t : Text)
    (hb : ∀ c ∈ before, p c = true) (ha : ∀ c ∈ after, p c = true) :
    strip p (before ++ t ++ after) = strip p t := by
  unfold strip
  rw [List.append_assoc, List.dropWhile_append_of_pos hb, List.dropWhile_append]
  cases ht : t.dropWhile p with
  | nil =>
    have hnone : after.dropWhile p = [] := by
      rw [← List.append_nil after, List.dropWhile_append_of_pos ha, List.dropWhile_nil]
    rw [List.isEmpty_nil, if_pos rfl, hnone]
  | cons c rest =>
    rw [List.isEmpty_cons, if_neg (by decide), List.reverse_append,
      List.dropWhile_append_of_pos (by simpa using ha)]

/-- Whether a code point is dropped at the end depends on what is left behind it. -/
theorem dropWhileEnd_cons {p : CodePoint → Bool} (c : CodePoint) (t : Text) :
    ((c :: t).reverse.dropWhile p).reverse =
      if (t.reverse.dropWhile p).reverse = [] then (if p c then [] else [c])
      else c :: (t.reverse.dropWhile p).reverse := by
  rw [List.reverse_cons, List.dropWhile_append]
  cases ht : t.reverse.dropWhile p with
  | nil => cases hc : p c <;> simp [hc]
  | cons d rest => simp

theorem isPrefix_strip (p : CodePoint → Bool) (t : Text) : strip p t <+: t.dropWhile p := by
  have h := List.reverse_prefix.mpr (List.dropWhile_suffix p (l := (t.dropWhile p).reverse))
  rwa [List.reverse_reverse] at h

theorem strip_infix (p : CodePoint → Bool) (t : Text) : strip p t <:+: t :=
  (isPrefix_strip p t).isInfix.trans (List.dropWhile_suffix p).isInfix

/-- A stripped text begins with nothing that is dropped, -/
theorem head?_strip {p : CodePoint → Bool} {c : CodePoint} {t : Text}
    (h : (strip p t).head? = some c) : p c = false := by
  obtain ⟨rest, hrest⟩ := List.head?_eq_some_iff.mp h
  obtain ⟨more, hmore⟩ := isPrefix_strip p t
  have hhead : (t.dropWhile p).head? = some c := by
    rw [← hmore, hrest]
    rfl
  have hdropped := List.head?_dropWhile_not p t
  rw [hhead] at hdropped
  exact hdropped

/-- and ends with nothing that is. -/
theorem getLast?_strip {p : CodePoint → Bool} {c : CodePoint} {t : Text}
    (h : (strip p t).getLast? = some c) : p c = false := by
  rw [strip, List.getLast?_reverse] at h
  have hdropped := List.head?_dropWhile_not p (t.dropWhile p).reverse
  rw [h] at hdropped
  exact hdropped

theorem dropWhile_of_head? {p : CodePoint → Bool} {t : Text}
    (h : ∀ c, t.head? = some c → p c = false) : t.dropWhile p = t := by
  cases t with
  | nil => rfl
  | cons c rest => rw [List.dropWhile_cons_of_neg (by simp [h c rfl])]

/-- A text with nothing to drop at its ends is left as it is. -/
theorem strip_eq_self {p : CodePoint → Bool} {t : Text}
    (hh : ∀ c, t.head? = some c → p c = false)
    (hl : ∀ c, t.getLast? = some c → p c = false) : strip p t = t := by
  have hend : ∀ c, t.reverse.head? = some c → p c = false := by
    intro c hc
    rw [List.head?_reverse] at hc
    exact hl c hc
  rw [strip, dropWhile_of_head? hh, dropWhile_of_head? hend, List.reverse_reverse]

/-- What is not to be dropped is left. -/
theorem mem_strip {p : CodePoint → Bool} {c : CodePoint} {t : Text} (hc : c ∈ t)
    (hp : p c = false) : c ∈ strip p t := by
  have hdrop {s : Text} (h : c ∈ s) : c ∈ s.dropWhile p := by
    rw [← List.takeWhile_append_dropWhile (p := p) (l := s)] at h
    rcases List.mem_append.mp h with hmem | hmem
    · rw [List.all_eq_true.mp List.all_takeWhile c hmem] at hp
      cases hp
    · exact hmem
  exact List.mem_reverse.mpr (hdrop (List.mem_reverse.mpr (hdrop hc)))

/-- From a text with nothing to drop at its front, only an end is stripped. -/
theorem exists_eq_strip_append {p : CodePoint → Bool} {t : Text}
    (hh : ∀ c, t.head? = some c → p c = false) :
    ∃ after : Text, (∀ c ∈ after, p c = true) ∧ t = strip p t ++ after := by
  refine ⟨(t.reverse.takeWhile p).reverse, fun c hc => ?_, ?_⟩
  · exact List.all_eq_true.mp List.all_takeWhile c (List.mem_reverse.mp hc)
  · rw [strip, dropWhile_of_head? hh, ← List.reverse_append, List.takeWhile_append_dropWhile,
      List.reverse_reverse]

/-- White space is no surrogate, so none is hidden in what is stripped off. -/
theorem isScalar_of_strip {t : Text} (h : (t.strip CodePoint.isWhiteSpace).isScalar = true) :
    t.isScalar = true := by
  rw [isScalar_iff] at h ⊢
  intro c hc
  cases hwhite : c.isWhiteSpace with
  | true => exact CodePoint.isSurrogate_of_isWhiteSpace hwhite
  | false => exact h c (mem_strip hc hwhite)

/-! ## Separators -/

/-- What stands behind the last separator, and what stands in front of it, are determined. -/
theorem append_cons_right_inj {sep : CodePoint} {s t x y : Text} (hx : sep ∉ x) (hy : sep ∉ y)
    (h : s ++ sep :: x = t ++ sep :: y) : s = t ∧ x = y := by
  rcases List.append_eq_append_iff.mp h with ⟨u, rfl, hu⟩ | ⟨u, rfl, hu⟩
  · cases u with
    | nil => simpa using hu
    | cons c u =>
      obtain ⟨-, rfl⟩ := List.cons.inj hu
      exact absurd (by simp) hx
  · cases u with
    | nil => simpa using hu.symm
    | cons c u =>
      obtain ⟨-, rfl⟩ := List.cons.inj hu
      exact absurd (by simp) hy

/-- What stands in front of the first separator, and what stands behind it, are determined. -/
theorem append_cons_left_inj {sep : CodePoint} {s t x y : Text} (hs : sep ∉ s) (ht : sep ∉ t)
    (h : s ++ sep :: x = t ++ sep :: y) : s = t ∧ x = y := by
  have hr : x.reverse ++ sep :: s.reverse = y.reverse ++ sep :: t.reverse := by
    simpa using congrArg List.reverse h
  obtain ⟨hx, hs⟩ := append_cons_right_inj (by simpa using hs) (by simpa using ht) hr
  exact ⟨List.reverse_inj.mp hs, List.reverse_inj.mp hx⟩

/-! ## Lines -/

theorem lineFeed_notMem_of_mem_lines {t line : Text} (h : line ∈ t.lines) :
    CodePoint.ofChar '\n' ∉ line := by
  unfold lines at h
  induction t generalizing line with
  | nil =>
    rw [List.splitOn_nil, List.mem_singleton] at h
    simp [h]
  | cons c t ih =>
    rw [List.splitOn_cons_eq_if_modifyHead] at h
    split at h
    · rcases List.mem_cons.mp h with rfl | h
      · simp
      · exact ih h
    · rename_i hc
      cases hlines : t.splitOn (CodePoint.ofChar '\n') with
      | nil => exact absurd hlines (List.splitOn_ne_nil _ t)
      | cons first others =>
        rw [hlines] at h ih
        rcases List.mem_cons.mp h with rfl | h
        · rw [List.mem_cons, not_or]
          exact ⟨fun hfeed => hc (by simp [hfeed]), ih List.mem_cons_self⟩
        · exact ih (List.mem_cons_of_mem first h)

theorem join_lines (t : Text) : join "\n" t.lines = t := List.intercalate_splitOn _

/-- Parts without line feeds are the lines of the text that they make up. -/
theorem lines_join {parts : List Text} (h : ∀ part ∈ parts, CodePoint.ofChar '\n' ∉ part)
    (hne : parts ≠ []) : (join "\n" parts).lines = parts :=
  List.splitOn_intercalate _ h hne

theorem join_cons_cons (part next : Text) (parts : List Text) :
    join "\n" (part :: next :: parts) =
      part ++ CodePoint.ofChar '\n' :: join "\n" (next :: parts) := by
  rw [join, List.intercalate_cons_cons, List.append_assoc]
  rfl

/-- What holds no separator stands on one side of it. -/
theorem infix_of_infix_append_cons {sep : CodePoint} {s a b : Text} (hs : sep ∉ s)
    (h : s <:+: a ++ sep :: b) : s <:+: a ∨ s <:+: b := by
  obtain ⟨before, behind, h⟩ := h
  rcases List.append_eq_append_iff.mp h with ⟨u, rfl, -⟩ | ⟨u, hu, hbehind⟩
  · exact .inl ⟨before, u, rfl⟩
  · cases u with
    | nil =>
      rw [List.append_nil] at hu
      exact .inl ⟨before, [], by rw [List.append_nil, hu]⟩
    | cons c u =>
      obtain ⟨rfl, rfl⟩ := List.cons.inj hbehind
      rcases List.append_eq_append_iff.mp hu with ⟨v, rfl, rfl⟩ | ⟨v, rfl, hv⟩
      · exact absurd (by simp) hs
      · cases v with
        | nil =>
          rw [List.nil_append] at hv
          exact absurd (hv ▸ List.mem_cons_self) hs
        | cons d v =>
          obtain ⟨-, rfl⟩ := List.cons.inj hv
          exact .inr ⟨v, behind, rfl⟩

/-- What holds no line feed stands on one line. -/
theorem exists_line_of_infix {s t : Text} (hs : CodePoint.ofChar '\n' ∉ s) (h : s <:+: t) :
    ∃ line ∈ t.lines, s <:+: line := by
  have hparts : ∀ parts : List Text, parts ≠ [] → s <:+: join "\n" parts →
      ∃ part ∈ parts, s <:+: part := by
    intro parts hne hparts
    induction parts with
    | nil => exact absurd rfl hne
    | cons part parts ih =>
      cases parts with
      | nil => exact ⟨part, List.mem_cons_self, by simpa [join] using hparts⟩
      | cons next parts =>
        rw [join_cons_cons] at hparts
        rcases infix_of_infix_append_cons hs hparts with hpart | hrest
        · exact ⟨part, List.mem_cons_self, hpart⟩
        · obtain ⟨found, hfound, hinfix⟩ := ih (List.cons_ne_nil next parts) hrest
          exact ⟨found, List.mem_cons_of_mem part hfound, hinfix⟩
  exact hparts t.lines (List.splitOn_ne_nil _ t) (by rwa [join_lines])

/-! ## Order -/

variable {s t u : Text}

/-- A text stands before another: at the first place where they differ it has the lower code point,
or it ends there. -/
def Before (s t : Text) : Prop := List.Lex (fun a b => a.val < b.val) s t

theorem le_cons_iff {a b : CodePoint} :
    le (a :: s) (b :: t) = true ↔ a.val < b.val ∨ a = b ∧ le s t = true := by
  have hval : a.val = b.val ↔ a = b := ⟨CodePoint.val_injective, congrArg CodePoint.val⟩
  simp only [le, Bool.or_eq_true, Bool.and_eq_true, decide_eq_true_eq, beq_iff_eq, hval]

theorem le_antisymm (hst : le s t = true) (hts : le t s = true) : s = t := by
  induction s generalizing t with
  | nil =>
    cases t with
    | nil => rfl
    | cons b t => cases hts
  | cons a s ih =>
    cases t with
    | nil => cases hst
    | cons b t =>
      rw [le_cons_iff] at hst hts
      rcases hst with hlt | ⟨rfl, hst⟩
      · rcases hts with hgt | ⟨rfl, -⟩
        · exact absurd hlt (Nat.lt_asymm hgt)
        · exact absurd hlt (Nat.lt_irrefl _)
      · rcases hts with hgt | ⟨-, hts⟩
        · exact absurd hgt (Nat.lt_irrefl _)
        · rw [ih hst hts]

theorem le_trans (hst : le s t = true) (htu : le t u = true) : le s u = true := by
  induction s generalizing t u with
  | nil => rfl
  | cons a s ih =>
    cases t with
    | nil => cases hst
    | cons b t =>
      cases u with
      | nil => cases htu
      | cons c u =>
        rw [le_cons_iff] at hst htu ⊢
        rcases hst with hlt | ⟨rfl, hst⟩
        · rcases htu with hlt' | ⟨rfl, -⟩
          · exact .inl (Nat.lt_trans hlt hlt')
          · exact .inl hlt
        · exact htu.imp_right fun h => ⟨h.1, ih hst h.2⟩

theorem le_total (s t : Text) : le s t = true ∨ le t s = true := by
  induction s generalizing t with
  | nil => exact .inl rfl
  | cons a s ih =>
    cases t with
    | nil => exact .inr rfl
    | cons b t =>
      rw [le_cons_iff, le_cons_iff]
      rcases Nat.lt_trichotomy a.val b.val with hlt | heq | hgt
      · exact .inl (.inl hlt)
      · obtain rfl := CodePoint.val_injective heq
        exact (ih t).imp (fun h => .inr ⟨rfl, h⟩) fun h => .inr ⟨rfl, h⟩
      · exact .inr (.inl hgt)

theorem before_iff : s.Before t ↔ le s t = true ∧ s ≠ t := by
  unfold Before
  induction s generalizing t with
  | nil => cases t <;> simp [le]
  | cons a s ih =>
    cases t with
    | nil => simp [le]
    | cons b t =>
      rw [List.cons_lex_cons_iff, ih, le_cons_iff]
      constructor
      · rintro (hlt | ⟨rfl, hle, hne⟩)
        · refine ⟨.inl hlt, fun heq => ?_⟩
          cases heq
          exact Nat.lt_irrefl _ hlt
        · exact ⟨.inr ⟨rfl, hle⟩, fun heq => hne (List.cons.inj heq).2⟩
      · rintro ⟨hlt | ⟨rfl, hle⟩, hne⟩
        · exact .inl hlt
        · exact .inr ⟨rfl, hle, fun heq => hne (congrArg (a :: ·) heq)⟩

end Text

end WasmReceipt
