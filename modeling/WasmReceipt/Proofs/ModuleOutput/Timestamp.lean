import WasmReceipt.ModuleOutput
import WasmReceipt.Proofs.Text

/-! # The first timestamp of a line

A timestamp is a date and the letter `T`, which stands nowhere else in it, so no timestamp begins
inside another one. A log text glued to module text therefore cannot make a timestamp that begins
earlier, whatever the module text ends in. -/

namespace WasmReceipt.ModuleOutput

/-- The date and the letter that a log text begins with. -/
def IsTimestamp (t : Text) : Prop :=
  ∃ year month day : Text, t = year ++ "-" ++ month ++ "-" ++ day ++ "T" ∧ year.length = 4 ∧
    month.length = 2 ∧ day.length = 2 ∧ ∀ c ∈ year ++ month ++ day, c.isDigit = true

def BeginsStamped (t : Text) : Prop := ∃ stamp rest, IsTimestamp stamp ∧ t = stamp ++ rest

/-- Some timestamp stands in a text. -/
def HoldsTimestamp (t : Text) : Prop := ∃ before behind, t = before ++ behind ∧ BeginsStamped behind

theorem length_eq_two {t : Text} (h : t.length = 2) : ∃ a b, t = [a, b] := by
  match t, h with
  | [a, b], _ => exact ⟨a, b, rfl⟩

theorem length_eq_four {t : Text} (h : t.length = 4) : ∃ a b c d, t = [a, b, c, d] := by
  match t, h with
  | [a, b, c, d], _ => exact ⟨a, b, c, d, rfl⟩

/-- The test is for a timestamp at the front. -/
theorem beginsWithTimestamp_iff {t : Text} : beginsWithTimestamp t = true ↔ BeginsStamped t := by
  constructor
  · intro h
    unfold beginsWithTimestamp at h
    split at h
    · rename_i a b c d h1 e f h2 g i t rest
      simp only [Bool.and_eq_true, CodePoint.is_iff] at h
      obtain ⟨⟨⟨⟨⟨⟨⟨⟨⟨⟨ha, hb⟩, hc⟩, hd⟩, rfl⟩, he⟩, hf⟩, rfl⟩, hg⟩, hi⟩, rfl⟩ := h
      refine ⟨_, rest, ⟨[a, b, c, d], [e, f], [g, i], rfl, rfl, rfl, rfl, ?_⟩, rfl⟩
      simp [ha, hb, hc, hd, he, hf, hg, hi]
    · cases h
  · rintro ⟨stamp, rest, ⟨year, month, day, rfl, hy, hm, hd, hall⟩, rfl⟩
    obtain ⟨a, b, c, d, rfl⟩ := length_eq_four hy
    obtain ⟨e, f, rfl⟩ := length_eq_two hm
    obtain ⟨g, i, rfl⟩ := length_eq_two hd
    have hdash : (CodePoint.ofChar '-').is '-' = true := by decide
    have hletter : (CodePoint.ofChar 'T').is 'T' = true := by decide
    simp only [List.cons_append, List.nil_append, List.mem_cons, List.not_mem_nil, or_false,
      forall_eq_or_imp, forall_eq] at hall
    obtain ⟨ha, hb, hc, hd, he, hf, hg, hi⟩ := hall
    simp [beginsWithTimestamp, Text.ofString, ha, hb, hc, hd, he, hf, hg, hi, hdash, hletter]

theorem holdsTimestamp_iff {t : Text} :
    HoldsTimestamp t ↔ ∃ i, i < t.length + 1 ∧ beginsWithTimestamp (t.drop i) = true := by
  constructor
  · rintro ⟨before, behind, rfl, h⟩
    refine ⟨before.length, by rw [List.length_append]; omega, ?_⟩
    rw [List.drop_left]
    exact beginsWithTimestamp_iff.mpr h
  · rintro ⟨i, -, h⟩
    exact ⟨t.take i, t.drop i, (List.take_append_drop i t).symm, beginsWithTimestamp_iff.mp h⟩

instance (t : Text) : Decidable (BeginsStamped t) := decidable_of_iff _ beginsWithTimestamp_iff

instance (t : Text) : Decidable (HoldsTimestamp t) := decidable_of_iff _ holdsTimestamp_iff.symm

/-! ## Timestamps do not overlap -/

/-- The letter is the eleventh code point. -/
theorem beginsWithTimestamp_letter {t : Text} (h : beginsWithTimestamp t = true) :
    t[10]? = some (CodePoint.ofChar 'T') := by
  unfold beginsWithTimestamp at h
  split at h
  · simp only [Bool.and_eq_true, CodePoint.is_iff] at h
    rw [h.2]
    rfl
  · cases h

/-- The ten code points in front of the letter are digits and dashes. -/
theorem beginsWithTimestamp_date {t : Text} (h : beginsWithTimestamp t = true) {i : Nat}
    (hi : i < 10) : t[i]? ≠ some (CodePoint.ofChar 'T') := by
  intro hT
  have hmem : CodePoint.ofChar 'T' ∈ t.take 10 :=
    List.mem_of_getElem? (by rw [List.getElem?_take_of_lt hi, hT])
  unfold beginsWithTimestamp at h
  split at h
  · rename_i a b c d h1 e f h2 g i t rest
    simp only [Bool.and_eq_true, CodePoint.is_iff] at h
    obtain ⟨⟨⟨⟨⟨⟨⟨⟨⟨⟨ha, hb⟩, hc⟩, hd⟩, h1⟩, he⟩, hf⟩, h2⟩, hg⟩, hi⟩, -⟩ := h
    have hno : (CodePoint.ofChar 'T').isDigit = false := by decide
    simp only [List.take_succ_cons, List.take_zero, List.mem_cons, List.not_mem_nil, or_false]
      at hmem
    rcases hmem with rfl | rfl | rfl | rfl | rfl | rfl | rfl | rfl | rfl | rfl
    all_goals simp_all [CodePoint.ofChar]
  · cases h

/-- The test looks at eleven code points only. -/
theorem beginsWithTimestamp_append_of_length {a b : Text} (ha : 11 ≤ a.length) :
    beginsWithTimestamp (a ++ b) = beginsWithTimestamp a := by
  match a, ha with
  | _ :: _ :: _ :: _ :: _ :: _ :: _ :: _ :: _ :: _ :: _ :: _, _ => rfl

/-- **No timestamp begins inside another one.** Where a text that is glued to another one begins
with a timestamp, a timestamp that begins earlier also ends earlier. -/
theorem beginsWithTimestamp_of_append {a b : Text} (ha : a ≠ [])
    (hb : beginsWithTimestamp b = true) (h : beginsWithTimestamp (a ++ b) = true) :
    beginsWithTimestamp a = true := by
  by_cases hlen : 11 ≤ a.length
  · rwa [beginsWithTimestamp_append_of_length hlen] at h
  · -- the letter of the earlier one falls among the digits and dashes of the later one
    have hT := beginsWithTimestamp_letter h
    rw [List.getElem?_append_right (by omega)] at hT
    have hpos := List.length_pos_iff.mpr ha
    exact absurd hT (beginsWithTimestamp_date hb (by omega))

/-! ## The part in front -/

theorem untilTimestamp_nil (done : Text) : untilTimestamp done [] = done.reverse := rfl

theorem untilTimestamp_of_begins {t : Text} (h : beginsWithTimestamp t = true) (done : Text) :
    untilTimestamp done t = done.reverse := by
  cases t with
  | nil => rfl
  | cons c rest => rw [untilTimestamp, if_pos h]

/-- What no timestamp begins in is passed over. -/
theorem untilTimestamp_append {a b : Text}
    (h : ∀ x y, a = x ++ y → y ≠ [] → beginsWithTimestamp (y ++ b) = false) (done : Text) :
    untilTimestamp done (a ++ b) = untilTimestamp (a.reverse ++ done) b := by
  induction a generalizing done with
  | nil => rfl
  | cons c a ih =>
    have hc : beginsWithTimestamp (c :: (a ++ b)) = false := h [] (c :: a) rfl (by simp)
    rw [List.cons_append, untilTimestamp, if_neg (by simp [hc]), ih ?_]
    · simp
    · intro x y hxy hy
      exact h (c :: x) y (by rw [hxy, List.cons_append]) hy

/-- Nothing, or a text with a timestamp at the front: what may be glued to the module's text. -/
def IsLog (t : Text) : Prop := t = [] ∨ BeginsStamped t

instance (t : Text) : Decidable (IsLog t) := inferInstanceAs (Decidable (t = [] ∨ BeginsStamped t))

/-- Module text without a timestamp is what stands in front of the first one, also when it is glued
to a log text. -/
theorem no_earlier_timestamp {part log : Text} (hp : ¬ HoldsTimestamp part) (hl : IsLog log) :
    ∀ x y, part = x ++ y → y ≠ [] → beginsWithTimestamp (y ++ log) = false := by
  intro x y hxy hy
  cases hb : beginsWithTimestamp (y ++ log) with
  | false => rfl
  | true =>
    have hyb : beginsWithTimestamp y = true := by
      rcases hl with rfl | hl
      · simpa using hb
      · exact beginsWithTimestamp_of_append hy (beginsWithTimestamp_iff.mpr hl) hb
    exact absurd ⟨x, y, hxy, beginsWithTimestamp_iff.mp hyb⟩ hp

theorem untilTimestamp_glued {part log : Text} (hp : ¬ HoldsTimestamp part) (hl : IsLog log) :
    untilTimestamp [] (part ++ log) = part := by
  rw [untilTimestamp_append (no_earlier_timestamp hp hl)]
  rcases hl with rfl | hl
  · simp [untilTimestamp_nil]
  · simp [untilTimestamp_of_begins (beginsWithTimestamp_iff.mpr hl)]

/-- What is left of a line: the module's text without the white space around it, if there is any. -/
theorem ofLine_glued {part log : Text} (hp : ¬ HoldsTimestamp part) (hl : IsLog log) :
    ofLine (part ++ log) =
      if (part.strip isTrimmed).isEmpty then none else some (part.strip isTrimmed) := by
  unfold ofLine
  rw [untilTimestamp_glued hp hl]
  cases hb : beginsWithTimestamp (part ++ log) with
  | false => rfl
  | true =>
    -- a line that begins with a timestamp has no module text at all
    have hpart : part = [] := by
      cases part with
      | nil => rfl
      | cons c part =>
        have hno := no_earlier_timestamp hp hl [] (c :: part) rfl (by simp)
        rw [hno] at hb
        cases hb
    subst hpart
    rfl

variable {c : CodePoint} {s t rest line : Text}

/-! ## Where timestamps stand -/

theorem not_beginsStamped_nil : ¬ BeginsStamped [] := by
  decide

theorem BeginsStamped.of_isPrefix (h : BeginsStamped s) (hs : s <+: t) : BeginsStamped t := by
  obtain ⟨stamp, behind, hstamp, rfl⟩ := h
  obtain ⟨more, rfl⟩ := hs
  exact ⟨stamp, behind ++ more, hstamp, List.append_assoc stamp behind more⟩

theorem holdsTimestamp_cons :
    HoldsTimestamp (c :: rest) ↔ BeginsStamped (c :: rest) ∨ HoldsTimestamp rest := by
  constructor
  · rintro ⟨before, behind, h, hb⟩
    cases before with
    | nil =>
      rw [List.nil_append] at h
      exact .inl (h ▸ hb)
    | cons d before =>
      obtain ⟨-, rfl⟩ := List.cons.inj h
      exact .inr ⟨before, behind, rfl, hb⟩
  · rintro (hb | ⟨before, behind, rfl, hb⟩)
    · exact ⟨[], _, rfl, hb⟩
    · exact ⟨c :: before, behind, rfl, hb⟩

theorem HoldsTimestamp.of_infix (h : HoldsTimestamp s) (hs : s <:+: t) : HoldsTimestamp t := by
  obtain ⟨before, behind, rfl, hb⟩ := h
  obtain ⟨front, back, rfl⟩ := hs
  refine ⟨front ++ before, behind ++ back, by simp, hb.of_isPrefix (List.prefix_append behind back)⟩

/-! ## The first of them -/

theorem untilTimestamp_eq (done t : Text) :
    untilTimestamp done t = done.reverse ++ untilTimestamp [] t := by
  induction t generalizing done with
  | nil => simp [untilTimestamp_nil]
  | cons c rest ih =>
    by_cases h : beginsWithTimestamp (c :: rest) = true
    · rw [untilTimestamp_of_begins h, untilTimestamp_of_begins h]
      simp
    · rw [untilTimestamp, if_neg h, untilTimestamp, if_neg h, ih (c :: done), ih [c]]
      simp

theorem untilTimestamp_of_begins_stamped (h : BeginsStamped t) : untilTimestamp [] t = [] :=
  untilTimestamp_of_begins (beginsWithTimestamp_iff.mpr h) []

theorem untilTimestamp_cons (h : ¬ BeginsStamped (c :: rest)) :
    untilTimestamp [] (c :: rest) = c :: untilTimestamp [] rest := by
  rw [untilTimestamp, if_neg (fun hb => h (beginsWithTimestamp_iff.mp hb)), untilTimestamp_eq]
  rfl

theorem isPrefix_untilTimestamp (line : Text) : untilTimestamp [] line <+: line := by
  induction line with
  | nil => exact List.prefix_rfl
  | cons c rest ih =>
    by_cases h : BeginsStamped (c :: rest)
    · rw [untilTimestamp_of_begins_stamped h]
      exact List.nil_prefix
    · rw [untilTimestamp_cons h]
      exact (List.prefix_cons_inj c).mpr ih

/-- No timestamp is left in front of the first one. -/
theorem not_holdsTimestamp_untilTimestamp (line : Text) :
    ¬ HoldsTimestamp (untilTimestamp [] line) := by
  induction line with
  | nil =>
    rw [untilTimestamp_nil]
    decide
  | cons c rest ih =>
    by_cases h : BeginsStamped (c :: rest)
    · rw [untilTimestamp_of_begins_stamped h]
      decide
    · rw [untilTimestamp_cons h, holdsTimestamp_cons, not_or]
      refine ⟨fun hb => h (hb.of_isPrefix ?_), ih⟩
      exact (List.prefix_cons_inj c).mpr (isPrefix_untilTimestamp rest)

/-! ## What is kept of a line -/

def trimmed (t : Text) : Option Text :=
  let part := t.strip isTrimmed
  if part.isEmpty then none else some part

/-- What is in front of a timestamp at the front of a line is nothing, so the line needs no rule of
its own. -/
theorem ofLine_eq_trimmed (line : Text) : ofLine line = trimmed (untilTimestamp [] line) := by
  unfold ofLine
  split
  · rename_i h
    rw [untilTimestamp_of_begins h]
    rfl
  · rfl

end WasmReceipt.ModuleOutput
