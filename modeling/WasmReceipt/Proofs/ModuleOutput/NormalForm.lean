import Mathlib.Data.List.Forall2
import WasmReceipt.Proofs.ModuleOutput.Lines

/-! # What output looks like

Output is left alone when it is read again, but for one thing: where a control sequence was dropped,
what stood on both sides of it may make up another one. Output with such a sequence in it gets
shorter when it is read again, and output without one is its own output. -/

namespace WasmReceipt

/-! ## Lines of a text -/

namespace Text

theorem infix_join {part : Text} {parts : List Text} (h : part ∈ parts) :
    part <:+: join "\n" parts := by
  induction parts with
  | nil => cases h
  | cons first parts ih =>
    cases parts with
    | nil =>
      obtain rfl := List.mem_singleton.mp h
      simp [join]
    | cons next parts =>
      rw [join_cons_cons]
      rcases List.mem_cons.mp h with rfl | h
      · exact (List.prefix_append part _).isInfix
      · have hsuffix := List.suffix_append (first ++ [CodePoint.ofChar '\n'])
          (join "\n" (next :: parts))
        rw [List.append_assoc, List.singleton_append] at hsuffix
        exact (ih h).trans hsuffix.isInfix

theorem infix_of_mem_lines {t line : Text} (h : line ∈ t.lines) : line <:+: t := by
  have hinfix := infix_join h
  rwa [join_lines] at hinfix

end Text

namespace ModuleOutput

variable {t line part : Text}

/-! ## Lines of output -/

/-- A line as it stands in output. -/
structure IsClean (line : Text) : Prop where
  ne_nil : line ≠ []
  head : ∀ c, line.head? = some c → isTrimmed c = false
  last : ∀ c, line.getLast? = some c → isTrimmed c = false
  noTimestamp : ¬ HoldsTimestamp line

theorem eq_strip_of_ofLine (h : ofLine line = some part) :
    part = (untilTimestamp [] line).strip isTrimmed := by
  rw [ofLine_eq_trimmed] at h
  unfold trimmed at h
  dsimp only at h
  split at h
  · cases h
  · exact (Option.some.inj h).symm

/-- What is kept of a line is a part of it, -/
theorem infix_of_ofLine (h : ofLine line = some part) : part <:+: line := by
  rw [eq_strip_of_ofLine h]
  exact (Text.strip_infix _ _).trans (isPrefix_untilTimestamp line).isInfix

/-- and it is clean. -/
theorem isClean_of_ofLine (h : ofLine line = some part) : IsClean part where
  ne_nil := ne_nil_of_ofLine h
  head c hc := by
    rw [eq_strip_of_ofLine h] at hc
    exact Text.head?_strip hc
  last c hc := by
    rw [eq_strip_of_ofLine h] at hc
    exact Text.getLast?_strip hc
  noTimestamp hstamp := by
    rw [eq_strip_of_ofLine h] at hstamp
    exact not_holdsTimestamp_untilTimestamp line (hstamp.of_infix (Text.strip_infix _ _))

/-- A clean line is kept as it is. -/
theorem IsClean.ofLine (h : IsClean line) : ofLine line = some line := by
  have hnolog : IsLog [] := .inl rfl
  have hglued := ofLine_glued h.noTimestamp hnolog
  rw [List.append_nil, Text.strip_eq_self h.head h.last, List.isEmpty_eq_false_iff.mpr h.ne_nil]
    at hglued
  exact hglued

/-! ## Output and what it is read from -/

def partsOf (t : Text) : List Text := (plain t).lines.filterMap ofLine

theorem extract_eq_join (t : Text) : extract t = Text.join "\n" (partsOf t) := rfl

theorem exists_line_of_mem_partsOf (h : part ∈ partsOf t) :
    ∃ line ∈ (plain t).lines, ofLine line = some part := List.mem_filterMap.mp h

theorem lineFeed_notMem_of_mem_partsOf (h : part ∈ partsOf t) : CodePoint.ofChar '\n' ∉ part := by
  obtain ⟨line, hline, hpart⟩ := exists_line_of_mem_partsOf h
  exact fun hfeed => Text.lineFeed_notMem_of_mem_lines hline ((infix_of_ofLine hpart).mem hfeed)

/-- The lines of output are its parts, if there are any. -/
theorem lines_extract (h : partsOf t ≠ []) : (extract t).lines = partsOf t :=
  Text.lines_join (fun _ hpart => lineFeed_notMem_of_mem_partsOf hpart) h

theorem extract_eq_nil (h : partsOf t = []) : extract t = [] := by
  rw [extract_eq_join, h]
  rfl

theorem isClean_of_mem_partsOf (h : part ∈ partsOf t) : IsClean part := by
  obtain ⟨line, -, hpart⟩ := exists_line_of_mem_partsOf h
  exact isClean_of_ofLine hpart

/-- Output is empty, or its lines are clean. -/
theorem extract_nil_or_clean (t : Text) :
    extract t = [] ∨ ∀ line ∈ (extract t).lines, IsClean line := by
  by_cases h : partsOf t = []
  · exact .inl (extract_eq_nil h)
  · rw [lines_extract h]
    exact .inr fun part hpart => isClean_of_mem_partsOf hpart

/-- Parts come from lines at different places, in order. -/
theorem exists_origins (lines : List Text) :
    ∃ origins, origins.Sublist lines ∧
      List.Forall₂ (fun part line : Text => part <:+: line) (lines.filterMap ofLine) origins := by
  induction lines with
  | nil => exact ⟨[], .slnil, .nil⟩
  | cons line lines ih =>
    obtain ⟨origins, hsublist, hall⟩ := ih
    cases hline : ofLine line with
    | none =>
      rw [List.filterMap_cons_none hline]
      exact ⟨origins, hsublist.cons line, hall⟩
    | some part =>
      rw [List.filterMap_cons_some hline]
      exact ⟨line :: origins, hsublist.cons_cons line, .cons (infix_of_ofLine hline) hall⟩

theorem exists_origins_extract (t : Text) :
    ∃ origins, origins.Sublist (plain t).lines ∧
      List.Forall₂ (fun part line : Text => part <:+: line) (extract t).lines origins := by
  by_cases h : partsOf t = []
  · -- no output is one empty line, which stands on any line
    obtain ⟨first, others, hlines⟩ :=
      List.exists_cons_of_ne_nil (List.splitOn_ne_nil (CodePoint.ofChar '\n') (plain t))
    rw [extract_eq_nil h, Text.lines, hlines]
    exact ⟨[first], (List.nil_sublist others).cons_cons first, .cons List.nil_infix .nil⟩
  · rw [lines_extract h]
    exact exists_origins (plain t).lines

/-- Output takes code points away and adds none. -/
theorem join_filterMap_sublist (lines : List Text) :
    (Text.join "\n" (lines.filterMap ofLine)).Sublist (Text.join "\n" lines) := by
  induction lines with
  | nil => exact .slnil
  | cons line lines ih =>
    cases lines with
    | nil =>
      cases hline : ofLine line with
      | none => simp [hline, Text.join]
      | some part => simpa [hline, Text.join] using (infix_of_ofLine hline).sublist
    | cons next lines =>
      rw [Text.join_cons_cons]
      have htail := (ih.cons (CodePoint.ofChar '\n')).trans (List.sublist_append_right line _)
      cases hline : ofLine line with
      | none =>
        rw [List.filterMap_cons_none hline]
        exact htail
      | some part =>
        have hpart := (infix_of_ofLine hline).sublist
        rw [List.filterMap_cons_some hline]
        cases hrest : (next :: lines).filterMap ofLine with
        | nil => simpa [Text.join] using hpart.trans (List.sublist_append_left line _)
        | cons other others =>
          rw [hrest] at ih
          rw [Text.join_cons_cons]
          exact hpart.append (ih.cons_cons _)

theorem length_extract_le (t : Text) : (extract t).length ≤ (plain t).length := by
  have hsublist := join_filterMap_sublist (plain t).lines
  rw [Text.join_lines] at hsublist
  exact hsublist.length_le

/-! ## Output that is read again -/

/-- Clean lines without a sequence are their own output. -/
theorem extract_of_clean (hclean : ∀ line ∈ t.lines, IsClean line) (h : ¬ HoldsSequence t) :
    extract t = t := by
  have hkept : t.lines.filterMap ofLine = t.lines := by
    rw [List.filterMap_congr fun line hline => (hclean line hline).ofLine]
    exact List.filterMap_some
  rw [extract, plain_of_not_holds h, hkept, Text.join_lines]

theorem length_extract_lt (h : HoldsSequence t) : (extract t).length < t.length :=
  Nat.lt_of_le_of_lt (length_extract_le t) (length_plain_lt h)

/-- A sequence in output was left over when sequences had been dropped. -/
theorem HoldsSequence.of_extract (h : HoldsSequence (extract t)) : HoldsSequence (plain t) := by
  obtain ⟨q, hq, hinfix⟩ := holdsSequence_iff_infix.mp h
  obtain ⟨part, hpart, hqpart⟩ := Text.exists_line_of_infix hq.noLineFeed hinfix
  by_cases hparts : partsOf t = []
  · rw [extract_eq_nil hparts] at hinfix
    exact absurd (List.infix_nil.mp hinfix) hq.ne_nil
  · rw [lines_extract hparts] at hpart
    obtain ⟨line, hline, hkept⟩ := exists_line_of_mem_partsOf hpart
    have hqline := hqpart.trans (infix_of_ofLine hkept)
    exact holdsSequence_iff_infix.mpr ⟨q, hq, hqline.trans (Text.infix_of_mem_lines hline)⟩

theorem EscapesOpen.not_holdsSequence_plain (h : EscapesOpen t) : ¬ HoldsSequence (plain t) := by
  intro hholds
  obtain ⟨c, hc, hescape⟩ := hholds.exists_escape
  rw [h.noEscape c hc] at hescape
  cases hescape

/-- A text is its own output exactly if it looks like output and holds no sequence. -/
theorem extract_eq_self_iff :
    extract t = t ↔ (t = [] ∨ ∀ line ∈ t.lines, IsClean line) ∧ ¬ HoldsSequence t := by
  constructor
  · intro h
    have hclean := extract_nil_or_clean t
    rw [h] at hclean
    refine ⟨hclean, fun hholds => ?_⟩
    have hlt := length_extract_lt hholds
    rw [h] at hlt
    exact Nat.lt_irrefl _ hlt
  · rintro ⟨rfl | hclean, hnone⟩
    · exact extract_nil
    · exact extract_of_clean hclean hnone

/-- **The normal form of output, and when reading it again changes nothing.** Output is empty or its
lines are clean, and they are parts of different lines of the stream without its sequences, in
order. It is its own output exactly when no sequence has come about in it, as for every stream whose
escape characters all open a sequence. Output with a sequence in it gets shorter. -/
theorem extract_normal_form (t : Text) :
    (extract t = [] ∨ ∀ line ∈ (extract t).lines, IsClean line) ∧
      (∃ origins, origins.Sublist (plain t).lines ∧
        List.Forall₂ (fun part line : Text => part <:+: line) (extract t).lines origins) ∧
      (extract t = t ↔ (t = [] ∨ ∀ line ∈ t.lines, IsClean line) ∧ ¬ HoldsSequence t) ∧
      (extract (extract t) = extract t ↔ ¬ HoldsSequence (extract t)) ∧
      (HoldsSequence (extract t) → (extract (extract t)).length < (extract t).length) ∧
      (¬ HoldsSequence (plain t) → ¬ HoldsSequence (extract t)) ∧
      (EscapesOpen t → ¬ HoldsSequence (plain t)) := by
  have hclean := extract_nil_or_clean t
  have hagain : extract (extract t) = extract t ↔ ¬ HoldsSequence (extract t) :=
    extract_eq_self_iff.trans (and_iff_right hclean)
  exact ⟨hclean, exists_origins_extract t, extract_eq_self_iff, hagain, length_extract_lt,
    mt HoldsSequence.of_extract, EscapesOpen.not_holdsSequence_plain⟩

/-- A sequence around which another one was split: it is left in the output, and goes when the
output is read again. -/
theorem extract_normal_form_nested :
    let split : Text := "\x1b\x1b[0m[0mok"
    let joined : Text := "\x1b[0mok"
    extract split = joined ∧ HoldsSequence (extract split) ∧
      (extract joined).length < joined.length ∧ extract joined ≠ joined ∧ EscapesOpen joined ∧
      ¬ HoldsSequence (extract joined) ∧ extract (extract joined) = extract joined := by
  intro split joined
  have hsequence : IsSequence "\x1b[0m" :=
    @IsSequence.mk (CodePoint.ofChar '\x1b') (CodePoint.ofChar '[') (CodePoint.ofChar 'm') "0" []
      rfl rfl (by decide) (by decide) rfl
  have hplain : plain split = joined := by
    have hbroken : afterSequence? ("\x1b[0m" ++ "[0mok" : Text) = none := by decide
    have hrest : plain "[0mok" = ("[0mok" : Text) := plain_of_withSequences (by decide) (.refl _)
    calc plain split
        = dropSequences [CodePoint.ofChar '\x1b'] ("\x1b[0m" ++ "[0mok" : Text) :=
          dropSequences_of_broken hbroken []
      _ = dropSequences [CodePoint.ofChar '\x1b'] "[0mok" := dropSequences_sequence hsequence _ _
      _ = joined := by
        rw [dropSequences_eq, hrest]
        rfl
  have hextract : extract split = joined := by
    rw [extract, hplain]
    rfl
  have hholds : HoldsSequence (extract split) := by
    rw [hextract]
    exact ⟨[], joined, rfl, "\x1b[0m", "ok", hsequence, rfl⟩
  have hopen : EscapesOpen joined := by
    intro before c behind h hc
    cases before with
    | nil =>
      rw [List.nil_append] at h
      exact ⟨"\x1b[0m", "ok", hsequence, h.symm⟩
    | cons d before =>
      have hrest : ("[0mok" : Text) = before ++ c :: behind := (List.cons.inj h).2
      have hnone : ∀ d ∈ ("[0mok" : Text), isEscape d = false := by decide
      rw [hnone c (by simp [hrest])] at hc
      cases hc
  obtain ⟨-, -, -, hagain, hshorter, -, -⟩ := extract_normal_form split
  obtain ⟨-, -, -, hfixed, -, hleft, hclean⟩ := extract_normal_form joined
  have hnone := hleft (hclean hopen)
  have hlt := hshorter hholds
  have hne := mt hagain.mp (not_not_intro hholds)
  rw [hextract] at hlt hne
  exact ⟨hextract, hholds, hlt, hne, hopen, hnone, hfixed.mpr hnone⟩

end ModuleOutput

end WasmReceipt
