import Mathlib.Data.List.Infix
import Mathlib.Logic.ExistsUnique
import WasmReceipt.Proofs.ModuleOutput.ControlSequence

/-! # The one way to cut a text at its control sequences

If no sequence may begin inside a literal part, there is one way to cut a text: from the front, a
sequence is taken where one begins, and one code point is passed where none does. What is left of
the text without its sequences is the literal parts of this cut, in their order. -/

namespace WasmReceipt.ModuleOutput

variable {c : CodePoint} {q s t u rest after behind : Text}

/-! ## Where a sequence ends -/

/-- Two sequences at the front of a text are one. -/
theorem IsSequence.append_inj (hq : IsSequence q) (hs : IsSequence s)
    (h : q ++ after = s ++ behind) : q = s ∧ after = behind := by
  have hend {q : Text} (hq : IsSequence q) (after : Text) :
      ∃ c rest, q ++ after = c :: rest ∧ afterSequence? rest = some after := by
    cases hq with
    | mk _ hbracket hp hi hf =>
      subst hbracket
      exact ⟨_, _, rfl, afterSequence?_of_parts _ hp hi hf⟩
  obtain ⟨c, rest, hcons, hafter⟩ := hend hq after
  obtain ⟨d, rest', hcons', hbehind⟩ := hend hs behind
  obtain ⟨-, rfl⟩ := List.cons.inj (hcons.symm.trans (h.trans hcons'))
  rw [hafter] at hbehind
  cases hbehind
  exact ⟨List.append_cancel_right h, rfl⟩

theorem beginsSequence_cons_iff :
    BeginsSequence (c :: rest) ↔ isEscape c = true ∧ (afterSequence? rest).isSome = true := by
  constructor
  · rintro ⟨q, after, hq, h⟩
    cases hq with
    | mk hescape hbracket hp hi hf =>
      subst hbracket
      obtain ⟨rfl, rfl⟩ := List.cons.inj h
      exact ⟨hescape, Option.isSome_of_eq_some (afterSequence?_of_parts after hp hi hf)⟩
  · rintro ⟨hescape, hafter⟩
    obtain ⟨after, hafter⟩ := Option.isSome_iff_exists.mp hafter
    exact beginsSequence_of_afterSequence? hescape hafter

instance : DecidablePred BeginsSequence
  | [] => .isFalse not_beginsSequence_nil
  | _ :: _ => decidable_of_iff' _ beginsSequence_cons_iff

/-! ## Cuts -/

/-- A way to write a text: a literal part, and behind it sequences, each with the literal part up to
the next one. -/
structure Cut where
  front : Text
  others : List (Text × Text)

namespace Cut

def joined (others : List (Text × Text)) : Text := others.flatMap fun part => part.1 ++ part.2

def text (cut : Cut) : Text := cut.front ++ joined cut.others

def kept (cut : Cut) : Text := cut.front ++ cut.others.flatMap Prod.snd

end Cut

/-- No sequence begins inside a part of a text, not even one that goes on into what stands behind
the part. -/
def IsLiteral (part behind : Text) : Prop :=
  ∀ ending ∈ part.tails, ending ≠ [] → ¬ BeginsSequence (ending ++ behind)

instance : Decidable (IsLiteral u behind) :=
  inferInstanceAs (Decidable (∀ ending ∈ u.tails, ending ≠ [] → ¬ BeginsSequence (ending ++ behind)))

structure Cut.IsLeftmost (cut : Cut) : Prop where
  sequences : ∀ part ∈ cut.others, IsSequence part.1
  front : IsLiteral cut.front (joined cut.others)
  others : ∀ before sequence literal after, cut.others = before ++ (sequence, literal) :: after →
    IsLiteral literal (joined after)

/-- A text is written by a cut without a sequence that begins inside a literal part. -/
structure Cut.Of (cut : Cut) (t : Text) : Prop where
  isLeftmost : cut.IsLeftmost
  text : cut.text = t

theorem isLiteral_nil (behind : Text) : IsLiteral [] behind := by
  intro ending hending hne
  exact absurd (List.suffix_nil.mp ((List.mem_tails _ _).mp hending)) hne

theorem isLiteral_cons_iff :
    IsLiteral (c :: u) behind ↔ ¬ BeginsSequence (c :: (u ++ behind)) ∧ IsLiteral u behind := by
  unfold IsLiteral
  rw [List.tails_cons, List.forall_mem_cons]
  exact and_congr_left' (by simp)

namespace Cut

variable {cut : Cut} {others : List (Text × Text)}

/-! ## One way -/

theorem isLeftmost_nil : IsLeftmost ⟨[], []⟩ := ⟨by simp, isLiteral_nil _, by simp⟩

theorem isLeftmost_iff :
    IsLeftmost ⟨u, others⟩ ↔ IsLiteral u (joined others) ∧ IsLeftmost ⟨[], others⟩ :=
  ⟨fun h => ⟨h.front, h.sequences, isLiteral_nil _, h.others⟩,
    fun h => ⟨h.2.sequences, h.1, h.2.others⟩⟩

/-- Behind a sequence a cut goes on as one of its own. -/
theorem isLeftmost_nil_iff :
    IsLeftmost ⟨[], (s, u) :: others⟩ ↔ IsSequence s ∧ IsLeftmost ⟨u, others⟩ := by
  constructor
  · intro h
    refine ⟨h.sequences _ List.mem_cons_self, ?_, h.others [] s u others rfl, ?_⟩
    · exact fun part hpart => h.sequences part (List.mem_cons_of_mem _ hpart)
    · intro before sequence literal after heq
      exact h.others ((s, u) :: before) sequence literal after (congrArg ((s, u) :: ·) heq)
  · rintro ⟨hs, h⟩
    refine ⟨List.forall_mem_cons.mpr ⟨hs, h.sequences⟩, isLiteral_nil _, ?_⟩
    intro before sequence literal after heq
    cases before with
    | nil =>
      cases heq
      exact h.front
    | cons first before => exact h.others before sequence literal after (List.cons.inj heq).2

theorem isLeftmost_cons_iff :
    IsLeftmost ⟨c :: u, others⟩ ↔
      ¬ BeginsSequence (c :: (u ++ joined others)) ∧ IsLeftmost ⟨u, others⟩ := by
  rw [isLeftmost_iff, isLiteral_cons_iff, and_assoc, ← isLeftmost_iff]

theorem of_nil_iff : cut.Of [] ↔ cut = ⟨[], []⟩ := by
  constructor
  · rintro ⟨hleft, htext⟩
    obtain ⟨front, others⟩ := cut
    obtain ⟨rfl, hothers⟩ := List.append_eq_nil_iff.mp htext
    cases others with
    | nil => rfl
    | cons part others =>
      have hs := hleft.sequences part List.mem_cons_self
      have hnil : part.1 ++ part.2 ++ joined others = [] := hothers
      simp only [List.append_eq_nil_iff] at hnil
      exact absurd hnil.1.1 hs.ne_nil
  · rintro rfl
    exact ⟨isLeftmost_nil, rfl⟩

/-- Where a sequence begins, it is cut off. -/
theorem of_sequence_iff (hq : IsSequence q) :
    cut.Of (q ++ after) ↔
      ∃ u others, cut = ⟨[], (q, u) :: others⟩ ∧ Of ⟨u, others⟩ after := by
  constructor
  · rintro ⟨hleft, htext⟩
    obtain ⟨front, others⟩ := cut
    cases front with
    | cons c u =>
      obtain ⟨hnone, -⟩ := isLeftmost_cons_iff.mp hleft
      exact absurd ⟨q, after, hq, htext⟩ hnone
    | nil =>
      cases others with
      | nil => exact absurd (List.append_eq_nil_iff.mp htext.symm).1 hq.ne_nil
      | cons part others =>
        obtain ⟨s, u⟩ := part
        obtain ⟨hs, hrest⟩ := isLeftmost_nil_iff.mp hleft
        have hjoined : s ++ (u ++ joined others) = q ++ after := by
          rw [← List.append_assoc]
          exact htext
        obtain ⟨rfl, hafter⟩ := hs.append_inj hq hjoined
        exact ⟨u, others, rfl, hrest, hafter⟩
  · rintro ⟨u, others, rfl, hrest, rfl⟩
    exact ⟨isLeftmost_nil_iff.mpr ⟨hq, hrest⟩, List.append_assoc q u (joined others)⟩

/-- Where none begins, the code point belongs to a literal part. -/
theorem of_cons_iff (h : ¬ BeginsSequence (c :: rest)) :
    cut.Of (c :: rest) ↔ ∃ u others, cut = ⟨c :: u, others⟩ ∧ Of ⟨u, others⟩ rest := by
  constructor
  · rintro ⟨hleft, htext⟩
    obtain ⟨front, others⟩ := cut
    cases front with
    | cons d u =>
      obtain ⟨-, hrest⟩ := isLeftmost_cons_iff.mp hleft
      obtain ⟨rfl, hu⟩ := List.cons.inj htext
      exact ⟨u, others, rfl, hrest, hu⟩
    | nil =>
      cases others with
      | nil => cases htext
      | cons part others =>
        have hs := hleft.sequences part List.mem_cons_self
        have hjoined : c :: rest = part.1 ++ (part.2 ++ joined others) := by
          rw [← List.append_assoc]
          exact htext.symm
        exact absurd ⟨part.1, _, hs, hjoined⟩ h
  · rintro ⟨u, others, rfl, hrest, rfl⟩
    exact ⟨isLeftmost_cons_iff.mpr ⟨h, hrest⟩, rfl⟩

theorem existsUnique_of (t : Text) : ∃! cut : Cut, cut.Of t := by
  induction t using scan_induction with
  | nil => exact ⟨⟨[], []⟩, of_nil_iff.mpr rfl, fun cut hcut => of_nil_iff.mp hcut⟩
  | sequence q after hq ih =>
    obtain ⟨⟨u, others⟩, hof, hunique⟩ := ih
    refine ⟨⟨[], (q, u) :: others⟩, (of_sequence_iff hq).mpr ⟨u, others, rfl, hof⟩, ?_⟩
    intro cut hcut
    obtain ⟨v, more, rfl, hv⟩ := (of_sequence_iff hq).mp hcut
    cases hunique _ hv
    rfl
  | char c rest h ih =>
    obtain ⟨⟨u, others⟩, hof, hunique⟩ := ih
    refine ⟨⟨c :: u, others⟩, (of_cons_iff h).mpr ⟨u, others, rfl, hof⟩, ?_⟩
    intro cut hcut
    obtain ⟨v, more, rfl, hv⟩ := (of_cons_iff h).mp hcut
    cases hunique _ hv
    rfl

/-! ## What is left of a text -/

/-- The scan keeps the literal parts. -/
theorem Of.plain_eq (h : cut.Of t) : plain t = cut.kept := by
  induction t using scan_induction generalizing cut with
  | nil =>
    obtain rfl := of_nil_iff.mp h
    exact plain_nil
  | sequence q after hq ih =>
    obtain ⟨u, others, rfl, hrest⟩ := (of_sequence_iff hq).mp h
    rw [plain_sequence hq, ih hrest]
    rfl
  | char c rest hc ih =>
    obtain ⟨u, others, rfl, hrest⟩ := (of_cons_iff hc).mp h
    rw [plain_cons_of_not_begins hc, ih hrest]
    rfl

end Cut

theorem plain_eq_self_iff : plain t = t ↔ ¬ HoldsSequence t := by
  constructor
  · intro h hholds
    have hlt := length_plain_lt hholds
    rw [h] at hlt
    exact Nat.lt_irrefl _ hlt
  · exact plain_of_not_holds

/-- **What is left of a text is its literal parts.** There is exactly one way to cut a text into
complete control sequences and literal parts such that no sequence begins inside a literal part. So
a text is left as it is exactly if it holds no complete sequence, and a text without escape
characters comes back from whatever sequences are put into it. -/
theorem plain_by_literals (t : Text) :
    (∃! cut : Cut, cut.Of t) ∧ (∀ cut : Cut, cut.Of t → plain t = cut.kept) ∧
      (plain t = t ↔ ¬ HoldsSequence t) ∧
      ((∀ c ∈ t, isEscape c = false) → ∀ s, WithSequences t s → plain s = t) :=
  ⟨Cut.existsUnique_of t, fun _ hcut => hcut.plain_eq, plain_eq_self_iff,
    fun hnone _ hput => plain_of_withSequences hnone hput⟩

/-- Two sequences next to each other, one that breaks off in front of them and one at the end. -/
theorem plain_by_literals_broken :
    let cut : Cut := ⟨"a\x1b[1;", [("\x1b[31m", []), ("\x1b[2 q", "b\x1b[0")]⟩
    let coloured : Text := "\x1b[31m\x1b[2 qred"
    cut.Of "a\x1b[1;\x1b[31m\x1b[2 qb\x1b[0" ∧
      plain "a\x1b[1;\x1b[31m\x1b[2 qb\x1b[0" = ("a\x1b[1;b\x1b[0" : Text) ∧
      (∀ c ∈ ("red" : Text), isEscape c = false) ∧ WithSequences "red" coloured ∧
      plain coloured = "red" := by
  intro cut coloured
  have hcolour : IsSequence "\x1b[31m" :=
    @IsSequence.mk (CodePoint.ofChar '\x1b') (CodePoint.ofChar '[') (CodePoint.ofChar 'm') "31" []
      rfl rfl (by decide) (by decide) rfl
  have hcursor : IsSequence "\x1b[2 q" :=
    @IsSequence.mk (CodePoint.ofChar '\x1b') (CodePoint.ofChar '[') (CodePoint.ofChar 'q') "2" " "
      rfl rfl (by decide) (by decide) rfl
  have hleft : cut.IsLeftmost := by
    refine Cut.isLeftmost_iff.mpr ⟨by decide, Cut.isLeftmost_nil_iff.mpr ⟨hcolour, ?_⟩⟩
    refine Cut.isLeftmost_nil_iff.mpr ⟨hcursor, Cut.isLeftmost_iff.mpr ⟨by decide, ?_⟩⟩
    exact Cut.isLeftmost_nil
  have hcut : cut.Of cut.text := ⟨hleft, rfl⟩
  have hnone : ∀ c ∈ ("red" : Text), isEscape c = false := by decide
  have hput : WithSequences "red" coloured := .sequence hcolour (.sequence hcursor (.refl "red"))
  obtain ⟨-, hkept, -, -⟩ := plain_by_literals cut.text
  obtain ⟨-, -, -, hback⟩ := plain_by_literals "red"
  exact ⟨hcut, hkept cut hcut, hnone, hput, hback hnone coloured hput⟩

end WasmReceipt.ModuleOutput
