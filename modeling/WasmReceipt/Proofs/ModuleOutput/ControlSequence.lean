import WasmReceipt.ModuleOutput
import WasmReceipt.Proofs.Text

/-! # Control sequences put into a text

A control sequence is an escape character, a bracket, parameters, intermediates and a final
byte. The three classes share no code point, so where a sequence ends does not depend on what
follows it. -/

namespace WasmReceipt.ModuleOutput

/-- A complete control sequence. -/
inductive IsSequence : Text → Prop
  | mk {escape bracket final : CodePoint} {parameters intermediates : Text} :
      isEscape escape = true → bracket = CodePoint.ofChar '[' →
      (∀ c ∈ parameters, isParameter c = true) → (∀ c ∈ intermediates, isIntermediate c = true) →
      isFinal final = true →
      IsSequence (escape :: bracket :: (parameters ++ intermediates ++ [final]))

/-- A text with any number of complete control sequences put in at any positions. -/
inductive WithSequences : Text → Text → Prop
  | nil : WithSequences [] []
  | char {t s : Text} (c : CodePoint) : WithSequences t s → WithSequences (c :: t) (c :: s)
  | sequence {q t s : Text} : IsSequence q → WithSequences t s → WithSequences t (q ++ s)

theorem WithSequences.refl : ∀ t : Text, WithSequences t t
  | [] => .nil
  | c :: t => .char c (refl t)

theorem WithSequences.append {t t' s s' : Text} (h : WithSequences t s)
    (h' : WithSequences t' s') : WithSequences (t ++ t') (s ++ s') := by
  induction h with
  | nil => exact h'
  | char c h ih => exact .char c ih
  | sequence hq h ih =>
    rw [List.append_assoc]
    exact .sequence hq ih

/-! ## Classes -/

theorem isParameter_of_isIntermediate {c : CodePoint} (h : isIntermediate c = true) :
    isParameter c = false := by
  simp only [isIntermediate, Bool.and_eq_true, decide_eq_true_eq] at h
  simp only [isParameter, Bool.and_eq_false_iff, decide_eq_false_iff_not]
  omega

theorem isParameter_of_isFinal {c : CodePoint} (h : isFinal c = true) : isParameter c = false := by
  simp only [isFinal, Bool.and_eq_true, decide_eq_true_eq] at h
  simp only [isParameter, Bool.and_eq_false_iff, decide_eq_false_iff_not]
  omega

theorem isIntermediate_of_isFinal {c : CodePoint} (h : isFinal c = true) :
    isIntermediate c = false := by
  simp only [isFinal, Bool.and_eq_true, decide_eq_true_eq] at h
  simp only [isIntermediate, Bool.and_eq_false_iff, decide_eq_false_iff_not]
  omega

/-! ## Dropping one sequence -/

theorem dropWhile_intermediates {intermediates rest : Text} {final : CodePoint}
    (hi : ∀ c ∈ intermediates, isIntermediate c = true) (hf : isFinal final = true) :
    (intermediates ++ final :: rest).dropWhile isIntermediate = final :: rest := by
  rw [List.dropWhile_append_of_pos hi, List.dropWhile_cons_of_neg]
  rw [isIntermediate_of_isFinal hf]
  decide

/-- The parameters end where the intermediates begin, or else the final byte. -/
theorem dropWhile_parameters {parameters intermediates rest : Text} {final : CodePoint}
    (hp : ∀ c ∈ parameters, isParameter c = true)
    (hi : ∀ c ∈ intermediates, isIntermediate c = true) (hf : isFinal final = true) :
    (parameters ++ (intermediates ++ final :: rest)).dropWhile isParameter =
      intermediates ++ final :: rest := by
  rw [List.dropWhile_append_of_pos hp]
  cases intermediates with
  | nil =>
    rw [List.nil_append, List.dropWhile_cons_of_neg]
    rw [isParameter_of_isFinal hf]
    decide
  | cons c intermediates =>
    rw [List.cons_append, List.dropWhile_cons_of_neg]
    rw [isParameter_of_isIntermediate (hi c List.mem_cons_self)]
    decide

theorem afterSequence?_of_parts {parameters intermediates : Text} {final : CodePoint} (rest : Text)
    (hp : ∀ c ∈ parameters, isParameter c = true)
    (hi : ∀ c ∈ intermediates, isIntermediate c = true) (hf : isFinal final = true) :
    afterSequence? (CodePoint.ofChar '[' :: (parameters ++ intermediates ++ [final] ++ rest)) =
      some rest := by
  have hb : (CodePoint.ofChar '[').is '[' = true := by decide
  simp only [afterSequence?, hb, if_true, List.append_assoc, List.singleton_append,
    dropWhile_parameters hp hi hf, dropWhile_intermediates hi hf, hf]

/-- What follows a sequence is the end of what its bracket begins. -/
theorem suffix_of_afterSequence? {t after : Text} (h : afterSequence? t = some after) :
    after <:+ t := by
  unfold afterSequence? at h
  split at h
  · rename_i bracket t
    split at h
    · split at h
      · rename_i final tail htail
        split at h
        · cases h
          have hfinal : final :: after <:+ t := by
            rw [← htail]
            exact (List.dropWhile_suffix isIntermediate).trans (List.dropWhile_suffix isParameter)
          exact (List.suffix_cons final after).trans (hfinal.trans (List.suffix_cons bracket t))
        · cases h
      · cases h
    · cases h
  · cases h

theorem dropSequences_nil (done : Text) : dropSequences done [] = done.reverse := by
  rw [dropSequences]

theorem dropSequences_cons {c : CodePoint} (h : isEscape c = false) (done rest : Text) :
    dropSequences done (c :: rest) = dropSequences (c :: done) rest := by
  rw [dropSequences, if_neg (by simp [h])]

/-- A complete sequence is passed over. -/
theorem dropSequences_of_complete {c : CodePoint} {rest after : Text} (hc : isEscape c = true)
    (h : afterSequence? rest = some after) (done : Text) :
    dropSequences done (c :: rest) = dropSequences done after := by
  rw [dropSequences, if_pos hc]
  split
  · rename_i after' h'
    rw [h] at h'
    cases h'
    rfl
  · rename_i h'
    rw [h] at h'
    cases h'

/-- The escape character of a broken sequence is kept. -/
theorem dropSequences_of_broken {c : CodePoint} {rest : Text} (h : afterSequence? rest = none)
    (done : Text) : dropSequences done (c :: rest) = dropSequences (c :: done) rest := by
  cases hc : isEscape c with
  | false => exact dropSequences_cons hc done rest
  | true =>
    rw [dropSequences, if_pos hc]
    split
    · rename_i after h'
      rw [h] at h'
      cases h'
    · rfl

theorem dropSequences_sequence {q : Text} (h : IsSequence q) (done rest : Text) :
    dropSequences done (q ++ rest) = dropSequences done rest := by
  cases h with
  | @mk escape bracket final parameters intermediates he hb hp hi hf =>
    subst hb
    exact dropSequences_of_complete he (afterSequence?_of_parts rest hp hi hf) done

/-! ## The text so far -/

theorem dropSequences_append (done front t : Text) :
    dropSequences (done ++ front) t = front.reverse ++ dropSequences done t := by
  fun_induction dropSequences done t with
  | case1 done => rw [dropSequences_nil, List.reverse_append]
  | case2 done c rest hc after hafter _ ih => rw [dropSequences_of_complete hc hafter, ih]
  | case3 done c rest hc hnone ih =>
    rw [dropSequences_of_broken hnone, ← List.cons_append, ih]
  | case4 done c rest hc ih =>
    rw [dropSequences_cons (by simpa using hc), ← List.cons_append, ih]

/-- What is kept of the rest does not depend on the text so far. -/
theorem dropSequences_eq (done t : Text) : dropSequences done t = done.reverse ++ plain t :=
  dropSequences_append [] done t

theorem plain_nil : plain [] = [] := dropSequences_nil []

theorem plain_cons {c : CodePoint} (h : isEscape c = false) (t : Text) :
    plain (c :: t) = c :: plain t := by
  rw [plain, dropSequences_cons h, dropSequences_eq]
  rfl

/-! ## Dropping all sequences -/

/-- **Sequences that were put in are dropped, and nothing else is.** -/
theorem plain_of_withSequences {t s : Text} (he : ∀ c ∈ t, isEscape c = false)
    (h : WithSequences t s) : plain s = t := by
  have hgo : ∀ done, dropSequences done s = done.reverse ++ t := by
    induction h with
    | nil =>
      intro done
      simp [dropSequences_nil]
    | char c h ih =>
      intro done
      rw [dropSequences_cons (he c List.mem_cons_self),
        ih (fun d hd => he d (List.mem_cons_of_mem c hd))]
      simp
    | sequence hq h ih =>
      intro done
      rw [dropSequences_sequence hq, ih he]
  exact hgo []

variable {c : CodePoint} {q t rest after : Text}

/-! ## Where sequences stand -/

def BeginsSequence (t : Text) : Prop := ∃ q after, IsSequence q ∧ t = q ++ after

/-- Some complete sequence stands in a text. -/
def HoldsSequence (t : Text) : Prop := ∃ before behind, t = before ++ behind ∧ BeginsSequence behind

theorem IsSequence.ne_nil (h : IsSequence q) : q ≠ [] := by
  cases h
  exact List.cons_ne_nil _ _

theorem not_beginsSequence_nil : ¬ BeginsSequence [] := by
  rintro ⟨q, after, hq, h⟩
  exact hq.ne_nil (List.append_eq_nil_iff.mp h.symm).1

/-- What the scan finds behind an escape character makes up a complete sequence with it. -/
theorem beginsSequence_of_afterSequence? (hc : isEscape c = true)
    (h : afterSequence? rest = some after) : BeginsSequence (c :: rest) := by
  unfold afterSequence? at h
  split at h
  · rename_i bracket t
    split at h
    · rename_i hbracket
      split at h
      · rename_i final tail htail
        split at h
        · rename_i hfinal
          cases h
          have hp := List.takeWhile_append_dropWhile (p := isParameter) (l := t)
          have hi := List.takeWhile_append_dropWhile (p := isIntermediate)
            (l := t.dropWhile isParameter)
          have hsequence := IsSequence.mk hc (CodePoint.is_iff.mp hbracket)
            (List.all_eq_true.mp (List.all_takeWhile (p := isParameter) (l := t)))
            (List.all_eq_true.mp (List.all_takeWhile (p := isIntermediate)
              (l := t.dropWhile isParameter))) hfinal
          refine ⟨_, after, hsequence, ?_⟩
          rw [htail] at hi
          simp [hi, hp]
        · cases h
      · cases h
    · cases h
  · cases h

theorem plain_sequence (h : IsSequence q) (after : Text) : plain (q ++ after) = plain after :=
  dropSequences_sequence h [] after

/-- A code point at which no sequence begins is kept. -/
theorem plain_cons_of_not_begins (h : ¬ BeginsSequence (c :: rest)) :
    plain (c :: rest) = c :: plain rest := by
  cases hc : isEscape c with
  | false => exact plain_cons hc rest
  | true =>
    have hbroken : afterSequence? rest = none := by
      cases hafter : afterSequence? rest with
      | none => rfl
      | some after => exact absurd (beginsSequence_of_afterSequence? hc hafter) h
    rw [plain, dropSequences_of_broken hbroken, dropSequences_eq]
    rfl

/-- **The scan as an induction.** A text is read from its front: a complete sequence as a whole, and
where none begins one code point. -/
theorem scan_induction {motive : Text → Prop} (nil : motive [])
    (sequence : ∀ q after, IsSequence q → motive after → motive (q ++ after))
    (char : ∀ c rest, ¬ BeginsSequence (c :: rest) → motive rest → motive (c :: rest)) (t : Text) :
    motive t := by
  induction hn : t.length using Nat.strongRecOn generalizing t with
  | ind n ih =>
    subst hn
    cases t with
    | nil => exact nil
    | cons c rest =>
      by_cases h : BeginsSequence (c :: rest)
      · obtain ⟨q, after, hq, heq⟩ := h
        have hpos := List.length_pos_iff.mpr hq.ne_nil
        rw [heq]
        refine sequence q after hq (ih after.length ?_ after rfl)
        rw [heq, List.length_append]
        omega
      · exact char c rest h (ih rest.length (by simp) rest rfl)

theorem holdsSequence_cons :
    HoldsSequence (c :: rest) ↔ BeginsSequence (c :: rest) ∨ HoldsSequence rest := by
  constructor
  · rintro ⟨before, behind, h, hb⟩
    cases before with
    | nil =>
      rw [List.nil_append] at h
      exact .inl (h ▸ hb)
    | cons d before =>
      obtain ⟨-, rfl⟩ := List.cons.inj h
      exact .inr ⟨before, behind, rfl, hb⟩
  · rintro (hb | ⟨before, behind, rfl, hb⟩)
    · exact ⟨[], _, rfl, hb⟩
    · exact ⟨c :: before, behind, rfl, hb⟩

theorem not_holdsSequence_nil : ¬ HoldsSequence [] := by
  rintro ⟨before, behind, h, hb⟩
  rw [(List.append_eq_nil_iff.mp h.symm).2] at hb
  exact not_beginsSequence_nil hb

theorem plain_of_not_holds (h : ¬ HoldsSequence t) : plain t = t := by
  induction t with
  | nil => exact plain_nil
  | cons c rest ih =>
    rw [holdsSequence_cons, not_or] at h
    rw [plain_cons_of_not_begins h.1, ih h.2]

theorem length_plain_le (t : Text) : (plain t).length ≤ t.length := by
  induction t using scan_induction with
  | nil => exact Nat.le_of_eq (congrArg List.length plain_nil)
  | sequence q after hq ih =>
    rw [plain_sequence hq, List.length_append]
    omega
  | char c rest h ih =>
    rw [plain_cons_of_not_begins h, List.length_cons, List.length_cons]
    omega

/-- A text with a sequence in it gets shorter. -/
theorem length_plain_lt (h : HoldsSequence t) : (plain t).length < t.length := by
  induction t using scan_induction with
  | nil => exact absurd h not_holdsSequence_nil
  | sequence q after hq ih =>
    have hle := length_plain_le after
    have hpos := List.length_pos_iff.mpr hq.ne_nil
    rw [plain_sequence hq, List.length_append]
    omega
  | char c rest hc ih =>
    have hlt := ih ((holdsSequence_cons.mp h).resolve_left hc)
    rw [plain_cons_of_not_begins hc, List.length_cons, List.length_cons]
    omega

/-- All escape characters of a text open a complete sequence. -/
def EscapesOpen (t : Text) : Prop :=
  ∀ before c behind, t = before ++ c :: behind → isEscape c = true → BeginsSequence (c :: behind)

theorem EscapesOpen.of_append {s : Text} (h : EscapesOpen (s ++ t)) : EscapesOpen t := by
  rintro before c behind rfl hc
  exact h (s ++ before) c behind (List.append_assoc s before _).symm hc

/-- Where every escape character opens a complete sequence, none is left. -/
theorem EscapesOpen.noEscape (h : EscapesOpen t) : ∀ c ∈ plain t, isEscape c = false := by
  induction t using scan_induction with
  | nil => simp [plain_nil]
  | sequence q after hq ih =>
    rw [plain_sequence hq]
    exact ih h.of_append
  | char c rest hc ih =>
    have hrest : EscapesOpen rest := EscapesOpen.of_append (s := [c]) h
    have hplain : isEscape c = false :=
      Bool.eq_false_iff.mpr fun hescape => hc (h [] c rest rfl hescape)
    rw [plain_cons_of_not_begins hc, List.forall_mem_cons]
    exact ⟨hplain, ih hrest⟩

theorem HoldsSequence.exists_escape (h : HoldsSequence t) : ∃ c ∈ t, isEscape c = true := by
  obtain ⟨before, behind, rfl, q, after, hq, rfl⟩ := h
  cases hq with
  | mk hescape => exact ⟨_, by simp, hescape⟩

/-- A sequence stays on one line. -/
theorem IsSequence.noLineFeed (h : IsSequence q) : CodePoint.ofChar '\n' ∉ q := by
  intro hmem
  cases h with
  | mk he hb hp hi hf =>
    subst hb
    simp only [List.mem_cons, List.mem_append, List.not_mem_nil, or_false] at hmem
    rcases hmem with rfl | hbracket | (hmem | hmem) | rfl
    · cases he
    · revert hbracket; decide
    · cases hp _ hmem
    · cases hi _ hmem
    · cases hf

theorem holdsSequence_iff_infix : HoldsSequence t ↔ ∃ q, IsSequence q ∧ q <:+: t := by
  constructor
  · rintro ⟨before, behind, rfl, q, after, hq, rfl⟩
    exact ⟨q, hq, before, after, List.append_assoc before q after⟩
  · rintro ⟨q, hq, before, after, rfl⟩
    exact ⟨before, q ++ after, List.append_assoc before q after, q, after, hq, rfl⟩

end WasmReceipt.ModuleOutput
