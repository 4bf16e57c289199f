import WasmReceipt.Proofs.Json.Nesting

/-! # What a document is refused for

A document that gives no value has a fault in its text, nests too deep, or holds an integer with too
many digits. The last two are no faults of form: for depth there have to be many opening marks, and
a long integer has to stand in the text at a place where a token begins. -/

namespace WasmReceipt

/-- The text of a document holds at most 500 marks that open an array or an object. -/
def Content.IsShallow (document : Content) : Prop :=
  ∀ t, document.DecodesTo t → t.openers ≤ 500

namespace Json

variable {s t rest after digits : Text} {token : Token} {c : CodePoint} {n : Nat}

/-! ## Where tokens begin -/

/-- When a text is read token by token, there comes a point at which an end of it is left. -/
inductive Leaves : Text → Text → Prop
  | start (t : Text) : Leaves t t
  | blank {c : CodePoint} {rest after : Text} :
      c.isJsonBlank = true → Leaves rest after → Leaves (c :: rest) after
  | token {c : CodePoint} {rest after : Text} :
      c.isJsonBlank = false → Leaves (readToken c rest).2 after → Leaves (c :: rest) after

theorem readToken_suffix (c : CodePoint) (rest : Text) : (readToken c rest).2 <:+ c :: rest := by
  unfold readToken
  split
  · exact List.suffix_cons c rest
  split
  · split
    · rename_i value after hstring
      exact (readString_suffix hstring).trans (List.suffix_cons c rest)
    · exact List.nil_suffix
  split
  · rename_i found hscalar
    exact (readScalar_suffix hscalar).2
  · exact List.nil_suffix

theorem Leaves.suffix (h : Leaves t rest) : rest <:+ t := by
  induction h with
  | start t => exact List.suffix_rfl
  | blank _ _ ih => exact ih.trans (List.suffix_cons _ _)
  | token _ _ ih => exact ih.trans (readToken_suffix _ _)

/-- Every token of a text is read from an end of it that is left. -/
theorem exists_leaves_of_mem_tokens (h : token ∈ tokens t) :
    ∃ c rest, Leaves t (c :: rest) ∧ (readToken c rest).1 = token := by
  -- strong induction: a token may take any number of code points
  induction hn : t.length using Nat.strongRecOn generalizing t with
  | ind n ih =>
    subst hn
    cases t with
    | nil =>
      rw [tokens_nil] at h
      cases h
    | cons c rest =>
      cases hb : c.isJsonBlank with
      | true =>
        rw [tokens_blank hb] at h
        obtain ⟨d, after, hleaves, htoken⟩ := ih rest.length (by simp) h rfl
        exact ⟨d, after, .blank hb hleaves, htoken⟩
      | false =>
        have htokens : tokens (c :: rest) = (readToken c rest).1 :: tokens (readToken c rest).2 :=
          tokens_cons hb rfl
        rw [htokens, List.mem_cons] at h
        rcases h with rfl | h
        · exact ⟨c, rest, .start _, rfl⟩
        · obtain ⟨d, after, hleaves, htoken⟩ := ih _ (readToken_length c rest) h rfl
          exact ⟨d, after, .token hb hleaves, htoken⟩

/-! ## Integers that are too long -/

inductive SpellsLongLiteral : Text → Prop
  | intro (negative : Bool) {digits : Text} : IsWhole digits → 4300 < digits.length →
      SpellsLongLiteral (minusText negative ++ digits)

/-- Nothing that belongs to a number follows: no digit, no fraction and no exponent. -/
structure EndsInteger (rest : Text) : Prop where
  digits : EndsDigits rest
  fraction : takeFraction rest = ([], rest)
  exponent : takeExponent rest = (none, rest)

/-- A text holds an integer of more digits than are read, at a place where a token begins. -/
def HoldsLongLiteral (t : Text) : Prop :=
  ∃ before literal after, t = before ++ (literal ++ after) ∧ Leaves t (literal ++ after) ∧
    SpellsLongLiteral literal ∧ EndsInteger after

theorem takeFraction_of_isEmpty (h : (takeFraction s).1.isEmpty = true) :
    takeFraction s = ([], s) := by
  unfold takeFraction at h ⊢
  split
  · rename_i point rest
    split
    · rename_i hpoint
      simp only [if_pos hpoint] at h
      simp [h] at hpoint
    · rfl
  · rfl

theorem takeExponent_of_isNone (h : (takeExponent s).1.isNone = true) :
    takeExponent s = (none, s) := by
  unfold takeExponent at h ⊢
  split
  · dsimp only at h ⊢
    split
    · rename_i hexponent
      rw [if_pos hexponent] at h
      cases h
    · rfl
  · rfl

theorem endsDigits_dropWhile (s : Text) : EndsDigits (s.dropWhile CodePoint.isDigit) := by
  intro c others h
  have hnot := List.head?_dropWhile_not CodePoint.isDigit s
  rw [h] at hnot
  exact hnot

/-- More than one digit before a fraction: they do not begin with zero, and no further one
follows. -/
theorem takeWhole_of_long (h : 1 < (takeWhole s).1.length) :
    IsWhole (takeWhole s).1 ∧ EndsDigits (takeWhole s).2 ∧
      (takeWhole s).1 ++ (takeWhole s).2 = s := by
  cases s with
  | nil => simp [takeWhole] at h
  | cons c rest =>
    cases hzero : c.is '0' with
    | true => simp [takeWhole, hzero] at h
    | false =>
      have htake : takeWhole (c :: rest) =
          ((c :: rest).takeWhile CodePoint.isDigit, (c :: rest).dropWhile CodePoint.isDigit) := by
        simp [takeWhole, hzero]
      rw [htake] at h ⊢
      dsimp only at h ⊢
      refine ⟨⟨?_, ?_, ?_⟩, endsDigits_dropWhile _, List.takeWhile_append_dropWhile⟩
      · exact List.ne_nil_of_length_pos (by omega)
      · exact List.all_eq_true.mp List.all_takeWhile
      · intro d others hdigits hd
        obtain ⟨after, hafter⟩ := List.takeWhile_prefix (l := c :: rest) CodePoint.isDigit
        rw [hdigits] at hafter
        obtain ⟨rfl, -⟩ := List.cons.inj hafter
        rw [hzero] at hd
        cases hd

theorem readNumber_longInteger {negative : Bool}
    (h : readNumber negative s = some (.badValue (.longInteger n), rest)) :
    ∃ digits after, s = digits ++ after ∧ IsWhole digits ∧ 4300 < digits.length ∧
      EndsInteger after := by
  unfold readNumber at h
  dsimp only at h
  split at h
  · cases h
  · obtain ⟨htoken, -⟩ := Prod.mk.inj (Option.some.inj h)
    unfold numberToken at htoken
    split at htoken
    · rename_i hinteger
      split at htoken
      · rename_i hlong
        rw [Bool.and_eq_true] at hinteger
        have hfraction := takeFraction_of_isEmpty hinteger.1
        rw [hfraction] at hinteger
        have hexponent := takeExponent_of_isNone hinteger.2
        have hmax : Decimal.maxDigits = 4300 := rfl
        obtain ⟨hwhole, hdigits, happend⟩ := takeWhole_of_long (s := s) (by omega)
        exact ⟨_, _, happend.symm, hwhole, by omega, hdigits, hfraction, hexponent⟩
      · cases htoken
    · cases htoken

theorem readWord_ne_badValue {fault : ReadFault} : readWord s ≠ some (.badValue fault, rest) := by
  intro h
  rw [readWord, Option.map_eq_some_iff] at h
  obtain ⟨word, -, hword⟩ := h
  cases hword

theorem readScalar_longInteger (h : readScalar s = some (.badValue (.longInteger n), rest)) :
    ∃ literal after, s = literal ++ after ∧ SpellsLongLiteral literal ∧ EndsInteger after := by
  unfold readScalar at h
  split at h
  · rename_i found hfound
    rw [h] at hfound
    exact absurd hfound readWord_ne_badValue
  · split at h
    · split at h
      · rename_i c rest hminus
        obtain ⟨digits, after, rfl, hwhole, hlong, hends⟩ := readNumber_longInteger h
        rw [CodePoint.is_iff.mp hminus]
        exact ⟨_, after, rfl, .intro true hwhole hlong, hends⟩
      · obtain ⟨digits, after, htext, hwhole, hlong, hends⟩ := readNumber_longInteger h
        rw [htext]
        exact ⟨_, after, rfl, .intro false hwhole hlong, hends⟩
    · cases h

theorem mark_ne_badValue {fault : ReadFault} : mark? c ≠ some (.badValue fault) := by
  intro h
  unfold mark? at h
  repeat' split at h
  all_goals cases h

theorem readToken_longInteger (h : (readToken c rest).1 = .badValue (.longInteger n)) :
    ∃ literal after, c :: rest = literal ++ after ∧ SpellsLongLiteral literal ∧
      EndsInteger after := by
  unfold readToken at h
  split at h
  · rename_i token htoken
    exact absurd (htoken.trans (congrArg some h)) mark_ne_badValue
  split at h
  · split at h <;> cases h
  split at h
  · rename_i found hscalar
    exact readScalar_longInteger (hscalar.trans (congrArg some (Prod.ext h rfl)))
  · cases h

/-- **A text with a token that is too long an integer holds one.** -/
theorem holdsLongLiteral_of_mem_tokens (h : .badValue (.longInteger n) ∈ tokens t) :
    HoldsLongLiteral t := by
  obtain ⟨c, rest, hleaves, htoken⟩ := exists_leaves_of_mem_tokens h
  obtain ⟨literal, after, htext, hspells, hends⟩ := readToken_longInteger htoken
  rw [htext] at hleaves
  obtain ⟨before, hbefore⟩ := hleaves.suffix
  exact ⟨before, literal, after, hbefore.symm, hleaves, hspells, hends⟩

/-! ## The reader -/

variable {stack stack' : List Frame} {expect : Expect}

/-- Only a token that is too long an integer is refused as one. -/
theorem step_longInteger (h : step stack expect token = .error (.longInteger n)) :
    token = .badValue (.longInteger n) := by
  have hvalue (h : beginValue stack token = .error (.longInteger n)) :
      token = .badValue (.longInteger n) := by
    cases token with
    | openArray =>
      simp only [beginValue] at h
      split at h <;> cases h
    | openObject =>
      simp only [beginValue] at h
      split at h <;> cases h
    | badValue fault =>
      cases h
      rfl
    | _ => cases h
  have hmember {done : Members} : beginMember stack done token ≠ .error (.longInteger n) := by
    cases token <;> simp [beginMember]
  have hend {v : Json} : endValue stack v token ≠ .error (.longInteger n) := by
    unfold endValue
    split <;> simp
  unfold step at h
  split at h
  · exact hvalue h
  · cases h
  · exact hvalue h
  · cases h
  · exact absurd h hmember
  · exact absurd h hmember
  · cases h
  · cases h
  · exact absurd h hend

theorem run_longInteger {ts : List Token} (h : run stack expect ts = .error (.longInteger n)) :
    .badValue (.longInteger n) ∈ ts := by
  induction ts generalizing stack expect with
  | nil =>
    unfold run at h
    split at h <;> cases h
  | cons token rest ih =>
    rw [run] at h
    cases hstep : step stack expect token with
    | ok next =>
      rw [hstep] at h
      exact List.mem_cons_of_mem token (ih h)
    | error fault =>
      rw [hstep] at h
      cases h
      rw [step_longInteger hstep]
      exact List.mem_cons_self

theorem holdsLongLiteral_of_read (h : read t = .error (.longInteger n)) : HoldsLongLiteral t :=
  holdsLongLiteral_of_mem_tokens (run_longInteger h)

/-! ## Documents -/

variable {document : Content}

/-- **A document is refused for a long integer only if its text holds one.** -/
theorem holdsLongLiteral_of_readDocument
    (h : readDocument document = .error (.content (.longInteger n))) :
    ∃ t, document.DecodesTo t ∧ HoldsLongLiteral t := by
  rcases readDocument_content h with hmark | ⟨t, ht, hread⟩
  · cases hmark
  · exact ⟨t, ht, holdsLongLiteral_of_read hread⟩

/-- **A shallow document is not refused for its depth.** -/
theorem ne_tooDeep_of_isShallow (h : document.IsShallow) :
    readDocument document ≠ .error (.content .tooDeep) :=
  ne_tooDeep_of_decodesTo fun t ht => Nat.le_trans (h t ht) (by decide)

end Json

end WasmReceipt
