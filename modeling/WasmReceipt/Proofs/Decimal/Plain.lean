import Mathlib.Data.List.TakeWhile
import WasmReceipt.Proofs.Decimal.Numeral
import WasmReceipt.Proofs.Run

/-! # What the plain grammar reads

The reader of the plain grammar tidies a text and reads the digits that are left. Each step of the
tidying drops one part of a numeral and nothing else, so the numbers from one on are read from
numerals only. -/

namespace WasmReceipt.Decimal

open CodePoint (isWhiteSpace)

variable {t rest front body digits fraction : Text} {c d : CodePoint} {i n : Int}

/-! ## Underscores -/

/-- An underscore at the front stands beside nothing. -/
theorem withoutUnderscores_underscore :
    withoutUnderscores (CodePoint.ofChar '_' :: t) = none := by
  unfold withoutUnderscores
  rw [List.splitOn_cons_eq_if_modifyHead]
  rfl

theorem withoutUnderscores_singleton (hc : c ≠ CodePoint.ofChar '_') :
    withoutUnderscores [c] = some [c] := by
  have hsplit : [c].splitOn (CodePoint.ofChar '_') = [[c]] :=
    List.splitOn_eq_singleton (by simpa using Ne.symm hc)
  simp [withoutUnderscores, hsplit]

/-- An underscore behind another character is dropped, -/
theorem withoutUnderscores_dropped (hc : c ≠ CodePoint.ofChar '_') :
    withoutUnderscores (c :: CodePoint.ofChar '_' :: t) = (withoutUnderscores t).map (c :: ·) := by
  have hsplit : (c :: CodePoint.ofChar '_' :: t).splitOn (CodePoint.ofChar '_') =
      [c] :: t.splitOn (CodePoint.ofChar '_') := by
    rw [List.splitOn_cons_eq_if_modifyHead, if_neg (by simpa using hc),
      List.splitOn_cons_eq_if_modifyHead, if_pos (by simp)]
    rfl
  unfold withoutUnderscores
  rw [hsplit]
  dsimp only
  rw [List.all_cons, List.isEmpty_cons, Bool.not_false, Bool.true_and, List.flatten_cons]
  split <;> rfl

/-- and other characters stay. -/
theorem withoutUnderscores_kept (hc : c ≠ CodePoint.ofChar '_') (hd : d ≠ CodePoint.ofChar '_') :
    withoutUnderscores (c :: d :: t) = (withoutUnderscores (d :: t)).map (c :: ·) := by
  obtain ⟨first, others, hfirst⟩ : ∃ first others,
      (d :: t).splitOn (CodePoint.ofChar '_') = (d :: first) :: others := by
    obtain ⟨first, others, hrest⟩ := List.exists_cons_of_ne_nil
      (List.splitOn_ne_nil (CodePoint.ofChar '_') t)
    refine ⟨first, others, ?_⟩
    rw [List.splitOn_cons_eq_if_modifyHead, if_neg (by simpa using hd), hrest]
    rfl
  have hsplit : (c :: d :: t).splitOn (CodePoint.ofChar '_') = (c :: d :: first) :: others := by
    rw [List.splitOn_cons_eq_if_modifyHead, if_neg (by simpa using hc), hfirst]
    rfl
  unfold withoutUnderscores
  rw [hsplit, hfirst]
  dsimp only
  simp only [List.all_cons, List.isEmpty_cons, Bool.not_false, Bool.true_and, List.flatten_cons]
  split <;> rfl

theorem ne_underscore (hc : c.isDigit = true) : c ≠ CodePoint.ofChar '_' :=
  CodePoint.ne_ofChar_of_isDigit hc rfl

theorem withoutUnderscores_of_grouped (h : Grouped body digits) :
    withoutUnderscores body = some digits := by
  induction h with
  | last hc => exact withoutUnderscores_singleton (ne_underscore hc)
  | digit hc h ih =>
    obtain ⟨d, rest, others, hd, rfl, rfl⟩ := h.exists_head
    rw [withoutUnderscores_kept (ne_underscore hc) (ne_underscore hd), ih]
    rfl
  | underscore hc _ ih =>
    rw [withoutUnderscores_dropped (ne_underscore hc), ih]
    rfl

/-- What is digits without its underscores is digits in groups. -/
theorem grouped_of_withoutUnderscores : ∀ {body digits : Text},
    withoutUnderscores body = some digits → (∀ c ∈ digits, c.isDigit = true) → Grouped body digits
  | [], _, h, _ => by cases h
  | c :: t, digits, h, hd => by
    have hc : c ≠ CodePoint.ofChar '_' := by
      rintro rfl
      rw [withoutUnderscores_underscore] at h
      cases h
    match t with
    | [] =>
      rw [withoutUnderscores_singleton hc] at h
      cases h
      exact .last (hd c List.mem_cons_self)
    | d :: t =>
      by_cases hdrop : d = CodePoint.ofChar '_'
      · rw [hdrop, withoutUnderscores_dropped hc, Option.map_eq_some_iff] at h
        obtain ⟨others, hothers, rfl⟩ := h
        obtain ⟨hfirst, hrest⟩ := List.forall_mem_cons.mp hd
        rw [hdrop]
        exact .underscore hfirst (grouped_of_withoutUnderscores hothers hrest)
      · rw [withoutUnderscores_kept hc hdrop, Option.map_eq_some_iff] at h
        obtain ⟨others, hothers, rfl⟩ := h
        obtain ⟨hfirst, hrest⟩ := List.forall_mem_cons.mp hd
        exact .digit hfirst (grouped_of_withoutUnderscores hothers hrest)

/-! ## Fractions -/

theorem ne_point_of_mem (hbody : CodePoint.ofChar '.' ∉ body) :
    ∀ c ∈ body, (!CodePoint.is c '.') = true := by
  intro c hc
  rw [Bool.not_eq_true', ← Bool.not_eq_true, CodePoint.is_iff]
  rintro rfl
  exact hbody hc

theorem withoutZeroFraction_append (hbody : CodePoint.ofChar '.' ∉ body) (h : Fraction fraction) :
    withoutZeroFraction (body ++ fraction) = some body := by
  have hplain := ne_point_of_mem hbody
  unfold withoutZeroFraction
  cases h with
  | none => rw [List.append_nil, List.dropWhile_eq_nil_iff.mpr hplain]
  | zeros n =>
    rw [List.dropWhile_append_of_pos hplain, List.takeWhile_append_of_pos hplain]
    simp [CodePoint.is_iff]

theorem exists_fraction (h : withoutZeroFraction t = some body) :
    ∃ fraction, Fraction fraction ∧ t = body ++ fraction := by
  unfold withoutZeroFraction at h
  have hsplit := List.takeWhile_append_dropWhile (p := fun c : CodePoint => !c.is '.') (l := t)
  split at h
  · cases h
    exact ⟨[], .none, (List.append_nil t).symm⟩
  · rename_i point zeros hdrop
    split at h
    · rename_i hzeros
      cases h
      have hpoint : point = CodePoint.ofChar '.' := by
        have hhead := List.head?_dropWhile_not (fun c : CodePoint => !c.is '.') t
        rw [hdrop] at hhead
        exact CodePoint.is_iff.mp (by simpa using hhead)
      obtain ⟨hne, hall⟩ := Bool.and_eq_true_iff.mp hzeros
      refine ⟨point :: zeros, ?_, ?_⟩
      · obtain ⟨n, hn⟩ : ∃ n, zeros.length = n + 1 := by
          cases zeros with
          | nil => cases hne
          | cons c zeros => exact ⟨zeros.length, rfl⟩
        have hreplicate : zeros = List.replicate (n + 1) (CodePoint.ofChar '0') := by
          rw [List.eq_replicate_iff]
          exact ⟨hn, fun c hc => CodePoint.is_iff.mp (List.all_eq_true.mp hall c hc)⟩
        rw [hpoint, hreplicate]
        exact .zeros n
      · rw [← hdrop, hsplit]
    · cases h

/-! ## Zeros in front -/

theorem afterZero_append {zeros : Text} {last : CodePoint}
    (hz : ∀ c ∈ zeros, c = CodePoint.ofChar '0' ∨ c = CodePoint.ofChar '_')
    (hd : d.isDigit = true) (hne : d ≠ CodePoint.ofChar '0') :
    afterZero last (zeros ++ d :: rest) = some (d :: rest) := by
  induction zeros generalizing last with
  | nil =>
    have hskip : (d.is '0' || d.is '_') = false := by
      rw [Bool.or_eq_false_iff, ← Bool.not_eq_true, ← Bool.not_eq_true, CodePoint.is_iff,
        CodePoint.is_iff]
      exact ⟨hne, ne_underscore hd⟩
    rw [List.nil_append, afterZero, hskip, hd]
    rfl
  | cons c zeros ih =>
    obtain ⟨hc, hrest⟩ := List.forall_mem_cons.mp hz
    have hskip : (c.is '0' || c.is '_') = true := by
      rcases hc with rfl | rfl <;> decide
    rw [List.cons_append, afterZero, hskip, if_pos rfl]
    exact ih hrest

/-- Only zeros and underscores are dropped in front of another digit. -/
theorem exists_zeros {last : CodePoint}
    (hlast : last = CodePoint.ofChar '0' ∨ last = CodePoint.ofChar '_')
    (h : afterZero last t = some (d :: rest)) (hd : d.isDigit = true)
    (hne : d ≠ CodePoint.ofChar '0') :
    ∃ zeros : Text, (∀ c ∈ zeros, c = CodePoint.ofChar '0' ∨ c = CodePoint.ofChar '_') ∧
      t = zeros ++ d :: rest := by
  have hother : ¬ d = last := by
    rintro rfl
    exact hlast.elim hne (ne_underscore hd)
  induction t generalizing last with
  | nil =>
    cases h
    exact absurd rfl hother
  | cons c t ih =>
    rw [afterZero] at h
    split at h
    · rename_i hskip
      rw [Bool.or_eq_true, CodePoint.is_iff, CodePoint.is_iff] at hskip
      obtain ⟨zeros, hzeros, rfl⟩ := ih hskip h (by
        rintro rfl
        exact hskip.elim hne (ne_underscore hd))
      exact ⟨c :: zeros, List.forall_mem_cons.mpr ⟨hskip, hzeros⟩, rfl⟩
    split at h
    · cases h
      exact ⟨[], List.forall_mem_nil _, rfl⟩
    split at h
    · cases h
      exact absurd rfl hother
    · cases h

theorem withoutLeadingZeros_append (hfront : Front front) (hd : d.isDigit = true)
    (hne : d ≠ CodePoint.ofChar '0') :
    withoutLeadingZeros (front ++ d :: rest) = some (d :: rest) := by
  cases hfront with
  | none =>
    have hzero : d.is '0' = false := by
      rw [← Bool.not_eq_true, CodePoint.is_iff]
      exact hne
    rw [List.nil_append, withoutLeadingZeros, hzero, hd]
    rfl
  | zeros hz =>
    have hzero : (CodePoint.ofChar '0').is '0' = true := by decide
    rw [List.cons_append, withoutLeadingZeros, hzero, if_pos rfl]
    exact afterZero_append hz hd hne

theorem exists_front (h : withoutLeadingZeros t = some (d :: rest)) (hd : d.isDigit = true)
    (hne : d ≠ CodePoint.ofChar '0') : ∃ front, Front front ∧ t = front ++ d :: rest := by
  unfold withoutLeadingZeros at h
  split at h
  · cases h
  · rename_i c t
    split at h
    · rename_i hzero
      have hc := CodePoint.is_iff.mp hzero
      obtain ⟨zeros, hzeros, rfl⟩ := exists_zeros (.inl rfl) (hc ▸ h) hd hne
      exact ⟨c :: zeros, hc ▸ .zeros hzeros, rfl⟩
    split at h
    · cases h
      exact ⟨[], .none, rfl⟩
    · cases h

/-! ## Signs -/

theorem exists_sign (t : Text) :
    ∃ sign, Sign (takeSign t).1 sign ∧ t = sign ++ (takeSign t).2 := by
  cases t with
  | nil => exact ⟨[], .none, rfl⟩
  | cons c t =>
    rw [takeSign]
    split
    · rename_i hminus
      rw [CodePoint.is_iff.mp hminus]
      exact ⟨_, .minus, rfl⟩
    split
    · rename_i hplus
      rw [CodePoint.is_iff.mp hplus]
      exact ⟨_, .plus, rfl⟩
    · exact ⟨[], .none, rfl⟩

theorem takeSign_append {negative : Bool} {sign : Text} (h : Sign negative sign)
    (hd : d.isDigit = true) : takeSign (sign ++ d :: rest) = (negative, d :: rest) := by
  cases h with
  | none =>
    have hminus : d.is '-' = false := by
      rw [← Bool.not_eq_true, CodePoint.is_iff]
      exact CodePoint.ne_ofChar_of_isDigit hd rfl
    have hplus : d.is '+' = false := by
      rw [← Bool.not_eq_true, CodePoint.is_iff]
      exact CodePoint.ne_ofChar_of_isDigit hd rfl
    rw [List.nil_append, takeSign, hminus, hplus]
    rfl
  | plus => rfl
  | minus => rfl

/-! ## The exact grammar -/

/-- The digits of a number from one on, as they are written. -/
structure IsPositive (digits : Text) : Prop where
  nonempty : digits ≠ []
  isDigit : ∀ c ∈ digits, c.isDigit = true
  head : digits.head? ≠ some (CodePoint.ofChar '0')
  short : digits.length ≤ maxDigits

theorem Grouped.isPositive (h : Grouped body digits)
    (hhead : digits.head? ≠ some (CodePoint.ofChar '0')) (hshort : digits.length ≤ maxDigits) :
    IsPositive digits := by
  refine ⟨?_, h.isDigit, hhead, hshort⟩
  obtain ⟨c, rest, others, -, -, rfl⟩ := h.exists_head
  exact List.cons_ne_nil c others

theorem filterMap_asciiDigit? (hd : ∀ c ∈ digits, c.isDigit = true) :
    digits.filterMap asciiDigit? = digits.map (·.val - 0x30) := by
  induction digits with
  | nil => rfl
  | cons c digits ih =>
    obtain ⟨hc, hrest⟩ := List.forall_mem_cons.mp hd
    have hfirst : asciiDigit? c = some (c.val - 0x30) := by rw [asciiDigit?, if_pos hc]
    rw [List.filterMap_cons_some hfirst, ih hrest, List.map_cons]

def minus (negative : Bool) : Text := if negative then "-" else []

/-- The outcomes of the exact grammar behind a minus or none: a zero, a number from one on, a run of
digits that is too long, and whatever is neither of the first two. -/
inductive ReadsExact (negative : Bool) (body : Text) : Except Fault Int → Prop
  | zero : body = [CodePoint.ofChar '0'] → ReadsExact negative body (.ok 0)
  | positive : IsPositive body → ReadsExact negative body (.ok (signed negative (spelt body)))
  | tooLong {c : CodePoint} {rest : Text} {k : Nat} : body = c :: rest → c.isDigit = true →
      c ≠ CodePoint.ofChar '0' → maxDigits < (body.takeWhile (·.isDigit)).length →
      ReadsExact negative body (.error (.tooLong k))
  | malformed : body ≠ [CodePoint.ofChar '0'] → ¬ IsPositive body →
      ReadsExact negative body (.error .malformed)

theorem IsPositive.takeWhile_eq (h : IsPositive digits) : digits.takeWhile (·.isDigit) = digits :=
  List.takeWhile_eq_self_iff.mpr h.isDigit

theorem exists_minus (t : Text) :
    t = minus (t.head?.any (·.is '-')) ++ if t.head?.any (·.is '-') then t.drop 1 else t := by
  cases t with
  | nil => rfl
  | cons c t =>
    rw [List.head?_cons, Option.any_some]
    cases hc : c.is '-' with
    | true =>
      rw [CodePoint.is_iff.mp hc]
      rfl
    | false => rfl

/-- Every text is a minus or nothing, and one of the outcomes behind it. -/
theorem exists_readsExact (t : Text) :
    ∃ negative body, t = minus negative ++ body ∧ ReadsExact negative body (readExact t) := by
  refine ⟨_, _, exists_minus t, ?_⟩
  unfold readExact
  dsimp only
  generalize (t.head?.any (·.is '-')) = negative
  generalize (if negative = true then t.drop 1 else t) = body
  have hdigit : ∀ c ∈ body.takeWhile (·.isDigit), c.isDigit = true :=
    fun c hc => List.mem_takeWhile_imp hc
  have hbody := List.takeWhile_append_dropWhile (p := (·.isDigit)) (l := body)
  generalize body.dropWhile (·.isDigit) = after at hbody
  -- in turn: no digit, a zero, too many digits, junk behind the digits, the digits alone
  split
  · rename_i htake
    refine .malformed ?_ fun hpositive => hpositive.nonempty (hpositive.takeWhile_eq.symm.trans htake)
    rintro rfl
    cases htake
  · rename_i first others htake
    have hlong : ((first :: others).filterMap asciiDigit?).length =
        (body.takeWhile (·.isDigit)).length := by
      rw [filterMap_asciiDigit? (htake ▸ hdigit), List.length_map, htake]
    rw [htake, List.cons_append] at hbody
    rw [hlong]
    by_cases hzero : first.is '0' = true
    · rw [if_pos hzero]
      rw [CodePoint.is_iff] at hzero
      split
      · rename_i hone
        obtain ⟨c, hc⟩ := List.length_eq_one_iff.mp hone
        rw [hc] at hbody ⊢
        rw [← (List.cons.inj hbody).1, hzero]
        exact .zero rfl
      · rename_i hmore
        refine .malformed (fun hone => hmore (congrArg List.length hone)) fun hpositive => ?_
        refine hpositive.head ?_
        rw [← hbody, hzero]
        rfl
    · rw [if_neg hzero]
      rw [CodePoint.is_iff] at hzero
      have hfirst : first.isDigit = true := hdigit first (htake ▸ List.mem_cons_self)
      split
      · rename_i htooLong
        exact .tooLong hbody.symm hfirst hzero htooLong
      split
      · rename_i hmore
        refine .malformed (fun hone => ?_) fun hpositive => ?_
        · rw [hone] at hbody
          exact hzero (List.cons.inj hbody).1
        · rw [hpositive.takeWhile_eq] at hmore
          exact Nat.lt_irrefl _ hmore
      · rename_i hshort hall
        have hself : body.takeWhile (·.isDigit) = body :=
          (List.takeWhile_prefix _).eq_of_length_le (Nat.not_lt.mp hall)
        rw [hself] at hdigit hshort htake
        rw [← htake, filterMap_asciiDigit? hdigit]
        refine .positive ⟨?_, hdigit, ?_, Nat.not_lt.mp hshort⟩
        · rw [htake]
          exact List.cons_ne_nil first others
        · rw [htake]
          exact fun hhead => hzero (Option.some.inj hhead)

theorem readExact_of_isPositive (h : IsPositive digits) :
    readExact digits = .ok (spelt digits) := by
  obtain ⟨negative, body, hdigits, hreads⟩ := exists_readsExact digits
  have hplus : negative = false := by
    cases negative with
    | false => rfl
    | true =>
      have hminus := h.isDigit (CodePoint.ofChar '-') (by rw [hdigits]; exact List.mem_cons_self)
      cases hminus
  subst hplus
  obtain rfl : digits = body := hdigits
  generalize readExact digits = outcome at hreads
  cases hreads with
  | zero hzero => exact absurd (congrArg List.head? hzero) h.head
  | positive _ => rfl
  | tooLong _ _ _ hlong =>
    rw [h.takeWhile_eq] at hlong
    exact absurd h.short (Nat.not_le.mpr hlong)
  | malformed _ hnot => exact absurd h hnot

/-- What is read exactly is a zero or the digits of a number from one on, with a minus or not. -/
theorem exists_exact (h : readExact t = .ok i) :
    ∃ negative digits, t = minus negative ++ digits ∧
      (digits = [CodePoint.ofChar '0'] ∧ i = 0 ∨
        IsPositive digits ∧ i = signed negative (spelt digits)) := by
  obtain ⟨negative, body, ht, hreads⟩ := exists_readsExact t
  rw [h] at hreads
  refine ⟨negative, body, ht, ?_⟩
  cases hreads with
  | zero hzero => exact .inl ⟨hzero, rfl⟩
  | positive hpositive => exact .inr ⟨hpositive, rfl⟩

/-- What is told to be too long begins with a minus, or with too many digits. -/
theorem exists_run_of_tooLong {k : Nat} (h : readExact t = .error (.tooLong k)) :
    t.head? = some (CodePoint.ofChar '-') ∨
      (∃ c, t.head? = some c ∧ c.isDigit = true ∧ c ≠ CodePoint.ofChar '0') ∧
        maxDigits < (t.takeWhile (·.isDigit)).length := by
  obtain ⟨negative, body, rfl, hreads⟩ := exists_readsExact t
  rw [h] at hreads
  cases negative with
  | true => exact .inl rfl
  | false =>
    cases hreads with
    | @tooLong c _ _ hbody hdigit hne hlong =>
      exact .inr ⟨⟨c, congrArg List.head? hbody, hdigit, hne⟩, hlong⟩

/-! ## The plain grammar -/

theorem isWhiteSpace_of_isDigit (hc : c.isDigit = true) : isWhiteSpace c = false := by
  simp only [CodePoint.isDigit, Bool.and_eq_true, decide_eq_true_eq] at hc
  rw [← Bool.not_eq_true]
  simp only [CodePoint.isWhiteSpace, CodePoint.isAsciiBlank, Bool.or_eq_true, Bool.and_eq_true,
    beq_iff_eq, decide_eq_true_eq]
  omega

theorem not_isDigit_of_isWhiteSpace (hc : isWhiteSpace c = true) : c.isDigit = false := by
  rw [← Bool.not_eq_true]
  intro hd
  rw [isWhiteSpace_of_isDigit hd] at hc
  cases hc

/-- A numeral of a number from one on, with its parts. There is no minus in it. -/
theorem Numeral.exists_parts (h : Numeral t n) (hn : 1 ≤ n) :
    ∃ sign front body digits fraction, Sign false sign ∧ Front front ∧ Grouped body digits ∧
      IsPositive digits ∧ Fraction fraction ∧ t = sign ++ (front ++ (body ++ fraction)) ∧
      n = spelt digits := by
  cases h with
  | @mk negative sign front body digits fraction hsign hfront hbody hhead hshort hfraction =>
    cases negative with
    | true =>
      simp only [signed, if_true] at hn
      omega
    | false =>
      exact ⟨sign, front, body, digits, fraction, hsign, hfront, hbody,
        hbody.isPositive hhead hshort, hfraction, rfl, rfl⟩

theorem IsPositive.exists_head (h : IsPositive digits) :
    ∃ c others, c.isDigit = true ∧ c ≠ CodePoint.ofChar '0' ∧ digits = c :: others := by
  obtain ⟨c, others, rfl⟩ := List.exists_cons_of_ne_nil h.nonempty
  refine ⟨c, others, h.isDigit c List.mem_cons_self, ?_, rfl⟩
  rintro rfl
  exact h.head rfl

theorem Grouped.point_notMem (h : Grouped body digits) : CodePoint.ofChar '.' ∉ body := by
  intro hmem
  rcases h.mem hmem with hdigit | heq
  · cases hdigit
  · exact absurd heq (by decide)

/-- A numeral is tidied to its digits. -/
theorem tidied?_of_parts {negative : Bool} {sign : Text}
    (ht : t.strip isWhiteSpace = sign ++ (front ++ (body ++ fraction))) (hsign : Sign negative sign)
    (hfront : Front front) (hbody : Grouped body digits) (hd : IsPositive digits)
    (hfraction : Fraction fraction) : tidied? t = some (minus negative ++ digits) := by
  obtain ⟨c, rest, others, -, hhead, hdigits⟩ := hbody.exists_head
  obtain ⟨d, others', hc, hne, hdigits'⟩ := hd.exists_head
  rw [hdigits] at hdigits'
  cases hdigits'
  have hzeros : withoutLeadingZeros (front ++ (body ++ fraction)) = some (body ++ fraction) := by
    rw [hhead, List.cons_append]
    exact withoutLeadingZeros_append hfront hc hne
  have htake : takeSign (sign ++ (front ++ (body ++ fraction))) =
      (negative, front ++ (body ++ fraction)) := by
    obtain ⟨d, rest', hd, hfirst⟩ : ∃ d rest', d.isDigit = true ∧
        front ++ (body ++ fraction) = d :: rest' := by
      cases hfront with
      | none => exact ⟨c, rest ++ fraction, hc, by rw [hhead]; rfl⟩
      | zeros _ => exact ⟨_, _, rfl, rfl⟩
    rw [hfirst]
    exact takeSign_append hsign hd
  rw [tidied?, ht, htake]
  dsimp only
  rw [hzeros]
  simp only [Option.bind_eq_bind, Option.bind_some,
    withoutZeroFraction_append hbody.point_notMem hfraction, withoutUnderscores_of_grouped hbody]
  cases negative <;> rfl

/-- What can be read exactly is tidy. -/
theorem tidied?_of_exact (h : readExact t = .ok i) : tidied? t = some t := by
  obtain ⟨negative, digits, rfl, hdigits⟩ := exists_exact h
  rcases hdigits with ⟨rfl, -⟩ | ⟨hd, -⟩
  · cases negative <;> rfl
  · have hwhite : ∀ c ∈ minus negative ++ digits, isWhiteSpace c = false := by
      intro c hc
      rcases List.mem_append.mp hc with hc | hc
      · cases negative with
        | false => cases hc
        | true =>
          rw [List.mem_singleton.mp hc]
          rfl
      · exact isWhiteSpace_of_isDigit (hd.isDigit c hc)
    have hstrip : (minus negative ++ digits).strip isWhiteSpace =
        minus negative ++ ([] ++ (digits ++ [])) := by
      rw [List.append_nil, List.nil_append]
      exact Text.strip_eq_self (fun c hc => hwhite c (List.mem_of_head? hc))
        fun c hc => hwhite c (List.mem_of_getLast? hc)
    have hsign : Sign negative (minus negative) := by
      cases negative with
      | false => exact .none
      | true => exact .minus
    exact tidied?_of_parts hstrip hsign .none (grouped_self hd.nonempty hd.isDigit) hd .none

theorem isPositive_of_readExact (hn : 1 ≤ n) (h : readExact t = .ok n) :
    IsPositive t ∧ n = spelt t := by
  obtain ⟨negative, digits, rfl, hdigits⟩ := exists_exact h
  rcases hdigits with ⟨-, rfl⟩ | ⟨hd, rfl⟩
  · omega
  · cases negative with
    | false => exact ⟨hd, rfl⟩
    | true =>
      simp only [signed, if_true] at hn
      omega

/-- What was tidied to digits is a numeral. -/
theorem numeral_of_tidied? (h : tidied? t = some digits) (hd : IsPositive digits) :
    Numeral (t.strip isWhiteSpace) (spelt digits) := by
  obtain ⟨sign, hsign, hstrip⟩ := exists_sign (t.strip isWhiteSpace)
  rw [tidied?] at h
  generalize takeSign (t.strip isWhiteSpace) = taken at h hsign hstrip
  obtain ⟨negative, unsigned⟩ := taken
  simp only [Option.bind_eq_bind, Option.bind_eq_some_iff] at h
  obtain ⟨whole, hwhole, body, hbody, found, hfound, hdigits⟩ := h
  obtain ⟨c, others, hc, hne, rfl⟩ := hd.exists_head
  cases negative with
  | true =>
    cases hdigits
    cases hc
  | false =>
    cases hdigits
    have hgrouped := grouped_of_withoutUnderscores hfound hd.isDigit
    obtain ⟨fraction, hfraction, rfl⟩ := exists_fraction hbody
    obtain ⟨d, rest, others', hd', rfl, hfirst⟩ := hgrouped.exists_head
    obtain ⟨rfl, rfl⟩ := List.cons.inj hfirst
    obtain ⟨front, hfront, hunsigned⟩ := exists_front hwhole hc hne
    rw [hstrip]
    dsimp only
    rw [hunsigned]
    exact .mk hsign hfront hgrouped hd.head hd.short hfraction

/-- The digits at the front of a numeral are not too many, with white space around it or not. -/
theorem not_tooLong_of_numeral (hn : 1 ≤ n) (h : Numeral (t.strip isWhiteSpace) n) (k : Nat) :
    readExact t ≠ .error (.tooLong k) := by
  intro hlong
  obtain ⟨sign, front, body, digits, fraction, hsign, hfront, hbody, hd, hfraction, hparts, -⟩ :=
    h.exists_parts hn
  have hrun := exists_run_of_tooLong hlong
  have hhead : ∀ c, t.head? = some c → isWhiteSpace c = false := by
    intro c hc
    rcases hrun with hminus | ⟨⟨d, hd, hdigit, -⟩, -⟩
    · rw [hc] at hminus
      cases hminus
      rfl
    · rw [hc] at hd
      cases hd
      exact isWhiteSpace_of_isDigit hdigit
  obtain ⟨after, hafter, ht⟩ := Text.exists_eq_strip_append hhead
  rw [hparts] at ht
  obtain ⟨c, rest, others, hc, rfl, -⟩ := hbody.exists_head
  -- neither a minus nor a zero nor a plus is in front, so the groups are
  cases hsign with
  | plus =>
    rw [ht] at hrun
    rcases hrun with hminus | ⟨⟨d, hd, hdigit, -⟩, -⟩
    · cases hminus
    · cases hd
      cases hdigit
  | none =>
    cases hfront with
    | zeros _ =>
      rw [ht] at hrun
      rcases hrun with hminus | ⟨⟨d, hd, -, hne⟩, -⟩
      · cases hminus
      · cases hd
        exact hne rfl
    | none =>
      have hend : ∀ d, (fraction ++ after).head? = some d → d.isDigit = false := by
        intro d hd
        cases hfraction with
        | zeros _ =>
          cases hd
          rfl
        | none => exact not_isDigit_of_isWhiteSpace (hafter d (List.mem_of_head? hd))
      have hle := hbody.length_run_le hend
      rw [List.nil_append, List.nil_append, List.append_assoc] at ht
      rw [← ht] at hle
      rcases hrun with hminus | ⟨-, hrun⟩
      · rw [ht] at hminus
        cases hminus
        cases hc
      · exact absurd (Nat.lt_of_lt_of_le hrun hle) (Nat.not_lt.mpr hd.short)

/-- **The plain grammar takes the numerals of numbers from one on**, with white space around
them. -/
theorem readPlain_eq_ok_iff_numeral (hn : 1 ≤ n) :
    readPlain t = .ok n ↔ Numeral (t.strip isWhiteSpace) n := by
  constructor
  · intro h
    obtain ⟨spelling, htidy, hexact⟩ :
        ∃ spelling, tidied? t = some spelling ∧ readExact spelling = .ok n := by
      unfold readPlain at h
      split at h
      · rename_i htidy
        exact ⟨_, htidy, eq_ok_of_mapError h⟩
      · exact ⟨t, tidied?_of_exact h, h⟩
    obtain ⟨hd, rfl⟩ := isPositive_of_readExact hn hexact
    exact numeral_of_tidied? htidy hd
  · intro h
    obtain ⟨sign, front, body, digits, fraction, hsign, hfront, hbody, hd, hfraction, hparts, rfl⟩ :=
      h.exists_parts hn
    have htidy : tidied? t = some digits :=
      tidied?_of_parts hparts hsign hfront hbody hd hfraction
    have hexact := readExact_of_isPositive hd
    rw [readPlain, htidy]
    cases ht : readExact t with
    | ok i =>
      have hsame := tidied?_of_exact ht
      rw [htidy] at hsame
      cases hsame
      exact ht.symm.trans hexact
    | error fault =>
      cases fault with
      | malformed =>
        dsimp only
        rw [hexact]
        rfl
      | tooLong k => exact absurd ht (not_tooLong_of_numeral hn h k)

end WasmReceipt.Decimal
