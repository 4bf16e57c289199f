import WasmReceipt.Document
import WasmReceipt.Proofs.Json.Parts
import WasmReceipt.Proofs.Json.Refusal
import WasmReceipt.Proofs.Run

/-! # Integers that are read

The reader makes no integers of its own: those of a value are those of the tokens that it was read
from, whatever arrays and objects they stand in. So a value that has been read holds no integer that
is too long to be written. -/

namespace WasmReceipt

/-! ## What digits spell -/

namespace Decimal

/-- Digits spell less than a one with as many zeros. -/
theorem value_lt_pow {digits : List Nat} (h : ∀ d ∈ digits, d < 10) :
    value digits < Nat.pow 10 digits.length := by
  have hfoldl (n : Nat) :
      digits.foldl (fun n d => 10 * n + d) n < (n + 1) * Nat.pow 10 digits.length := by
    induction digits generalizing n with
    | nil => exact Nat.lt_of_lt_of_eq (Nat.lt_succ_self n) (Nat.mul_one _).symm
    | cons d digits ih =>
      have hd := h d List.mem_cons_self
      have hrest := ih (fun e he => h e (List.mem_cons_of_mem d he)) (10 * n + d)
      have hle : (10 * n + d + 1) * Nat.pow 10 digits.length ≤
          (n + 1) * 10 * Nat.pow 10 digits.length :=
        Nat.mul_le_mul_right _ (by omega)
      have hpow : Nat.pow 10 (digits.length + 1) = 10 * Nat.pow 10 digits.length := Nat.pow_succ'
      rw [List.foldl_cons, List.length_cons, hpow, ← Nat.mul_assoc]
      exact Nat.lt_of_lt_of_le hrest hle
  have hzero := hfoldl 0
  rwa [Nat.zero_add, Nat.one_mul] at hzero

theorem natAbs_signed (negative : Bool) (n : Nat) : (signed negative n).natAbs = n := by
  cases negative with
  | false => rfl
  | true => exact Int.natAbs_neg n

end Decimal

namespace Json

variable {t : Text} {v : Json} {token : Token} {c : CodePoint} {rest : Text}

/-- An integer has no more digits than it is spelled with. -/
theorem digitCount_digits {digits : Text} (hd : ∀ c ∈ digits, c.isDigit = true) {k : Nat}
    (hk : 0 < k) (hlength : digits.length ≤ k) (negative : Bool) :
    Decimal.digitCount (Decimal.signed negative (digitsValue digits)) ≤ k := by
  have hall : ∀ d ∈ digits.map (·.val - 0x30), d < 10 := by
    intro d hmem
    obtain ⟨c, hc, rfl⟩ := List.mem_map.mp hmem
    have hdigit := hd c hc
    simp only [CodePoint.isDigit, Bool.and_eq_true, decide_eq_true_eq] at hdigit
    omega
  have hlt := Decimal.value_lt_pow hall
  rw [List.length_map] at hlt
  rw [Decimal.digitCount_le_iff hk, Decimal.natAbs_signed]
  exact Nat.lt_of_lt_of_le hlt (Nat.pow_le_pow_right (by decide) hlength)

/-! ## Tokens -/

def Token.Fits (token : Token) : Prop := ∀ v, token = .value v → v.integersFit = true

theorem isDigit_takeWhole (s : Text) : ∀ c ∈ (takeWhole s).1, c.isDigit = true := by
  unfold takeWhole
  split
  · split
    · rename_i hzero
      rw [CodePoint.is_iff.mp hzero]
      exact List.forall_mem_singleton.mpr rfl
    · exact fun c hc => List.all_eq_true.mp List.all_takeWhile c hc
  · exact List.forall_mem_nil _

theorem fits_numberToken {whole : Text} (hd : ∀ c ∈ whole, c.isDigit = true) (negative : Bool)
    (fraction : Text) (exponent : Option (Bool × Text)) :
    (numberToken negative whole fraction exponent).Fits := by
  unfold numberToken
  split
  · split
    · rintro v ⟨⟩
    · rename_i hlength
      rintro v ⟨⟩
      exact decide_eq_true (digitCount_digits hd (by decide) (Nat.not_lt.mp hlength) negative)
  · rintro v ⟨⟩
    rfl

theorem fits_readNumber {negative : Bool} {s : Text}
    (h : readNumber negative s = some (token, rest)) : token.Fits := by
  unfold readNumber at h
  dsimp only at h
  split at h
  · cases h
  · cases h
    exact fits_numberToken (isDigit_takeWhole s) _ _ _

theorem fits_readScalar {s : Text} (h : readScalar s = some (token, rest)) : token.Fits := by
  unfold readScalar at h
  split at h
  · rename_i found hfound
    cases h
    rw [readWord, Option.map_eq_some_iff] at hfound
    obtain ⟨word, hword, hfound⟩ := hfound
    have hwords : ∀ w ∈ words, w.2.integersFit = true := by decide
    cases hfound
    rintro v ⟨⟩
    exact hwords word (List.mem_of_find?_eq_some hword)
  · split at h
    · split at h
      · exact fits_readNumber h
      · exact fits_readNumber h
    · cases h

theorem fits_mark (h : mark? c = some token) : token.Fits := by
  rintro v rfl
  unfold mark? at h
  repeat' split at h
  all_goals cases h

theorem fits_readToken (c : CodePoint) (rest : Text) : (readToken c rest).1.Fits := by
  unfold readToken
  split
  · rename_i token htoken
    exact fits_mark htoken
  split
  · split
    · rintro v ⟨⟩
    · rintro v ⟨⟩
  split
  · rename_i found hscalar
    exact fits_readScalar hscalar
  · rintro v ⟨⟩

theorem fits_of_mem_tokens (h : token ∈ tokens t) : token.Fits := by
  obtain ⟨c, rest, -, rfl⟩ := exists_leaves_of_mem_tokens h
  exact fits_readToken c rest

/-! ## The reader -/

/-- No integer that has been read into an open array or object is too long. -/
def Frame.Fits : Frame → Prop
  | .array done => ∀ v ∈ done, v.integersFit = true
  | .object done _ => ∀ m ∈ done, m.2.integersFit = true

/-- No integer in what has been read last is too long. -/
def Expect.Fits : Expect → Prop
  | .name done | .colon done _ => ∀ m ∈ done, m.2.integersFit = true
  | .after v => v.integersFit = true
  | _ => True

variable {stack stack' : List Frame} {expect expect' : Expect} {done : Members}

theorem integersFit_array_iff {items : List Json} :
    (array items).integersFit = true ↔ ∀ v ∈ items, v.integersFit = true := by
  rw [integersFit, itemsFit_eq_all, List.all_eq_true]

theorem integersFit_object_iff {ms : Members} :
    (object ms).integersFit = true ↔ ∀ m ∈ ms, m.2.integersFit = true := by
  rw [integersFit, membersFit_eq_all, List.all_eq_true]

theorem fits_set (hd : ∀ m ∈ done, m.2.integersFit = true) (hv : v.integersFit = true)
    (name : Text) : ∀ m ∈ done.set name v, m.2.integersFit = true := by
  induction done with
  | nil => simpa [Members.set] using hv
  | cons first done ih =>
    obtain ⟨n, w⟩ := first
    rw [List.forall_mem_cons] at hd
    rw [Members.set]
    split
    · exact List.forall_mem_cons.mpr ⟨hv, hd.2⟩
    · exact List.forall_mem_cons.mpr ⟨hd.1, ih hd.2⟩

theorem fits_beginValue (ht : token.Fits) (hs : ∀ frame ∈ stack, frame.Fits)
    (h : beginValue stack token = .ok (stack', expect')) :
    (∀ frame ∈ stack', frame.Fits) ∧ expect'.Fits := by
  cases token with
  | openArray =>
    simp only [beginValue] at h
    split at h
    · cases h
      exact ⟨List.forall_mem_cons.mpr ⟨List.forall_mem_nil _, hs⟩, trivial⟩
    · cases h
  | openObject =>
    simp only [beginValue] at h
    split at h
    · cases h
      exact ⟨hs, trivial⟩
    · cases h
  | string s =>
    cases h
    exact ⟨hs, rfl⟩
  | value v =>
    cases h
    exact ⟨hs, ht v rfl⟩
  | _ => cases h

theorem fits_beginMember (hs : ∀ frame ∈ stack, frame.Fits)
    (hd : ∀ m ∈ done, m.2.integersFit = true)
    (h : beginMember stack done token = .ok (stack', expect')) :
    (∀ frame ∈ stack', frame.Fits) ∧ expect'.Fits := by
  cases token with
  | string name =>
    cases h
    exact ⟨hs, hd⟩
  | _ => cases h

theorem fits_endValue (hs : ∀ frame ∈ stack, frame.Fits) (hv : v.integersFit = true)
    (h : endValue stack v token = .ok (stack', expect')) :
    (∀ frame ∈ stack', frame.Fits) ∧ expect'.Fits := by
  unfold endValue at h
  split at h
  · cases h
  · cases h
    obtain ⟨hfirst, hs⟩ := List.forall_mem_cons.mp hs
    exact ⟨List.forall_mem_cons.mpr ⟨List.forall_mem_cons.mpr ⟨hv, hfirst⟩, hs⟩, trivial⟩
  · cases h
    obtain ⟨hfirst, hs⟩ := List.forall_mem_cons.mp hs
    refine ⟨hs, integersFit_array_iff.mpr fun w hw => ?_⟩
    rcases List.mem_cons.mp (List.mem_reverse.mp hw) with rfl | hw
    · exact hv
    · exact hfirst w hw
  · cases h
    obtain ⟨hfirst, hs⟩ := List.forall_mem_cons.mp hs
    exact ⟨hs, fits_set hfirst hv _⟩
  · cases h
    obtain ⟨hfirst, hs⟩ := List.forall_mem_cons.mp hs
    exact ⟨hs, integersFit_object_iff.mpr (fits_set hfirst hv _)⟩
  · cases h

/-- **A step brings in no integer but that of its token.** -/
theorem step_fits (ht : token.Fits) (hs : ∀ frame ∈ stack, frame.Fits) (he : expect.Fits)
    (h : step stack expect token = .ok (stack', expect')) :
    (∀ frame ∈ stack', frame.Fits) ∧ expect'.Fits := by
  unfold step at h
  split at h
  · exact fits_beginValue ht hs h
  · cases h
    exact ⟨fun frame hframe => hs frame (List.mem_of_mem_tail hframe), rfl⟩
  · exact fits_beginValue ht hs h
  · cases h
    exact ⟨hs, rfl⟩
  · exact fits_beginMember hs (List.forall_mem_nil _) h
  · exact fits_beginMember hs he h
  · cases h
    exact ⟨List.forall_mem_cons.mpr ⟨he, hs⟩, trivial⟩
  · cases h
  · exact fits_endValue hs he h

theorem run_fits {ts : List Token} (hts : ∀ token ∈ ts, token.Fits)
    (hs : ∀ frame ∈ stack, frame.Fits) (he : expect.Fits) (h : run stack expect ts = .ok v) :
    v.integersFit = true := by
  induction ts generalizing stack expect with
  | nil =>
    unfold run at h
    split at h
    · cases h
      exact he
    · cases h
  | cons token ts ih =>
    obtain ⟨htoken, hts⟩ := List.forall_mem_cons.mp hts
    rw [run] at h
    cases hstep : step stack expect token with
    | ok next =>
      rw [hstep] at h
      obtain ⟨hs', he'⟩ := step_fits htoken hs he hstep
      exact ih hts hs' he' h
    | error fault =>
      rw [hstep] at h
      cases h

/-- **No integer in a value that is read is too long to be written.** -/
theorem integersFit_of_read (h : read t = .ok v) : v.integersFit = true := by
  have he : Expect.value.Fits := trivial
  exact run_fits (fun _ => fits_of_mem_tokens) (List.forall_mem_nil _) he h

theorem integersFit_of_ofDocument {document : Content} (h : ofDocument document = .ok v) :
    v.integersFit = true := by
  have hread := eq_ok_of_mapError h
  cases document with
  | text t =>
    rw [readDocument] at hread
    split at hread
    · cases hread
    · exact integersFit_of_read (eq_ok_of_mapError hread)
  | bytes b =>
    rw [readDocument] at hread
    split at hread
    · exact integersFit_of_read (eq_ok_of_mapError hread)
    · cases hread

end Json

end WasmReceipt
