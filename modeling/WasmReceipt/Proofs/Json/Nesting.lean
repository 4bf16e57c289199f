import WasmReceipt.Json.Encoding
import WasmReceipt.Proofs.Json.Tokens

/-! # How deep a document nests

A document nests no deeper than it has opening brackets and braces: each of them is one token and
opens one array or object. So a document with few of them is never refused for its depth. -/

namespace WasmReceipt

/-- How many characters of a text open an array or an object of JSON. -/
def Text.openers (t : Text) : Nat := t.countP fun c => c.val == 0x5B || c.val == 0x7B

theorem Text.openers_le_of_suffix {s t : Text} (h : s <:+ t) : s.openers ≤ t.openers :=
  h.sublist.countP_le

/-- The text of a document, if it has one: bytes are decoded. -/
inductive Content.DecodesTo : Content → Text → Prop
  | text (t : Text) : DecodesTo (.text t) t
  | bytes {b : Bytes} {t : Text} : Json.decode b = .ok t → DecodesTo (.bytes b) t

namespace Json

variable {s rest : Text} {token : Token}

/-! ## What a token leaves

Whatever is read from the front of a text leaves an end of it. -/

theorem lowEscape?_suffix {c : CodePoint} (h : lowEscape? s = some (c, rest)) : rest <:+ s := by
  unfold lowEscape? at h
  split at h
  · rename_i backslash u a b x d next after
    split at h
    · split at h
      · split at h
        · cases h
          exact ⟨[backslash, u, a, b, x, d], rfl⟩
        · cases h
      · cases h
    · cases h
  · cases h

theorem readString_suffix {done value : Text} (h : readString done s = .ok (value, rest)) :
    rest <:+ s := by
  fun_induction readString done s with
  | case2 done c others hc =>
    cases h
    exact List.suffix_cons _ _
  | case5 done c hc hc' e he a b x d next others unit hu hh low after hlow hlt ih =>
    have hafter : after <:+ next :: others := lowEscape?_suffix hlow
    exact (ih h).trans (hafter.trans ⟨[c, e, a, b, x, d], rfl⟩)
  | case6 done c hc hc' e he a b x d next others unit hu hh hlow ih =>
    exact (ih h).trans ⟨[c, e, a, b, x, d], rfl⟩
  | case7 done c hc hc' e he a b x d next others unit hu hh ih =>
    exact (ih h).trans ⟨[c, e, a, b, x, d], rfl⟩
  | case9 done c hc hc' e others he x hx ih => exact (ih h).trans ⟨[c, e], rfl⟩
  | case12 done c others hc hc' hcontrol ih => exact (ih h).trans (List.suffix_cons _ _)
  | _ => cases h

theorem takeFraction_suffix (s : Text) : (takeFraction s).2 <:+ s := by
  unfold takeFraction
  split
  · split
    · exact (List.dropWhile_suffix _).trans (List.suffix_cons _ _)
    · exact List.suffix_rfl
  · exact List.suffix_rfl

theorem takeSign_suffix (s : Text) : (Decimal.takeSign s).2 <:+ s := by
  unfold Decimal.takeSign
  split
  · exact List.suffix_rfl
  · split
    · exact List.suffix_cons _ _
    · split
      · exact List.suffix_cons _ _
      · exact List.suffix_rfl

theorem takeExponent_suffix (s : Text) : (takeExponent s).2 <:+ s := by
  unfold takeExponent
  split
  · rename_i e others
    have hsign := takeSign_suffix others
    dsimp only
    split
    · exact (List.dropWhile_suffix _).trans (hsign.trans (List.suffix_cons _ _))
    · exact List.suffix_rfl
  · exact List.suffix_rfl

theorem takeWhole_suffix (s : Text) : (takeWhole s).2 <:+ s := by
  unfold takeWhole
  split
  · split
    · exact List.suffix_cons _ _
    · exact List.dropWhile_suffix _
  · exact List.suffix_rfl

/-- A token that is a scalar, or the fault of one that cannot be read. It opens nothing and is no
complaint about depth. -/
def IsScalar (token : Token) : Prop :=
  (∃ v, token = .value v) ∨ ∃ fault, token = .badValue fault ∧ fault ≠ .tooDeep

theorem isScalar_numberToken (negative : Bool) (whole fraction : Text)
    (exponent : Option (Bool × Text)) :
    IsScalar (numberToken negative whole fraction exponent) := by
  unfold numberToken
  split
  · split
    · exact .inr ⟨_, rfl, by simp⟩
    · exact .inl ⟨_, rfl⟩
  · exact .inl ⟨_, rfl⟩

theorem readNumber_suffix {negative : Bool} (h : readNumber negative s = some (token, rest)) :
    IsScalar token ∧ rest <:+ s := by
  unfold readNumber at h
  dsimp only at h
  split at h
  · cases h
  · cases h
    refine ⟨isScalar_numberToken _ _ _ _, ?_⟩
    exact (takeExponent_suffix _).trans ((takeFraction_suffix _).trans (takeWhole_suffix s))

theorem readScalar_suffix (h : readScalar s = some (token, rest)) :
    IsScalar token ∧ rest <:+ s := by
  unfold readScalar at h
  split at h
  · rename_i found hfound
    cases h
    rw [readWord, Option.map_eq_some_iff] at hfound
    obtain ⟨word, -, hword⟩ := hfound
    obtain ⟨rfl, rfl⟩ := Prod.mk.inj hword
    exact ⟨.inl ⟨_, rfl⟩, List.drop_suffix _ s⟩
  · split at h
    · split at h
      · obtain ⟨hscalar, hsuffix⟩ := readNumber_suffix h
        exact ⟨hscalar, hsuffix.trans (List.suffix_cons _ _)⟩
      · exact readNumber_suffix h
    · cases h

/-! ## Tokens that open something -/

def Token.opens : Token → Bool
  | .openArray | .openObject => true
  | _ => false

def Token.isTooDeep : Token → Bool
  | .badValue .tooDeep => true
  | _ => false

theorem IsScalar.opens (h : IsScalar token) : token.opens = false := by
  rcases h with ⟨v, rfl⟩ | ⟨fault, rfl, -⟩
  · rfl
  · rfl

theorem IsScalar.isTooDeep (h : IsScalar token) : token.isTooDeep = false := by
  rcases h with ⟨v, rfl⟩ | ⟨fault, rfl, hfault⟩
  · rfl
  · cases fault with
    | tooDeep => exact absurd rfl hfault
    | _ => rfl

theorem opens_of_mark {c : CodePoint} (h : mark? c = some token) :
    token.opens = (c.val == 0x5B || c.val == 0x7B) ∧ token.isTooDeep = false := by
  unfold mark? at h
  split at h
  · rename_i hc
    cases h
    rw [CodePoint.is_iff.mp hc]
    decide
  split at h
  · rename_i hc
    cases h
    rw [CodePoint.is_iff.mp hc]
    decide
  split at h
  · rename_i hc
    cases h
    rw [beq_iff_eq] at hc
    rw [hc]
    decide
  split at h
  · rename_i hc
    cases h
    rw [beq_iff_eq] at hc
    rw [hc]
    decide
  split at h
  · rename_i hc
    cases h
    rw [CodePoint.is_iff.mp hc]
    decide
  split at h
  · rename_i hc
    cases h
    rw [CodePoint.is_iff.mp hc]
    decide
  · cases h

/-- **A token that opens something uses up a mark for it**, and no token complains about depth. -/
theorem readToken_openers (c : CodePoint) (rest : Text) :
    (readToken c rest).1.opens.toNat + Text.openers (readToken c rest).2 ≤
        Text.openers (c :: rest) ∧
      (readToken c rest).1.isTooDeep = false := by
  unfold readToken
  split
  · rename_i token htoken
    obtain ⟨hopens, hdeep⟩ := opens_of_mark htoken
    refine ⟨?_, hdeep⟩
    rw [hopens, Text.openers, Text.openers, List.countP_cons, Nat.add_comm]
    cases c.val == 0x5B || c.val == 0x7B <;> exact Nat.le_refl _
  split
  · split
    · rename_i value after hstring
      have hle := Text.openers_le_of_suffix (readString_suffix hstring)
      have hcons := Text.openers_le_of_suffix (List.suffix_cons c rest)
      exact ⟨by simpa [Token.opens] using Nat.le_trans hle hcons, rfl⟩
    · exact ⟨by simp [Token.opens, Text.openers], rfl⟩
  split
  · rename_i found hscalar
    obtain ⟨hfound, hsuffix⟩ := readScalar_suffix hscalar
    have hle := Text.openers_le_of_suffix hsuffix
    exact ⟨by simpa [hfound.opens] using hle, hfound.isTooDeep⟩
  · exact ⟨by simp [Token.opens, Text.openers], rfl⟩

theorem countP_opens_cons (token : Token) (ts : List Token) :
    (token :: ts).countP Token.opens = token.opens.toNat + ts.countP Token.opens := by
  rw [List.countP_cons, Nat.add_comm]
  cases token.opens <;> rfl

theorem countP_opens_tokens (s : Text) :
    (tokens s).countP Token.opens ≤ s.openers ∧ ∀ token ∈ tokens s, token.isTooDeep = false := by
  -- strong induction: a token may take any number of code points
  induction hn : s.length using Nat.strongRecOn generalizing s with
  | ind n ih =>
    subst hn
    cases s with
    | nil =>
      rw [tokens_nil]
      exact ⟨Nat.zero_le _, by simp⟩
    | cons c rest =>
      cases hb : c.isJsonBlank with
      | true =>
        obtain ⟨hcount, hdeep⟩ := ih rest.length (by simp) rest rfl
        have hcons := Text.openers_le_of_suffix (List.suffix_cons c rest)
        rw [tokens_blank hb]
        exact ⟨Nat.le_trans hcount hcons, hdeep⟩
      | false =>
        obtain ⟨hcount, hdeep⟩ := ih _ (readToken_length c rest) _ rfl
        obtain ⟨hopens, hfirst⟩ := readToken_openers c rest
        have htokens : tokens (c :: rest) = (readToken c rest).1 :: tokens (readToken c rest).2 :=
          tokens_cons hb rfl
        rw [htokens, countP_opens_cons]
        exact ⟨by omega, List.forall_mem_cons.mpr ⟨hfirst, hdeep⟩⟩

/-! ## The reader -/

/-- An object that is open without a frame of its own: its next name is not read yet. -/
def Expect.pending : Expect → Nat
  | .member | .name _ | .colon _ _ => 1
  | _ => 0

variable {stack stack' : List Frame} {expect expect' : Expect}

theorem beginValue_opens (h : beginValue stack token = .ok (stack', expect')) :
    stack'.length + expect'.pending ≤ stack.length + token.opens.toNat := by
  cases token with
  | openArray =>
    simp only [beginValue] at h
    split at h
    · cases h
      simp [Expect.pending, Token.opens]
    · cases h
  | openObject =>
    simp only [beginValue] at h
    split at h
    · cases h
      simp [Expect.pending, Token.opens]
    · cases h
  | string t =>
    cases h
    simp [Expect.pending]
  | value v =>
    cases h
    simp [Expect.pending]
  | _ => cases h

theorem beginMember_opens {done : Members}
    (h : beginMember stack done token = .ok (stack', expect')) :
    stack'.length + expect'.pending ≤ stack.length + 1 := by
  cases token with
  | string name =>
    cases h
    simp [Expect.pending]
  | _ => cases h

theorem endValue_opens {v : Json} (h : endValue stack v token = .ok (stack', expect')) :
    stack'.length + expect'.pending ≤ stack.length := by
  unfold endValue at h
  split at h
  · cases h
  · cases h
    simp [Expect.pending]
  · cases h
    simp [Expect.pending]
  · cases h
    simp [Expect.pending]
  · cases h
    simp [Expect.pending]
  · cases h

/-- A step opens no more arrays and objects than its token does. -/
theorem step_opens (h : step stack expect token = .ok (stack', expect')) :
    stack'.length + expect'.pending ≤ stack.length + expect.pending + token.opens.toNat := by
  unfold step at h
  split at h
  · have hopens := beginValue_opens h
    simp only [Expect.pending] at hopens ⊢
    omega
  · cases h
    simp [Expect.pending]
    omega
  · have hopens := beginValue_opens h
    simp only [Expect.pending] at hopens ⊢
    omega
  · cases h
    simp only [Expect.pending]
    omega
  · have hopens := beginMember_opens h
    simp only [Expect.pending] at hopens ⊢
    omega
  · have hopens := beginMember_opens h
    simp only [Expect.pending] at hopens ⊢
    omega
  · cases h
    simp [Expect.pending]
  · cases h
  · have hopens := endValue_opens h
    simp only [Expect.pending] at hopens ⊢
    omega

theorem beginValue_tooDeep (h : beginValue stack token = .error .tooDeep)
    (ht : token.isTooDeep = false) : token.opens = true ∧ maxDepth ≤ stack.length := by
  cases token with
  | openArray =>
    simp only [beginValue] at h
    split at h
    · cases h
    · rename_i hlt
      exact ⟨rfl, Nat.not_lt.mp hlt⟩
  | openObject =>
    simp only [beginValue] at h
    split at h
    · cases h
    · rename_i hlt
      exact ⟨rfl, Nat.not_lt.mp hlt⟩
  | badValue fault =>
    cases h
    cases ht
  | _ => cases h

theorem beginMember_ne_tooDeep {done : Members} :
    beginMember stack done token ≠ .error .tooDeep := by
  cases token <;> simp [beginMember]

theorem endValue_ne_tooDeep {v : Json} : endValue stack v token ≠ .error .tooDeep := by
  unfold endValue
  split <;> simp

/-- Only what opens something is refused for its depth, in the deepest array or object. -/
theorem step_tooDeep (h : step stack expect token = .error .tooDeep)
    (ht : token.isTooDeep = false) : token.opens = true ∧ maxDepth ≤ stack.length := by
  unfold step at h
  split at h
  · exact beginValue_tooDeep h ht
  · cases h
  · exact beginValue_tooDeep h ht
  · cases h
  · exact absurd h beginMember_ne_tooDeep
  · exact absurd h beginMember_ne_tooDeep
  · cases h
  · cases h
  · exact absurd h endValue_ne_tooDeep

/-- A run is not refused for its depth if what is open and what will be opened stay within the
limit: no step raises the sum of the two. -/
theorem run_ne_tooDeep {ts : List Token} (hd : ∀ token ∈ ts, token.isTooDeep = false)
    (h : stack.length + expect.pending + ts.countP Token.opens ≤ maxDepth) :
    run stack expect ts ≠ .error .tooDeep := by
  induction ts generalizing stack expect with
  | nil =>
    unfold run
    split <;> simp
  | cons token rest ih =>
    rw [List.forall_mem_cons] at hd
    rw [countP_opens_cons] at h
    rw [run]
    cases hstep : step stack expect token with
    | ok next =>
      obtain ⟨stack', expect'⟩ := next
      have hopens := step_opens hstep
      exact ih hd.2 (by omega)
    | error fault =>
      intro hdeep
      cases hdeep
      obtain ⟨hopen, hle⟩ := step_tooDeep hstep hd.1
      rw [hopen, Bool.toNat_true] at h
      omega

theorem read_ne_tooDeep {t : Text} (h : t.openers ≤ maxDepth) : read t ≠ .error .tooDeep := by
  obtain ⟨hcount, hdeep⟩ := countP_opens_tokens t
  refine run_ne_tooDeep hdeep ?_
  show 0 + 0 + (tokens t).countP Token.opens ≤ maxDepth
  omega

/-! ## Documents -/

variable {document : Content} {fault : ReadFault}

/-- What is refused for its content has a text, which is refused for it; but a document in text may
not begin with a byte order mark. -/
theorem readDocument_content (h : readDocument document = .error (.content fault)) :
    fault = .text .byteOrderMark ∨ ∃ t, document.DecodesTo t ∧ read t = .error fault := by
  have hcontent {t : Text} (h : (read t).mapError DocumentFault.content = .error (.content fault)) :
      read t = .error fault := by
    cases hread : read t with
    | ok v =>
      rw [hread] at h
      cases h
    | error cause =>
      rw [hread] at h
      cases h
      rfl
  cases document with
  | text t =>
    rw [readDocument] at h
    split at h
    · cases h
      exact .inl rfl
    · exact .inr ⟨t, .text t, hcontent h⟩
  | bytes b =>
    rw [readDocument] at h
    cases hdecode : decode b with
    | error cause =>
      rw [hdecode] at h
      cases h
    | ok t =>
      rw [hdecode] at h
      exact .inr ⟨t, .bytes hdecode, hcontent h⟩

/-- **A document with no more opening marks than may nest is not refused for its depth.** -/
theorem ne_tooDeep_of_decodesTo (h : ∀ t, document.DecodesTo t → t.openers ≤ maxDepth) :
    readDocument document ≠ .error (.content .tooDeep) := by
  intro hdeep
  rcases readDocument_content hdeep with hmark | ⟨t, ht, hread⟩
  · cases hmark
  · exact read_ne_tooDeep (h t ht) hread

theorem readDocument_ne_tooDeep {content : Bytes}
    (h : ∀ t, decode content = .ok t → t.openers ≤ maxDepth) :
    readDocument (.bytes content) ≠ .error (.content .tooDeep) := by
  refine ne_tooDeep_of_decodesTo fun t ht => ?_
  cases ht with
  | bytes hdecode => exact h t hdecode

end Json

end WasmReceipt
