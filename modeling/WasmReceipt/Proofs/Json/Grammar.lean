import WasmReceipt.Proofs.Json.Encoding
import WasmReceipt.Proofs.Json.Machine
import WasmReceipt.Proofs.Json.Numbers

/-! # The grammar of documents

A text spells a value by the rules below, which leave open how each string and number is written and
what white space there is. The value has every member that is written, in the order of the text; the
reader makes of it what `readBack` says, where a name keeps its last value. -/

namespace WasmReceipt.Json

def IsGap (t : Text) : Prop := ∀ c ∈ t, c.isJsonBlank = true

def quoted (s : Text) : Text := "\"" ++ s ++ "\""

mutual

/-- A text spells a value, from its first character to its last one. -/
inductive Spells : Text → Json → Prop
  | null : Spells "null" .null
  | true : Spells "true" (.bool true)
  | false : Spells "false" (.bool false)
  | number {t : Text} {v : Json} : SpellsNumber t v → Spells t v
  | string {s : Text} {ps : List Piece} :
      SpellsString s ps → Spells (quoted s) (.string (Piece.meaning ps))
  | noItems {gap : Text} : IsGap gap → Spells ("[" ++ (gap ++ "]")) (.array [])
  | array {t s : Text} {v : Json} {items : List Json} :
      SpellsSpaced t v → SpellsItems s items →
      Spells ("[" ++ (t ++ (s ++ "]"))) (.array (v :: items))
  | noMembers {gap : Text} : IsGap gap → Spells ("\x7b" ++ (gap ++ "\x7d")) (.object [])
  | object {t s name : Text} {v : Json} {members : Members} :
      SpellsMember t name v → SpellsMembers s members →
      Spells ("\x7b" ++ (t ++ (s ++ "\x7d"))) (.object ((name, v) :: members))

/-- A text spells a value with white space around it. -/
inductive SpellsSpaced : Text → Json → Prop
  | intro {before t after : Text} {v : Json} :
      IsGap before → Spells t v → IsGap after → SpellsSpaced (before ++ (t ++ after)) v

inductive SpellsItems : Text → List Json → Prop
  | nil : SpellsItems [] []
  | cons {t s : Text} {v : Json} {items : List Json} :
      SpellsSpaced t v → SpellsItems s items → SpellsItems ("," ++ (t ++ s)) (v :: items)

/-- A text spells a member of an object: a name and a value. -/
inductive SpellsMember : Text → Text → Json → Prop
  | intro {before s gap t : Text} {ps : List Piece} {v : Json} :
      IsGap before → SpellsString s ps → IsGap gap → SpellsSpaced t v →
      SpellsMember (before ++ (quoted s ++ (gap ++ (":" ++ t)))) (Piece.meaning ps) v

inductive SpellsMembers : Text → Members → Prop
  | nil : SpellsMembers [] []
  | cons {t s name : Text} {v : Json} {members : Members} :
      SpellsMember t name v → SpellsMembers s members →
      SpellsMembers ("," ++ (t ++ s)) ((name, v) :: members)

end

variable {t rest : Text} {v : Json}

/-! ## Tokens -/

theorem tokens_gap (h : IsGap t) : tokens (t ++ rest) = tokens rest := tokens_blanks h

theorem tokens_quoted {s : Text} {ps : List Piece} (h : SpellsString s ps) :
    tokens (quoted s ++ rest) = .string (Piece.meaning ps) :: tokens rest := by
  have htext : quoted s ++ rest = CodePoint.ofChar '"' :: (s ++ CodePoint.ofChar '"' :: rest) := by
    simp [quoted, Text.ofString]
  rw [htext, tokens_string h]

/-- A number is an integer or a double, and its one token is the token of that value. -/
theorem tokens_number (h : SpellsNumber t v) (hr : EndsScalar rest) :
    tokens (t ++ rest) = tokensOf false v ++ tokens rest := by
  rw [tokens_of_spellsNumber h hr]
  cases h with
  | integer => rfl
  | double => rfl

theorem endsScalar_spellsItems {items : List Json} (h : SpellsItems t items)
    (hr : EndsScalar rest) : EndsScalar (t ++ rest) := by
  cases h with
  | nil => exact hr
  | cons => exact endsScalar_mark rfl

theorem endsScalar_spellsMembers {members : Members} (h : SpellsMembers t members)
    (hr : EndsScalar rest) : EndsScalar (t ++ rest) := by
  cases h with
  | nil => exact hr
  | cons => exact endsScalar_mark rfl

/-- White space around a value adds no token. -/
theorem tokens_spaced
    (hv : ∀ t rest, Spells t v → EndsScalar rest →
      tokens (t ++ rest) = tokensOf false v ++ tokens rest)
    (h : SpellsSpaced t v) (hr : EndsScalar rest) :
    tokens (t ++ rest) = tokensOf false v ++ tokens rest := by
  cases h with
  | intro hb ht ha =>
    rw [List.append_assoc, List.append_assoc, tokens_gap hb, hv _ _ ht (endsScalar_blanks ha hr),
      tokens_gap ha]

/-- A name, a colon and a value. -/
theorem tokens_member {name : Text}
    (hv : ∀ t rest, Spells t v → EndsScalar rest →
      tokens (t ++ rest) = tokensOf false v ++ tokens rest)
    (h : SpellsMember t name v) (hr : EndsScalar rest) :
    tokens (t ++ rest) =
      .string (reread false name) :: .colon :: (tokensOf false v ++ tokens rest) := by
  cases h with
  | intro hb hs hg ht =>
    simp only [List.append_assoc]
    rw [tokens_gap hb, tokens_quoted hs, tokens_gap hg, tokens_colon, tokens_spaced hv ht hr]
    rfl

mutual

/-- **A text is cut into the tokens of the value that it spells.** -/
theorem tokens_of_spells : ∀ (v : Json) (t rest : Text), Spells t v → EndsScalar rest →
    tokens (t ++ rest) = tokensOf false v ++ tokens rest
  | .null, t, rest, h, hr => by
    cases h with
    | null => exact tokens_null
    | number h => exact tokens_number h hr
  | .bool b, t, rest, h, hr => by
    cases h with
    | true => exact tokens_true
    | false => exact tokens_false
    | number h => exact tokens_number h hr
  | .int n, t, rest, h, hr => by
    cases h with
    | number h => exact tokens_number h hr
  | .float x, t, rest, h, hr => by
    cases h with
    | number h => exact tokens_number h hr
  | .string s, t, rest, h, hr => by
    cases h with
    | string hs => exact tokens_quoted hs
    | number h => exact tokens_number h hr
  | .array [], t, rest, h, hr => by
    cases h with
    | noItems hg =>
      rw [List.append_assoc, List.append_assoc, tokens_openArray, tokens_gap hg, tokens_closeArray]
      rfl
    | number h => exact tokens_number h hr
  | .array (v :: items), t, rest, h, hr => by
    cases h with
    | array hv hitems =>
      have hend : EndsScalar ("]" ++ rest) := endsScalar_mark rfl
      simp only [List.append_assoc, tokensOf, List.cons_append]
      rw [tokens_openArray,
        tokens_spaced (tokens_of_spells v) hv (endsScalar_spellsItems hitems hend),
        tokens_of_spellsItems items _ _ hitems hend, tokens_closeArray]
      rfl
    | number h => exact tokens_number h hr
  | .object [], t, rest, h, hr => by
    cases h with
    | noMembers hg =>
      rw [List.append_assoc, List.append_assoc, tokens_openObject, tokens_gap hg,
        tokens_closeObject]
      rfl
    | number h => exact tokens_number h hr
  | .object ((name, v) :: members), t, rest, h, hr => by
    cases h with
    | object hm hmembers =>
      have hend : EndsScalar ("\x7d" ++ rest) := endsScalar_mark rfl
      simp only [List.append_assoc, tokensOf, List.cons_append]
      rw [tokens_openObject,
        tokens_member (tokens_of_spells v) hm (endsScalar_spellsMembers hmembers hend),
        tokens_of_spellsMembers members _ _ hmembers hend, tokens_closeObject]
      rfl
    | number h => exact tokens_number h hr

/-- Further items are cut into their tokens. -/
theorem tokens_of_spellsItems : ∀ (items : List Json) (t rest : Text), SpellsItems t items →
    EndsScalar rest → tokens (t ++ rest) = itemTokens false items ++ tokens rest
  | [], t, rest, h, hr => by
    cases h with
    | nil => rfl
  | v :: items, t, rest, h, hr => by
    cases h with
    | cons hv hitems =>
      simp only [List.append_assoc, itemTokens, List.cons_append]
      rw [tokens_comma, tokens_spaced (tokens_of_spells v) hv (endsScalar_spellsItems hitems hr),
        tokens_of_spellsItems items _ _ hitems hr]

/-- Further members are cut into their tokens. -/
theorem tokens_of_spellsMembers : ∀ (members : Members) (t rest : Text),
    SpellsMembers t members → EndsScalar rest →
    tokens (t ++ rest) = memberTokens false members ++ tokens rest
  | [], t, rest, h, hr => by
    cases h with
    | nil => rfl
  | (name, v) :: members, t, rest, h, hr => by
    cases h with
    | cons hm hmembers =>
      simp only [List.append_assoc, memberTokens, List.cons_append]
      rw [tokens_comma,
        tokens_member (tokens_of_spells v) hm (endsScalar_spellsMembers hmembers hr),
        tokens_of_spellsMembers members _ _ hmembers hr]

end

/-! ## Documents -/

/-- **Whatever spells a value is read as what that value comes back as**, unless it nests too
deep. -/
theorem read_of_spells (h : SpellsSpaced t v) (hd : v.depth ≤ maxDepth) :
    read t = .ok (readBack false v) := by
  have htokens := tokens_spaced (tokens_of_spells v) h endsScalar_nil
  rw [tokens_nil, List.append_nil, List.append_nil] at htokens
  rw [read, htokens]
  exact run_tokensOf_document false hd

/-! ## The front of a document -/

def HeadNotNul (t : Text) : Prop := ∃ c rest, t = c :: rest ∧ c.val ≠ 0

theorem val_of_isGap {c : CodePoint} {gap : Text} (h : IsGap (c :: gap)) :
    c.val ≠ 0 ∧ c.val < 0x80 := by
  have hc := val_of_isJsonBlank (h c List.mem_cons_self)
  simp only [List.mem_cons, List.not_mem_nil, or_false] at hc
  omega

theorem headNotNul_gap {gap : Text} (hg : IsGap gap) (h : HeadNotNul t) :
    HeadNotNul (gap ++ t) := by
  cases gap with
  | nil => exact h
  | cons c gap => exact ⟨c, gap ++ t, rfl, (val_of_isGap hg).1⟩

/-- An object begins with a brace, and something other than NUL follows. -/
theorem exists_brace_of_spells {members : Members} (h : Spells t (.object members)) :
    ∃ s, t = CodePoint.ofNat 0x7B :: s ∧ HeadNotNul s := by
  cases h with
  | number h => cases h
  | @noMembers gap hg =>
    exact ⟨gap ++ "\x7d", rfl, headNotNul_gap hg ⟨CodePoint.ofNat 0x7D, [], rfl, by decide⟩⟩
  | @object m s _ _ _ hm hmembers =>
    refine ⟨m ++ (s ++ "\x7d"), rfl, ?_⟩
    cases hm with
    | intro hb hs hg ht =>
      rw [List.append_assoc]
      exact headNotNul_gap hb ⟨CodePoint.ofChar '"', _, rfl, by decide⟩

/-- An object with white space around it begins with two characters that tell UTF-8 from the other
encodings. -/
theorem beginsAscii_of_spells {members : Members} (h : SpellsSpaced t (.object members)) :
    BeginsAscii t := by
  cases h with
  | @intro before t after _ hb ht ha =>
    obtain ⟨s, rfl, hs⟩ := exists_brace_of_spells ht
    cases before with
    | nil =>
      obtain ⟨d, others, rfl, hd⟩ := hs
      exact ⟨CodePoint.ofNat 0x7B, d, others ++ after, rfl, by decide, by decide, hd⟩
    | cons c before =>
      obtain ⟨d, others, hrest, hd⟩ :
          HeadNotNul (before ++ (CodePoint.ofNat 0x7B :: s ++ after)) :=
        headNotNul_gap (fun e he => hb e (List.mem_cons_of_mem c he))
          ⟨CodePoint.ofNat 0x7B, s ++ after, rfl, by decide⟩
      obtain ⟨hc, hc'⟩ := val_of_isGap hb
      exact ⟨c, d, others, congrArg (c :: ·) hrest, hc, hc', hd⟩

/-! ## Members -/

theorem get?_cons (ms : Members) (name n : Text) (v : Json) :
    Members.get? ((name, v) :: ms) n = if n = name then some v else ms.get? n := by
  rw [Members.get?, List.lookup_cons]
  by_cases h : n = name
  · rw [if_pos h, beq_iff_eq.mpr h]
  · rw [if_neg h, beq_eq_false_iff_ne.mpr h]
    rfl

theorem get?_set (ms : Members) (name n : Text) (v : Json) :
    (ms.set name v).get? n = if n = name then some v else ms.get? n := by
  induction ms with
  | nil => exact get?_cons [] name n v
  | cons m ms ih =>
    obtain ⟨other, w⟩ := m
    rw [Members.set]
    by_cases hother : other = name
    · subst hother
      rw [if_pos rfl, get?_cons, get?_cons]
      split <;> rfl
    · rw [if_neg hother, get?_cons, get?_cons, ih]
      by_cases hn : n = name
      · have hne : n ≠ other := fun h => hother (h.symm.trans hn)
        rw [if_neg hne, if_pos hn, if_pos hn]
      · rw [if_neg hn, if_neg hn]

/-- **A name keeps the last value that it is given.** -/
theorem get?_readBackMembers (ms done : Members) (n : Text) :
    (readBackMembers false done ms).get? n =
      ((Members.get? ms.reverse n).map (readBack false)).or (done.get? n) := by
  induction ms generalizing done with
  | nil => rfl
  | cons m ms ih =>
    obtain ⟨name, v⟩ := m
    have hlast : Members.get? ((name, v) :: ms).reverse n =
        (Members.get? ms.reverse n).or (Members.get? [(name, v)] n) := by
      rw [List.reverse_cons]
      exact List.lookup_append
    have hname : reread false name = name := rfl
    rw [readBackMembers, ih, get?_set, hlast, get?_cons, hname]
    cases Members.get? ms.reverse n with
    | some w => rfl
    | none =>
      by_cases hn : n = name
      · rw [if_pos hn, if_pos hn]
        rfl
      · rw [if_neg hn, if_neg hn]
        rfl

end WasmReceipt.Json
