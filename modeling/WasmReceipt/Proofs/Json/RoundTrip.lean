import WasmReceipt.Proofs.Json.Machine
import WasmReceipt.Proofs.Json.Tokens

/-! # Reading what was written

The text of a value is cut into the tokens of that value, whatever the layout, and these are read as
what the value comes back as. Doubles are left out: whether their shortest decimal is read as the
same double is a question of its own. -/

namespace WasmReceipt.Json

mutual

def floatFree : Json → Bool
  | .float _ => false
  | .array items => itemsFloatFree items
  | .object members => membersFloatFree members
  | _ => true

def itemsFloatFree : List Json → Bool
  | [] => true
  | v :: rest => floatFree v && itemsFloatFree rest

def membersFloatFree : List (Text × Json) → Bool
  | [] => true
  | (_, v) :: rest => floatFree v && membersFloatFree rest

end

variable {layout : Layout} {level : Nat} {rest : Text}

/-! ## What a layout puts between tokens -/

theorem tokens_lineFeed : tokens ("\n" ++ rest) = tokens rest := tokens_blank (by decide)

theorem tokens_spaces (n : Nat) :
    tokens (List.replicate n (CodePoint.ofChar ' ') ++ rest) = tokens rest := by
  refine tokens_blanks ?_
  intro c hc
  rw [List.eq_of_mem_replicate hc]
  decide

theorem tokens_newLine : tokens (layout.newLine level ++ rest) = tokens rest := by
  unfold Layout.newLine
  split
  · rfl
  · rw [List.append_assoc, tokens_lineFeed, tokens_spaces]

theorem endsScalar_newLine (h : EndsScalar rest) : EndsScalar (layout.newLine level ++ rest) := by
  unfold Layout.newLine
  split
  · exact h
  · exact endsScalar_blank (by decide)

theorem tokens_layoutColon : tokens (layout.colon ++ rest) = .colon :: tokens rest := by
  unfold Layout.colon
  split
  · exact tokens_mark rfl
  · have hspace : tokens (CodePoint.ofChar ' ' :: rest) = tokens rest := tokens_blank (by decide)
    rw [← hspace]
    exact tokens_mark rfl

theorem endsScalar_renderItems (items : List Json) (h : EndsScalar rest) :
    EndsScalar (renderItems layout level items ++ rest) := by
  cases items with
  | nil => exact h
  | cons v items =>
    simp only [renderItems, List.append_assoc]
    exact endsScalar_mark rfl

theorem endsScalar_renderMembers (members : List (Text × Json)) (h : EndsScalar rest) :
    EndsScalar (renderMembers layout level members ++ rest) := by
  cases members with
  | nil => exact h
  | cons m members =>
    simp only [renderMembers, List.append_assoc]
    exact endsScalar_mark rfl

/-! ## Values -/

mutual

/-- **The text of a value is cut into its tokens.** -/
theorem tokens_renderAt (layout : Layout) : ∀ (v : Json) (level : Nat) (rest : Text),
    v.floatFree = true → v.integersFit = true → EndsScalar rest →
    tokens (renderAt layout level v ++ rest) = tokensOf layout.ascii v ++ tokens rest
  | .null, level, rest, _, _, _ => tokens_null
  | .bool true, level, rest, _, _, _ => tokens_true
  | .bool false, level, rest, _, _, _ => tokens_false
  | .int n, level, rest, _, hi, hr => by
    rw [integersFit, Decimal.isWritable, decide_eq_true_eq] at hi
    exact tokens_ofInt hi hr
  | .float x, level, rest, hf, _, _ => by
    cases hf
  | .string t, level, rest, _, _, _ => tokens_stringText layout.ascii t
  | .array [], level, rest, _, _, _ => by
    have hmarks : renderAt layout level (.array []) ++ rest = "[" ++ ("]" ++ rest) := rfl
    rw [hmarks, tokens_openArray, tokens_closeArray]
    rfl
  | .array (v :: items), level, rest, hf, hi, hr => by
    rw [floatFree, itemsFloatFree, Bool.and_eq_true] at hf
    rw [integersFit, itemsFit, Bool.and_eq_true] at hi
    have hend : EndsScalar ("]" ++ rest) := endsScalar_mark rfl
    simp only [renderAt, tokensOf, List.append_assoc]
    rw [tokens_openArray, tokens_newLine, tokens_renderAt layout v (level + 1) _ hf.1 hi.1
        (endsScalar_renderItems items (endsScalar_newLine hend)),
      tokens_renderItems layout items (level + 1) _ hf.2 hi.2 (endsScalar_newLine hend),
      tokens_newLine, tokens_closeArray]
    simp
  | .object [], level, rest, _, _, _ => by
    have hmarks : renderAt layout level (.object []) ++ rest = "\x7b" ++ ("\x7d" ++ rest) := rfl
    rw [hmarks, tokens_openObject, tokens_closeObject]
    rfl
  | .object ((name, v) :: members), level, rest, hf, hi, hr => by
    rw [floatFree, membersFloatFree, Bool.and_eq_true] at hf
    rw [integersFit, membersFit, Bool.and_eq_true] at hi
    have hend : EndsScalar ("\x7d" ++ rest) := endsScalar_mark rfl
    simp only [renderAt, tokensOf, List.append_assoc]
    rw [tokens_openObject, tokens_newLine, tokens_stringText, tokens_layoutColon,
      tokens_renderAt layout v (level + 1) _ hf.1 hi.1
        (endsScalar_renderMembers members (endsScalar_newLine hend)),
      tokens_renderMembers layout members (level + 1) _ hf.2 hi.2 (endsScalar_newLine hend),
      tokens_newLine, tokens_closeObject]
    simp

/-- The text of further items is cut into their tokens. -/
theorem tokens_renderItems (layout : Layout) : ∀ (items : List Json) (level : Nat) (rest : Text),
    itemsFloatFree items = true → itemsFit items = true → EndsScalar rest →
    tokens (renderItems layout level items ++ rest) = itemTokens layout.ascii items ++ tokens rest
  | [], level, rest, _, _, _ => rfl
  | v :: items, level, rest, hf, hi, hr => by
    rw [itemsFloatFree, Bool.and_eq_true] at hf
    rw [itemsFit, Bool.and_eq_true] at hi
    simp only [renderItems, itemTokens, List.append_assoc]
    rw [tokens_comma, tokens_newLine,
      tokens_renderAt layout v level _ hf.1 hi.1 (endsScalar_renderItems items hr),
      tokens_renderItems layout items level rest hf.2 hi.2 hr]
    simp

/-- The text of further members is cut into their tokens. -/
theorem tokens_renderMembers (layout : Layout) : ∀ (members : List (Text × Json)) (level : Nat)
    (rest : Text),
    membersFloatFree members = true → membersFit members = true → EndsScalar rest →
    tokens (renderMembers layout level members ++ rest) =
      memberTokens layout.ascii members ++ tokens rest
  | [], level, rest, _, _, _ => rfl
  | (name, v) :: members, level, rest, hf, hi, hr => by
    rw [membersFloatFree, Bool.and_eq_true] at hf
    rw [membersFit, Bool.and_eq_true] at hi
    simp only [renderMembers, memberTokens, List.append_assoc]
    rw [tokens_comma, tokens_newLine, tokens_stringText, tokens_layoutColon,
      tokens_renderAt layout v level _ hf.1 hi.1 (endsScalar_renderMembers members hr),
      tokens_renderMembers layout members level rest hf.2 hi.2 hr]
    simp

end

/-- **A value that is written comes back**, with surrogate pairs joined where text is written in
printable ASCII, and with one member for each name. White space may follow it. -/
theorem read_write {v : Json} {t after : Text} (hf : v.floatFree = true)
    (ha : ∀ c ∈ after, c.isJsonBlank = true) (h : write layout v = .ok t) :
    read (t ++ after) = .ok (readBack layout.ascii v) := by
  unfold write at h
  split at h
  · cases h
  · rename_i hdepth
    split at h
    · rename_i hi
      cases h
      have hafter : tokens after = [] := by
        rw [← List.append_nil after, tokens_blanks ha, tokens_nil]
      have hends : EndsScalar after := by
        have hblanks := endsScalar_blanks ha endsScalar_nil
        rwa [List.append_nil] at hblanks
      have htokens := tokens_renderAt layout v 0 after hf hi hends
      rw [hafter, List.append_nil] at htokens
      rw [read, render, htokens]
      exact run_tokensOf_document layout.ascii (Nat.not_lt.mp hdepth)
    · cases h

end WasmReceipt.Json
