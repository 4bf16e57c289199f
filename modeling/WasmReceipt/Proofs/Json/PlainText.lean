import WasmReceipt.Proofs.Json.RoundTrip

/-! # The characters of a written value

The text of a value holds printable ASCII, line feeds if it has an indent, and whatever the strings
in it hold if they are written raw. Controls never stand in it. -/

namespace WasmReceipt

namespace CodePoint

def isPrintableAscii (c : CodePoint) : Bool := 0x20 ≤ c.val && c.val < 0x7F

/-- A line feed or a printable character of ASCII. -/
def isPlain (c : CodePoint) : Bool := c.val == 0x0A || (0x20 ≤ c.val && c.val < 0x7F)

theorem isPrintableAscii_iff {c : CodePoint} :
    c.isPrintableAscii = true ↔ 0x20 ≤ c.val ∧ c.val < 0x7F := by
  rw [isPrintableAscii, Bool.and_eq_true, decide_eq_true_eq, decide_eq_true_eq]

theorem isPrintableAscii_of_isDigit {c : CodePoint} (h : c.isDigit = true) :
    c.isPrintableAscii = true := by
  simp only [isDigit, Bool.and_eq_true, decide_eq_true_eq] at h
  rw [isPrintableAscii_iff]
  omega

theorem isPrintableAscii_hexDigit {n : Nat} (h : n < 16) :
    (hexDigit n).isPrintableAscii = true := by
  have hall : ∀ n < 16, (hexDigit n).isPrintableAscii = true := by decide
  exact hall n h

end CodePoint

namespace Text

/-- Whether a text has only line feeds and printable ASCII in it. -/
def isPlain (t : Text) : Bool := t.all CodePoint.isPlain

theorem isPlain_iff {t : Text} : t.isPlain = true ↔ ∀ c ∈ t, c.isPlain = true :=
  List.all_eq_true

/-- Plain text holds no surrogate. -/
theorem isScalar_of_isPlain {t : Text} (h : t.isPlain = true) : t.isScalar = true := by
  rw [isScalar_iff]
  intro c hc
  have hplain := isPlain_iff.mp h c hc
  simp only [CodePoint.isPlain, Bool.or_eq_true, beq_iff_eq, Bool.and_eq_true,
    decide_eq_true_eq] at hplain
  simp only [CodePoint.isSurrogate, Bool.and_eq_false_iff, decide_eq_false_iff_not]
  omega

end Text

theorem Decimal.all_isPrintableAscii_ofInt (n : Int) :
    (ofInt n).all CodePoint.isPrintableAscii = true := by
  rw [List.all_eq_true]
  intro c hc
  rcases mem_ofInt hc with hdigit | rfl
  · exact CodePoint.isPrintableAscii_of_isDigit hdigit
  · rfl

namespace Json

theorem all_isPrintableAscii_unitEscape (n : Nat) :
    (unitEscape n).all CodePoint.isPrintableAscii = true := by
  have hmark : ("\\u" : Text).all CodePoint.isPrintableAscii = true := by decide
  rw [unitEscape, List.all_append, hmark, Bool.true_and, List.all_eq_true]
  intro c hc
  obtain ⟨i, -, rfl⟩ := List.mem_map.mp hc
  exact CodePoint.isPrintableAscii_hexDigit (Nat.mod_lt _ (by decide))

/-! ## What a layout may write -/

/-- Whatever a layout may write is in a class of characters. -/
structure Layout.Within (layout : Layout) (p : CodePoint → Bool) : Prop where
  printable : ∀ c : CodePoint, c.isPrintableAscii = true → p c = true
  raw : layout.ascii = false → ∀ c : CodePoint, 0x20 ≤ c.val → p c = true
  lineFeed : layout.indent ≠ none → p (CodePoint.ofChar '\n') = true

variable {layout : Layout} {p : CodePoint → Bool}

theorem Layout.Within.all (hp : layout.Within p) {t : Text}
    (h : t.all CodePoint.isPrintableAscii = true) : t.all p = true := by
  rw [List.all_eq_true] at h ⊢
  exact fun c hc => hp.printable c (h c hc)

/-- What is written raw is above the controls, and below DEL if text is written in ASCII. -/
theorem all_stringChar (hp : layout.Within p) (c : CodePoint) :
    (stringChar layout.ascii c).all p = true := by
  unfold stringChar
  split
  · exact hp.all (by decide)
  split
  · exact hp.all (by decide)
  split
  · exact hp.all (by decide)
  split
  · exact hp.all (by decide)
  split
  · exact hp.all (by decide)
  split
  · exact hp.all (by decide)
  split
  · exact hp.all (by decide)
  split
  · exact hp.all (all_isPrintableAscii_unitEscape _)
  rename_i hcontrol
  have hc : 0x20 ≤ c.val := Nat.not_lt.mp hcontrol
  split
  · rename_i hraw
    rw [List.all_cons, List.all_nil, Bool.and_true]
    rcases Bool.or_eq_true_iff.mp hraw with hraw | hascii
    · exact hp.raw (by simpa using hraw) c hc
    · exact hp.printable c (CodePoint.isPrintableAscii_iff.mpr ⟨hc, of_decide_eq_true hascii⟩)
  split
  · exact hp.all (all_isPrintableAscii_unitEscape _)
  · rw [List.all_append, hp.all (all_isPrintableAscii_unitEscape _),
      hp.all (all_isPrintableAscii_unitEscape _)]
    rfl

theorem all_stringText (hp : layout.Within p) (t : Text) :
    (stringText layout.ascii t).all p = true := by
  have hquote : ("\"" : Text).all p = true := hp.all (by decide)
  rw [stringText, List.all_append, List.all_append, hquote, Bool.true_and, Bool.and_true,
    List.all_eq_true]
  intro c hc
  obtain ⟨d, -, hd⟩ := List.mem_flatMap.mp hc
  exact List.all_eq_true.mp (all_stringChar hp d) c hd

theorem all_newLine (hp : layout.Within p) (level : Nat) :
    (layout.newLine level).all p = true := by
  unfold Layout.newLine
  split
  · rfl
  · rename_i width hwidth
    have hfeed : ("\n" : Text) = [CodePoint.ofChar '\n'] := rfl
    have hp' := hp.lineFeed (by rw [hwidth]; exact Option.some_ne_none width)
    rw [List.all_append, hfeed, List.all_cons, List.all_nil, hp', Bool.and_self, Bool.true_and,
      List.all_eq_true]
    intro c hc
    rw [List.eq_of_mem_replicate hc]
    exact hp.printable _ (by decide)

theorem all_colon (hp : layout.Within p) : layout.colon.all p = true := by
  unfold Layout.colon
  split
  · exact hp.all (by decide)
  · exact hp.all (by decide)

theorem all_marks (hp : layout.Within p) :
    ("[" : Text).all p = true ∧ ("]" : Text).all p = true ∧ ("\x7b" : Text).all p = true ∧
      ("\x7d" : Text).all p = true ∧ ("," : Text).all p = true := by
  refine ⟨hp.all ?_, hp.all ?_, hp.all ?_, hp.all ?_, hp.all ?_⟩ <;> decide

/-! ## Values -/

mutual

/-- **The text of a value stays in the class of its layout.** -/
theorem all_renderAt (hp : layout.Within p) : ∀ (v : Json) (level : Nat),
    v.floatFree = true → (renderAt layout level v).all p = true
  | .null, _, _ => hp.all (t := "null") (by decide)
  | .bool true, _, _ => hp.all (t := "true") (by decide)
  | .bool false, _, _ => hp.all (t := "false") (by decide)
  | .int n, _, _ => hp.all (Decimal.all_isPrintableAscii_ofInt n)
  | .float x, _, hf => by
    cases hf
  | .string t, _, _ => all_stringText hp t
  | .array [], _, _ => hp.all (t := "[]") (by decide)
  | .array (v :: items), level, hf => by
    rw [floatFree, itemsFloatFree, Bool.and_eq_true] at hf
    simp only [renderAt, List.all_append, all_marks hp, all_newLine hp, all_renderAt hp v _ hf.1,
      all_renderItems hp items _ hf.2, Bool.and_self]
  | .object [], _, _ => hp.all (t := "\x7b\x7d") (by decide)
  | .object ((name, v) :: members), level, hf => by
    rw [floatFree, membersFloatFree, Bool.and_eq_true] at hf
    simp only [renderAt, List.all_append, all_marks hp, all_newLine hp, all_stringText hp,
      all_colon hp, all_renderAt hp v _ hf.1, all_renderMembers hp members _ hf.2, Bool.and_self]

theorem all_renderItems (hp : layout.Within p) : ∀ (items : List Json) (level : Nat),
    itemsFloatFree items = true → (renderItems layout level items).all p = true
  | [], _, _ => rfl
  | v :: items, level, hf => by
    rw [itemsFloatFree, Bool.and_eq_true] at hf
    simp only [renderItems, List.all_append, all_marks hp, all_newLine hp,
      all_renderAt hp v _ hf.1, all_renderItems hp items _ hf.2, Bool.and_self]

theorem all_renderMembers (hp : layout.Within p) : ∀ (members : List (Text × Json)) (level : Nat),
    membersFloatFree members = true → (renderMembers layout level members).all p = true
  | [], _, _ => rfl
  | (name, v) :: members, level, hf => by
    rw [membersFloatFree, Bool.and_eq_true] at hf
    simp only [renderMembers, List.all_append, all_marks hp, all_newLine hp, all_stringText hp,
      all_colon hp, all_renderAt hp v _ hf.1, all_renderMembers hp members _ hf.2, Bool.and_self]

end

/-- The text of a value whose strings are written in ASCII is plain. -/
theorem isPlain_render {v : Json} (ha : layout.ascii = true) (hf : v.floatFree = true) :
    (v.render layout).isPlain = true := by
  refine all_renderAt ⟨?_, ?_, fun _ => rfl⟩ v 0 hf
  · intro c hc
    obtain ⟨hl, hg⟩ := CodePoint.isPrintableAscii_iff.mp hc
    simp only [CodePoint.isPlain, Bool.or_eq_true, Bool.and_eq_true, decide_eq_true_eq]
    exact .inr ⟨hl, hg⟩
  · intro hraw
    rw [ha] at hraw
    cases hraw

/-- The text of a value on one line holds no control. -/
theorem le_val_of_mem_render {v : Json} (h : layout.indent = none) (hf : v.floatFree = true)
    {c : CodePoint} (hc : c ∈ v.render layout) : 0x20 ≤ c.val := by
  have hall : (v.render layout).all (0x20 ≤ ·.val) = true := by
    refine all_renderAt ⟨?_, ?_, ?_⟩ v 0 hf
    · intro c hc
      exact decide_eq_true (CodePoint.isPrintableAscii_iff.mp hc).1
    · intro _ c hc
      exact decide_eq_true hc
    · intro hindent
      exact absurd h hindent
  exact of_decide_eq_true (List.all_eq_true.mp hall c hc)

end Json

end WasmReceipt
