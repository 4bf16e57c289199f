import WasmReceipt.Proofs.Json.Canonical

/-! # Objects of atoms

Where nothing nests, a value is an atom: nothing, a truth value, an integer or a text. On one line
with its text raw, an object of atoms shows the surrogates of its names and texts, and no others. -/

namespace WasmReceipt.Json

/-- What has no other values inside and is no double: nothing, a truth value, an integer or a
text. -/
inductive IsAtom : Json → Prop
  | null : IsAtom .null
  | bool (b : Bool) : IsAtom (.bool b)
  | int (n : Int) : IsAtom (.int n)
  | string (t : Text) : IsAtom (.string t)

theorem IsAtom.children {v : Json} (h : v.IsAtom) : v.children = [] := by
  cases h <;> rfl

theorem IsAtom.depth {v : Json} (h : v.IsAtom) : v.depth = 0 := by
  cases h <;> rfl

theorem IsAtom.sorted {v : Json} (h : v.IsAtom) : Json.sorted v = v := by
  cases h <;> rfl

variable {members : Members}

theorem isData_of_atoms (hnames : (members.map Prod.fst).Nodup)
    (h : ∀ m ∈ members, m.2.IsAtom) : IsData (.object members) := by
  have hflat : ∀ m ∈ members, m.2.children = [] := fun m hm => (h m hm).children
  refine ⟨fun x hx => ?_, distinct_of_flat hnames hflat, ?_⟩
  · rcases part_of_flat hflat hx with hobject | ⟨m, hm, hfloat⟩
    · cases hobject
    · have hatom := h m hm
      rw [← hfloat] at hatom
      cases hatom
  · refine Nat.add_le_add_right (membersDepth_le_iff.mpr fun m hm => ?_) 1
    rw [(h m hm).depth]
    exact Nat.zero_le 499

theorem sorted_of_atoms (h : ∀ m ∈ members, m.2.IsAtom) :
    Json.sorted (.object members) = .object (members.mergeSort memberLe) := by
  have hsame : members.map sortedMember = members := by
    refine (List.map_congr_left fun m hm => ?_).trans (List.map_id' members)
    exact congrArg (Prod.mk m.1) (h m hm).sorted
  rw [sorted_object, hsame]

/-! ## Surrogates in raw text -/

def isEncodable : Json → Bool
  | .string t => t.isScalar
  | _ => true

def Members.isEncodable (ms : Members) : Bool := ms.all fun m => m.1.isScalar && m.2.isEncodable

theorem isScalar_of_printable {t : Text} (h : t.all CodePoint.isPrintableAscii = true) :
    t.isScalar = true := by
  refine Text.isScalar_of_isPlain (Text.isPlain_iff.mpr fun c hc => ?_)
  obtain ⟨hl, hg⟩ := CodePoint.isPrintableAscii_iff.mp (List.all_eq_true.mp h c hc)
  simp [CodePoint.isPlain, hl, hg]

/-- A surrogate is written as it stands, -/
theorem stringChar_of_isSurrogate {c : CodePoint} (h : c.isSurrogate = true) :
    stringChar false c = [c] := by
  simp only [CodePoint.isSurrogate, Bool.and_eq_true, decide_eq_true_eq] at h
  have hmark (k : Char) (hk : k.toNat < 0xD800) : ¬ c.is k = true := by
    rw [CodePoint.is_iff]
    rintro rfl
    rw [CodePoint.val_ofChar] at h
    omega
  rw [stringChar, if_neg (hmark _ (by decide)), if_neg (hmark _ (by decide)), if_neg (by omega),
    if_neg (by omega), if_neg (by omega), if_neg (by omega), if_neg (by omega), if_neg (by omega),
    if_pos (by simp)]

/-- and nothing else is written with one. -/
theorem isScalar_stringChar (c : CodePoint) :
    Text.isScalar (stringChar false c) = !c.isSurrogate := by
  cases hc : c.isSurrogate with
  | true =>
    rw [stringChar_of_isSurrogate hc, Text.isScalar_cons, hc]
    rfl
  | false =>
    unfold stringChar
    split
    · rfl
    split
    · rfl
    split
    · rfl
    split
    · rfl
    split
    · rfl
    split
    · rfl
    split
    · rfl
    split
    · exact isScalar_of_printable (all_isPrintableAscii_unitEscape _)
    rw [if_pos (by simp), Text.isScalar_cons, hc]
    rfl

theorem isScalar_stringText (t : Text) : (stringText false t).isScalar = t.isScalar := by
  have hquote : ("\"" : Text).isScalar = true := rfl
  rw [stringText, Text.isScalar_append, Text.isScalar_append, hquote, Bool.true_and, Bool.and_true]
  induction t with
  | nil => rfl
  | cons c t ih =>
    rw [List.flatMap_cons, Text.isScalar_append, isScalar_stringChar, ih, Text.isScalar_cons]

theorem IsAtom.isScalar_renderAt {v : Json} (h : v.IsAtom) (level : Nat) :
    (renderAt .compact level v).isScalar = v.isEncodable := by
  cases h with
  | null => rfl
  | bool b => cases b <;> rfl
  | int n => exact isScalar_of_printable (Decimal.all_isPrintableAscii_ofInt n)
  | string t => exact isScalar_stringText t

theorem isScalar_renderMembers (h : ∀ m ∈ members, m.2.IsAtom) (level : Nat) :
    (renderMembers .compact level members).isScalar = members.isEncodable := by
  induction members with
  | nil => rfl
  | cons m members ih =>
    obtain ⟨name, v⟩ := m
    obtain ⟨hv, hrest⟩ := List.forall_mem_cons.mp h
    have hcolon : (Layout.colon .compact).isScalar = true := rfl
    have hline : (Layout.newLine .compact level).isScalar = true := rfl
    have hcomma : ("," : Text).isScalar = true := rfl
    have hraw : (stringText Layout.compact.ascii name).isScalar = name.isScalar :=
      isScalar_stringText name
    simp only [renderMembers, Text.isScalar_append, hcomma, hline, hraw, hcolon,
      hv.isScalar_renderAt level, ih hrest, Members.isEncodable, List.all_cons, Bool.true_and,
      Bool.and_true]

/-- What stands around the members of an object is ASCII. -/
theorem isScalar_render_object (h : ∀ m ∈ members, m.2.IsAtom) :
    (render .compact (.object members)).isScalar = members.isEncodable := by
  cases members with
  | nil => rfl
  | cons m members =>
    have hmembers := isScalar_renderMembers h 1
    have hopen : ("\x7b" : Text).isScalar = true := rfl
    have hclose : ("\x7d" : Text).isScalar = true := rfl
    have hcomma : ("," : Text).isScalar = true := rfl
    have hline (level : Nat) : (Layout.newLine .compact level).isScalar = true := rfl
    rw [← hmembers]
    simp only [render, renderAt, renderMembers, Text.isScalar_append, hopen, hclose, hcomma, hline,
      Bool.true_and, Bool.and_true]

/-- Neither do surrogates depend on the order of the members. -/
theorem isScalar_render_sorted (h : ∀ m ∈ members, m.2.IsAtom) :
    (render .compact (Json.sorted (.object members))).isScalar = members.isEncodable := by
  have hperm := List.mergeSort_perm members memberLe
  rw [sorted_of_atoms h, isScalar_render_object fun m hm => h m (hperm.mem_iff.mp hm)]
  exact hperm.all_eq

end WasmReceipt.Json
