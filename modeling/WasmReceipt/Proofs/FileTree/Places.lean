import WasmReceipt.FileTree
import WasmReceipt.Proofs.Run

/-! # Places

What is put at a place stands there, what it was allowed it is still allowed, and nothing is denied
of what is new. No other place is touched. -/

namespace WasmReceipt.FileTree

variable {tree after : FileTree} {place goal : Location} {entry last : Entry} {content : Bytes}
  {isPrivate : Bool} {access : Access}

/-! ## Entries -/

@[simp] theorem workingDirectory_put :
    (tree.put place entry).workingDirectory = tree.workingDirectory := rfl

theorem ne_nil_of_get? (h : tree.get? place ≠ some .directory) : place ≠ [] := by
  rintro rfl
  exact h rfl

theorem get?_put_self (h : place ≠ []) : (tree.put place entry).get? place = some entry := by
  have hne : place.isEmpty = false := by simpa using h
  simp [get?, put, hne]

theorem lookup_filter_ne {entries : List (Location × Entry)} (h : goal ≠ place) :
    (entries.filter fun e => e.1 != place).lookup goal = entries.lookup goal := by
  induction entries with
  | nil => rfl
  | cons e entries ih =>
    rw [List.filter_cons]
    by_cases he : e.1 = place
    · have hgoal : (goal == e.1) = false := by simpa [he] using h
      rw [if_neg (by simpa using he), ih, List.lookup_cons, hgoal]
    · rw [if_pos (by simpa using he), List.lookup_cons, List.lookup_cons, ih]

theorem get?_put_of_ne (h : goal ≠ place) : (tree.put place entry).get? goal = tree.get? goal := by
  have hgoal : (goal == place) = false := by simpa using h
  unfold get? put
  dsimp only
  rw [List.lookup_cons, hgoal, lookup_filter_ne h]

/-- The last put at a place decides, unless it is the root, and no other place is touched. -/
theorem get?_put_eq_file
    (h : (tree.put place entry).get? goal = some (.file content isPrivate)) :
    (goal = place ∧ entry = .file content isPrivate) ∨
      tree.get? goal = some (.file content isPrivate) := by
  by_cases hgoal : goal = place
  · subst hgoal
    by_cases hroot : goal = []
    · subst hroot
      cases h
    · rw [get?_put_self hroot] at h
      exact .inl ⟨rfl, Option.some.inj h⟩
  · rw [get?_put_of_ne hgoal] at h
    exact .inr h

/-- To put what is there is to change nothing. -/
theorem get?_put_of_eq (h : tree.get? place = some entry) (hroot : place ≠ []) :
    (tree.put place entry).get? goal = tree.get? goal := by
  by_cases hgoal : goal = place
  · rw [hgoal, get?_put_self hroot, h]
  · exact get?_put_of_ne hgoal

theorem put_put (hroot : place ≠ []) (entry : Entry) :
    (tree.put place entry).put place last = tree.put place last := by
  have hthere : ((tree.put place entry).get? place).isSome = true := by
    rw [get?_put_self hroot]
    rfl
  rw [put, if_pos hthere]
  simp [put]

/-! ## What is allowed -/

theorem allows_grant_self : (tree.grant place).allows place access = true := by
  simp [allows, grant]

theorem allows_grant_of_ne (h : goal ≠ place) :
    (tree.grant place).allows goal access = tree.allows goal access := by
  simp [allows, grant, h]

theorem allows_put_of_ne (h : goal ≠ place) :
    (tree.put place entry).allows goal access = tree.allows goal access := by
  unfold put
  split
  · rfl
  · exact allows_grant_of_ne h

theorem allows_put_of_some (h : tree.get? place ≠ none) :
    (tree.put place entry).allows goal access = tree.allows goal access := by
  unfold put
  rw [if_pos (Option.isSome_iff_ne_none.mpr h)]
  rfl

/-- Nothing is denied of what is new. -/
theorem allows_put_of_none (h : tree.get? place = none) :
    (tree.put place entry).allows place access = true := by
  have hnew : (tree.put place entry).allows place access =
      (tree.grant place).allows place access := by
    unfold put
    rw [h]
    rfl
  rw [hnew]
  exact allows_grant_self

/-- What was allowed at a place is still allowed there. -/
theorem allows_put_of_allows (h : tree.allows goal access = true) :
    (tree.put place entry).allows goal access = true := by
  by_cases hgoal : goal = place
  · subst hgoal
    by_cases hnone : tree.get? goal = none
    · exact allows_put_of_none hnone
    · rw [allows_put_of_some hnone, h]
  · rw [allows_put_of_ne hgoal, h]

/-- A directory in which names may be looked up. -/
structure IsOpen (tree : FileTree) (place : Location) : Prop where
  directory : tree.get? place = some .directory
  search : tree.allows place .search = true

/-- A file may be written at a place: one that is there may be written to, or it may be added to the
directory above. -/
structure MayWrite (tree : FileTree) (place : Location) : Prop where
  noDirectory : tree.get? place ≠ some .directory
  file : tree.get? place ≠ none → tree.allows place .write = true
  parent : tree.get? place = none → tree.allows place.dropLast .write = true

/-- A new file may be written to a directory that may be added to. -/
theorem mayWrite_of_new (h : tree.get? place = none) (hw : tree.allows place.dropLast .write = true) :
    tree.MayWrite place :=
  ⟨by rw [h]; nofun, fun hthere => absurd h hthere, fun _ => hw⟩

theorem MayWrite.ne_nil (h : tree.MayWrite place) : place ≠ [] := ne_nil_of_get? h.noDirectory

/-- What was written to may be written to. -/
theorem MayWrite.put (h : tree.MayWrite place) (content : Bytes) (isPrivate : Bool) :
    (tree.put place (.file content isPrivate)).MayWrite place := by
  have hfile : (tree.put place (.file content isPrivate)).get? place =
      some (.file content isPrivate) :=
    get?_put_self h.ne_nil
  refine ⟨by rw [hfile]; simp, fun _ => ?_, fun hnone => ?_⟩
  · by_cases hnone : tree.get? place = none
    · exact allows_put_of_none hnone
    · rw [allows_put_of_some hnone]
      exact h.file hnone
  · rw [hfile] at hnone
    cases hnone

end WasmReceipt.FileTree
