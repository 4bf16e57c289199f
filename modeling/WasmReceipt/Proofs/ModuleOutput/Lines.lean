import WasmReceipt.Proofs.ModuleOutput.Interleaving

/-! # Module output line by line

No control sequence goes on behind a line feed and no timestamp contains one, and the decoder keeps
every line feed, so what is kept of a line depends on that line alone. -/

namespace WasmReceipt.ModuleOutput

/-- Two outputs, one below the other. An empty output takes no line. -/
def glue (above below : Text) : Text :=
  if above.isEmpty then below else if below.isEmpty then above else above ++ "\n" ++ below

@[simp] theorem glue_nil_left (below : Text) : glue [] below = below := rfl

@[simp] theorem glue_nil_right (above : Text) : glue above [] = above := by
  cases above <;> rfl

theorem glue_of_ne_nil {above below : Text} (ha : above ≠ []) (hb : below ≠ []) :
    glue above below = above ++ "\n" ++ below := by
  simp [glue, ha, hb]

/-! ## Control sequences -/

/-- A class of code points without the line feed stops at it, as at the end. -/
theorem dropWhile_append_lineFeed {p : CodePoint → Bool} (hp : p (CodePoint.ofChar '\n') = false)
    (a b : Text) :
    (a ++ CodePoint.ofChar '\n' :: b).dropWhile p = a.dropWhile p ++ CodePoint.ofChar '\n' :: b := by
  rw [List.dropWhile_append]
  split
  · rename_i hnone
    rw [List.isEmpty_iff.mp hnone, List.dropWhile_cons_of_neg (by simp [hp])]
    rfl
  · rfl

/-- Whether a sequence is complete is decided in front of the line feed. -/
theorem afterSequence?_append_lineFeed (a b : Text) :
    afterSequence? (a ++ CodePoint.ofChar '\n' :: b) =
      (afterSequence? a).map (· ++ CodePoint.ofChar '\n' :: b) := by
  cases a with
  | nil => rfl
  | cons bracket a =>
    have hparameters := dropWhile_append_lineFeed (p := isParameter) rfl a b
    have hintermediates :=
      dropWhile_append_lineFeed (p := isIntermediate) rfl (a.dropWhile isParameter) b
    simp only [afterSequence?, List.cons_append, hparameters, hintermediates]
    cases bracket.is '[' with
    | false => rfl
    | true =>
      cases (a.dropWhile isParameter).dropWhile isIntermediate with
      | nil => rfl
      | cons final rest => cases hf : isFinal final <;> simp [hf]

theorem dropSequences_append_lineFeed (done a b : Text) :
    dropSequences done (a ++ CodePoint.ofChar '\n' :: b) =
      dropSequences done a ++ CodePoint.ofChar '\n' :: plain b := by
  fun_induction dropSequences done a with
  | case1 done =>
    have hfeed : isEscape (CodePoint.ofChar '\n') = false := rfl
    rw [List.nil_append, dropSequences_eq, plain_cons hfeed]
  | case2 done c rest hc after hafter _ ih =>
    have hafter' : afterSequence? (rest ++ CodePoint.ofChar '\n' :: b) =
        some (after ++ CodePoint.ofChar '\n' :: b) := by
      rw [afterSequence?_append_lineFeed, hafter, Option.map_some]
    rw [List.cons_append, dropSequences_of_complete hc hafter', ih]
  | case3 done c rest hc hnone ih =>
    have hnone' : afterSequence? (rest ++ CodePoint.ofChar '\n' :: b) = none := by
      rw [afterSequence?_append_lineFeed, hnone, Option.map_none]
    rw [List.cons_append, dropSequences_of_broken hnone', ih]
  | case4 done c rest hc ih =>
    rw [List.cons_append, dropSequences_cons (by simpa using hc), ih]

/-- Control sequences are dropped line by line. -/
theorem plain_append_lineFeed (a b : Text) :
    plain (a ++ CodePoint.ofChar '\n' :: b) = plain a ++ CodePoint.ofChar '\n' :: plain b :=
  dropSequences_append_lineFeed [] a b

/-! ## Parts one below the other -/

theorem ne_nil_of_ofLine {line part : Text} (h : ofLine line = some part) : part ≠ [] := by
  unfold ofLine at h
  split at h
  · cases h
  · dsimp only at h
    split at h
    · cases h
    · rename_i hpart
      cases h
      simpa using hpart

theorem glue_assoc (x y z : Text) : glue (glue x y) z = glue x (glue y z) := by
  by_cases hx : x = []
  · rw [hx, glue_nil_left, glue_nil_left]
  by_cases hy : y = []
  · rw [hy, glue_nil_right, glue_nil_left]
  by_cases hz : z = []
  · rw [hz, glue_nil_right, glue_nil_right]
  rw [glue_of_ne_nil hx hy, glue_of_ne_nil hy hz, glue_of_ne_nil (by simp [hx]) hz,
    glue_of_ne_nil hx (by simp [hy])]
  simp

theorem join_cons {part : Text} {parts : List Text} (h : ∀ x ∈ part :: parts, x ≠ []) :
    Text.join "\n" (part :: parts) = glue part (Text.join "\n" parts) := by
  induction parts generalizing part with
  | nil => simp [Text.join]
  | cons next parts ih =>
    have hpart : part ≠ [] := h part List.mem_cons_self
    have hnext : next ≠ [] := h next (by simp)
    have hrest : Text.join "\n" (next :: parts) ≠ [] := by
      rw [ih fun x hx => h x (List.mem_cons_of_mem part hx)]
      unfold glue
      split_ifs <;> simp_all
    rw [glue_of_ne_nil hpart hrest]
    simp [Text.join, List.intercalate_cons_cons]

/-- Joining parts that are not empty is gluing them. -/
theorem join_append {xs ys : List Text} (hx : ∀ x ∈ xs, x ≠ []) (hy : ∀ y ∈ ys, y ≠ []) :
    Text.join "\n" (xs ++ ys) = glue (Text.join "\n" xs) (Text.join "\n" ys) := by
  induction xs with
  | nil => rfl
  | cons x xs ih =>
    have hall : ∀ z ∈ x :: (xs ++ ys), z ≠ [] := by
      intro z hz
      rcases List.mem_append.mp (show z ∈ (x :: xs) ++ ys from hz) with hz | hz
      · exact hx z hz
      · exact hy z hz
    rw [List.cons_append, join_cons hall, join_cons hx, glue_assoc,
      ih fun z hz => hx z (List.mem_cons_of_mem x hz)]

theorem join_filter_cons (part : Text) (parts : List Text) :
    Text.join "\n" ((part :: parts).filter (!·.isEmpty)) =
      glue part (Text.join "\n" (parts.filter (!·.isEmpty))) := by
  cases part with
  | nil => rfl
  | cons c part =>
    rw [List.filter_cons_of_pos rfl, join_cons]
    intro x hx
    rcases List.mem_cons.mp hx with rfl | hx
    · exact List.cons_ne_nil c part
    · simpa using (List.mem_filter.mp hx).2

/-! ## The output -/

theorem extract_nil : extract [] = [] := by
  rw [extract, plain_nil]
  rfl

theorem extract_append_lineFeed (a b : Text) :
    extract (a ++ CodePoint.ofChar '\n' :: b) = glue (extract a) (extract b) := by
  have hparts : ∀ t : Text, ∀ part ∈ t.lines.filterMap ofLine, part ≠ [] := by
    intro t part hpart
    obtain ⟨line, -, hline⟩ := List.mem_filterMap.mp hpart
    exact ne_nil_of_ofLine hline
  have hlines : (plain a ++ CodePoint.ofChar '\n' :: plain b).lines =
      (plain a).lines ++ (plain b).lines :=
    List.splitOn_append_cons_self (plain a) (plain b)
  unfold extract
  rw [plain_append_lineFeed, hlines, List.filterMap_append, join_append (hparts _) (hparts _)]

theorem ofBytes_append_lineFeed (a b : Bytes) :
    ofBytes (a ++ 0x0A :: b) = glue (ofBytes a) (ofBytes b) := by
  unfold ofBytes
  rw [Utf8.decodeReplacing_append_lineFeed, extract_append_lineFeed]

/-- A reading of lines that leaves what it reads of each on its own line. -/
structure LineByLine {α : Type} (lineFeed : α) (reading : List α → Text) : Prop where
  nil : reading [] = []
  append : ∀ a b, reading (a ++ lineFeed :: b) = glue (reading a) (reading b)

theorem lineByLine_extract : LineByLine (CodePoint.ofChar '\n') extract :=
  ⟨extract_nil, extract_append_lineFeed⟩

theorem lineByLine_ofBytes : LineByLine 0x0A ofBytes :=
  ⟨extract_nil, ofBytes_append_lineFeed⟩

namespace LineByLine

variable {α : Type} {lineFeed : α} {reading : List α → Text}

/-- What is read of any number of lines is what is read of each. -/
theorem intercalate (h : LineByLine lineFeed reading) (lines : List (List α)) :
    reading ([lineFeed].intercalate lines) =
      Text.join "\n" ((lines.map reading).filter (!·.isEmpty)) := by
  induction lines with
  | nil => exact h.nil
  | cons line lines ih =>
    rw [List.map_cons, join_filter_cons, ← ih]
    cases lines with
    | nil => simp [h.nil]
    | cons next lines =>
      rw [List.intercalate_cons_cons, List.append_assoc, List.singleton_append, h.append]

/-- Lines of which nothing is read may come or go. -/
theorem drop (h : LineByLine lineFeed reading) {mute : List (List α)}
    (hmute : ∀ line ∈ mute, reading line = []) (above below : List (List α)) :
    reading ([lineFeed].intercalate (above ++ mute ++ below)) =
      reading ([lineFeed].intercalate (above ++ below)) := by
  have hnone : (mute.map reading).filter (!·.isEmpty) = [] := by
    rw [List.filter_eq_nil_iff]
    intro part hpart
    obtain ⟨line, hline, rfl⟩ := List.mem_map.mp hpart
    simp [hmute line hline]
  rw [h.intercalate, h.intercalate]
  simp only [List.map_append, List.filter_append, hnone, List.append_nil]

end LineByLine

/-! ## Lines of the daemon -/

/-- A line that is the daemon's alone: without its control sequences it begins with a timestamp. -/
structure IsLogLine (line : Text) : Prop where
  noLineFeed : CodePoint.ofChar '\n' ∉ line
  stamped : BeginsStamped (plain line)

instance (line : Text) : Decidable (IsLogLine line) :=
  decidable_of_iff (CodePoint.ofChar '\n' ∉ line ∧ BeginsStamped (plain line))
    ⟨fun ⟨hn, hs⟩ => ⟨hn, hs⟩, fun ⟨hn, hs⟩ => ⟨hn, hs⟩⟩

theorem mem_of_mem_dropSequences {c : CodePoint} (done t : Text) :
    c ∈ dropSequences done t → c ∈ done ∨ c ∈ t := by
  fun_induction dropSequences done t with
  | case1 done => simp
  | case2 done d rest hd after hafter _ ih =>
    intro h
    rcases ih h with h | h
    · exact .inl h
    · exact .inr (List.mem_cons_of_mem d ((suffix_of_afterSequence? hafter).mem h))
  | case3 done d rest hd hnone ih =>
    intro h
    have hmem := ih h
    grind
  | case4 done d rest hd ih =>
    intro h
    have hmem := ih h
    grind

/-- Only what was there is kept. -/
theorem mem_of_mem_plain {c : CodePoint} {t : Text} (h : c ∈ plain t) : c ∈ t := by
  simpa using mem_of_mem_dropSequences [] t h

theorem extract_of_isLogLine {line : Text} (h : IsLogLine line) : extract line = [] := by
  have hlines : (plain line).lines = [plain line] :=
    List.splitOn_eq_singleton fun hmem => h.noLineFeed (mem_of_mem_plain hmem)
  have hnone : ofLine (plain line) = none := by
    unfold ofLine
    rw [if_pos (beginsWithTimestamp_iff.mpr h.stamped)]
  unfold extract
  rw [hlines, List.filterMap_cons_none hnone]
  rfl

/-- **Module output is extracted line by line, also through the decoder.** What is kept of two texts
with a line feed between them, or of two byte strings, is what is kept of each. Log lines may come
and go, and a result of a runner holds what is kept of the lines that the runner wrote. -/
theorem extract_by_lines :
    (∀ a b : Text, extract (a ++ "\n" ++ b) = glue (extract a) (extract b)) ∧
    (∀ a b : Bytes, ofBytes (a ++ [0x0A] ++ b) = glue (ofBytes a) (ofBytes b)) ∧
    (∀ lines : List Text, extract (Text.join "\n" lines) =
      Text.join "\n" ((lines.map extract).filter (!·.isEmpty))) ∧
    (∀ lines : List Bytes, ofBytes (List.intercalate [0x0A] lines) =
      Text.join "\n" ((lines.map ofBytes).filter (!·.isEmpty))) ∧
    (∀ above logs below : List Text, (∀ log ∈ logs, IsLogLine log) →
      extract (Text.join "\n" (above ++ logs ++ below)) =
        extract (Text.join "\n" (above ++ below))) ∧
    (∀ above logs below : List Bytes,
      (∀ log ∈ logs, IsLogLine (Utf8.decodeReplacing log)) →
      ofBytes (List.intercalate [0x0A] (above ++ logs ++ below)) =
        ofBytes (List.intercalate [0x0A] (above ++ below))) ∧
    ∀ (runnerPath : Text) (outside : Surroundings) (p : Path) (manifest : Manifest)
      (content : Option Content) (result : Result),
      ((Transport.runner runnerPath).execute outside p manifest content).transcript.1 =
        .ok result →
      result.stdout = Text.join "\n"
        (((outside.runner.stdout.splitOn 0x0A).map ofBytes).filter (!·.isEmpty)) := by
  refine ⟨?texts, ?bytes, lineByLine_extract.intercalate, lineByLine_ofBytes.intercalate,
    ?textLogs, ?byteLogs, ?results⟩
  case texts =>
    intro a b
    rw [List.append_assoc]
    exact extract_append_lineFeed a b
  case bytes =>
    intro a b
    rw [List.append_assoc]
    exact ofBytes_append_lineFeed a b
  case textLogs =>
    intro above logs below h
    exact lineByLine_extract.drop (fun log hlog => extract_of_isLogLine (h log hlog)) above below
  case byteLogs =>
    intro above logs below h
    exact lineByLine_ofBytes.drop (fun log hlog => extract_of_isLogLine (h log hlog)) above below
  case results =>
    intro runnerPath outside p manifest content result h
    rw [Transport.stdout_of_execute_runner h, ← lineByLine_ofBytes.intercalate,
      List.intercalate_splitOn]

/-- A character that its line cuts short, a coloured log line, and a line behind it. -/
theorem extract_cut_character :
    let cut : Bytes := [0x61, 0xE2, 0x82]
    let log : Text := "\x1b[2m" ++ "2025-11-09T04:50:35.000Z INFO done"
    let last : Bytes := Bytes.ofAscii "ok"
    let lines : List Bytes := [cut, Utf8.encodeLoose log, last]
    let runner : Runner :=
      ⟨.ok (), List.intercalate [0x0A] lines, [], 0, .zero, .zero, 1762663835⟩
    let outside : Surroundings := ⟨.empty [], runner, .nobody, "job"⟩
    IsLogLine log ∧
      ofBytes (List.intercalate [0x0A] lines) = ofBytes (List.intercalate [0x0A] [cut, last]) ∧
      ∃ result, ((Transport.runner "plasmd").execute outside ⟨[], ["a.wasm"]⟩
          ⟨"0.1", "sha256:00", .standard⟩ none).transcript.1 = .ok result ∧
        result.stdout = "a\uFFFD\nok" := by
  intro cut log last lines runner outside
  have hsequence : IsSequence "\x1b[2m" :=
    @IsSequence.mk (CodePoint.ofChar '\x1b') (CodePoint.ofChar '[') (CodePoint.ofChar 'm') "2" []
      rfl rfl (by decide) (by decide) rfl
  have hplain : plain log = "2025-11-09T04:50:35.000Z INFO done" :=
    plain_of_withSequences (by decide) (.sequence hsequence (.refl _))
  have hlog : IsLogLine log := ⟨by decide, by rw [hplain]; decide⟩
  have hdecoded : Utf8.decodeReplacing (Utf8.encodeLoose log) = log :=
    Utf8.decodeReplacing_encodeLoose (by decide)
  have hfinishes : runner.Finishes 0 :=
    ⟨rfl, rfl, by decide, by decide, by decide, by decide, by decide, by decide⟩
  have hexecute : ((Transport.runner "plasmd").execute outside ⟨[], ["a.wasm"]⟩
      ⟨"0.1", "sha256:00", .standard⟩ none).transcript = _ :=
    Transport.execute_runner_of_finishes rfl hfinishes
  have hcut : ofBytes cut = "a\uFFFD" := by
    have hp : plain (Utf8.decodeReplacing cut) = "a\uFFFD" :=
      plain_of_withSequences (by decide) (.refl _)
    rw [ofBytes, extract, hp]
    rfl
  have hlast : ofBytes last = "ok" := by
    have hp : plain (Utf8.decodeReplacing last) = "ok" :=
      plain_of_withSequences (by decide) (.refl _)
    rw [ofBytes, extract, hp]
    rfl
  obtain ⟨-, -, -, hjoin, -, hdrop, hresult⟩ := extract_by_lines
  have hlogs := hdrop [cut] [Utf8.encodeLoose log] [last] (by simpa [hdecoded] using hlog)
  refine ⟨hlog, hlogs, _, congrArg Prod.fst hexecute, ?_⟩
  rw [hresult "plasmd" outside _ _ none _ (congrArg Prod.fst hexecute), ← hjoin,
    List.intercalate_splitOn]
  calc ofBytes (List.intercalate [0x0A] lines)
      = ofBytes (List.intercalate [0x0A] [cut, last]) := hlogs
    _ = Text.join "\n" (([cut, last].map ofBytes).filter (!·.isEmpty)) := hjoin [cut, last]
    _ = "a\uFFFD\nok" := by
      rw [List.map_cons, List.map_cons, hcut, hlast]
      rfl

end WasmReceipt.ModuleOutput
