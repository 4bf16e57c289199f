import WasmReceipt.Proofs.Execution.Local
import WasmReceipt.Proofs.ModuleOutput.ControlSequence
import WasmReceipt.Proofs.ModuleOutput.Timestamp
import WasmReceipt.Proofs.Utf8

/-! # Module output among log lines

A stream is made of items: module text, the log text glued to it if there is any, and a line feed.
The module texts come back in order, whatever control sequences the stream is coloured with. -/

namespace WasmReceipt.ModuleOutput

/-- Module text and the log text that is glued to it. -/
structure Item where
  output : Text
  log : Text
deriving DecidableEq

namespace Item

def line (i : Item) : Text := i.output ++ i.log

def kept (i : Item) : Text := i.output.strip isTrimmed

/-- The texts of an item stay on their line, the module text holds no timestamp, and the log text
begins with one. -/
structure WellFormed (i : Item) : Prop where
  noEscape : ∀ c ∈ i.line, isEscape c = false
  noLineFeed : CodePoint.ofChar '\n' ∉ i.line
  noTimestamp : ¬ HoldsTimestamp i.output
  isLog : IsLog i.log

instance (i : Item) : Decidable i.WellFormed :=
  decidable_of_iff
    ((∀ c ∈ i.line, isEscape c = false) ∧ CodePoint.ofChar '\n' ∉ i.line ∧
      ¬ HoldsTimestamp i.output ∧ IsLog i.log)
    ⟨fun ⟨he, hn, ht, hl⟩ => ⟨he, hn, ht, hl⟩, fun ⟨he, hn, ht, hl⟩ => ⟨he, hn, ht, hl⟩⟩

theorem WellFormed.ofLine {i : Item} (h : i.WellFormed) :
    ModuleOutput.ofLine i.line = if i.kept.isEmpty then none else some i.kept :=
  ofLine_glued h.noTimestamp h.isLog

end Item

def streamOf (items : List Item) : Text := items.flatMap fun i => i.line ++ "\n"

/-- The stream of items. Its last line feed may be missing. -/
def IsStreamOf (items : List Item) (t : Text) : Prop :=
  t = streamOf items ∨ t ++ "\n" = streamOf items

/-- What comes back of items: the module texts without white space around them that are not empty,
one on a line. -/
def keptOf (items : List Item) : Text :=
  Text.join "\n" ((items.map Item.kept).filter (!·.isEmpty))

variable {items : List Item} {t stream : Text}

/-! ## Lines -/

theorem lines_append_lineFeed (t : Text) : (t ++ "\n").lines = t.lines ++ [[]] :=
  List.splitOn_append_cons_self t []

theorem lines_streamOf (h : ∀ i ∈ items, i.WellFormed) :
    (streamOf items).lines = items.map Item.line ++ [[]] := by
  induction items with
  | nil => rfl
  | cons i items ih =>
    have hline : (i.line ++ CodePoint.ofChar '\n' :: streamOf items).lines =
        i.line :: (streamOf items).lines :=
      List.splitOn_append_cons_self_of_not_mem (h i List.mem_cons_self).noLineFeed _
    have hcons : streamOf (i :: items) = i.line ++ CodePoint.ofChar '\n' :: streamOf items := by
      simp [streamOf, Text.ofString]
    rw [hcons, hline, ih fun j hj => h j (List.mem_cons_of_mem i hj)]
    rfl

/-- With its last line feed or without it, a stream has the lines of its items, and behind the line
feed an empty one. -/
theorem IsStreamOf.lines (ht : IsStreamOf items t) (h : ∀ i ∈ items, i.WellFormed) :
    t.lines = items.map Item.line ++ [[]] ∨ t.lines = items.map Item.line := by
  rcases ht with rfl | ht
  · exact .inl (lines_streamOf h)
  · have hlines := lines_append_lineFeed t
    rw [ht, lines_streamOf h] at hlines
    exact .inr (List.append_cancel_right hlines).symm

theorem filterMap_ofLine (h : ∀ i ∈ items, i.WellFormed) :
    (items.map Item.line).filterMap ofLine = (items.map Item.kept).filter (!·.isEmpty) := by
  induction items with
  | nil => rfl
  | cons i items ih =>
    have hi := (h i List.mem_cons_self).ofLine
    have htail := ih fun j hj => h j (List.mem_cons_of_mem i hj)
    rw [List.map_cons, List.map_cons]
    cases hk : i.kept.isEmpty with
    | true =>
      rw [hk, if_pos rfl] at hi
      rw [List.filterMap_cons_none hi, List.filter_cons_of_neg (by simp [hk]), htail]
    | false =>
      rw [hk, if_neg (by decide)] at hi
      rw [List.filterMap_cons_some hi, List.filter_cons_of_pos (by simp [hk]), htail]

theorem noEscape_streamOf (h : ∀ i ∈ items, i.WellFormed) :
    ∀ c ∈ streamOf items, isEscape c = false := by
  intro c hc
  obtain ⟨i, hi, hc⟩ := List.mem_flatMap.mp hc
  rcases List.mem_append.mp hc with hc | hc
  · exact (h i hi).noEscape c hc
  · rw [List.mem_singleton.mp hc]
    rfl

theorem IsStreamOf.noEscape (ht : IsStreamOf items t) (h : ∀ i ∈ items, i.WellFormed) :
    ∀ c ∈ t, isEscape c = false := by
  intro c hc
  rcases ht with rfl | ht
  · exact noEscape_streamOf h c hc
  · exact noEscape_streamOf h c (ht ▸ List.mem_append_left _ hc)

/-! ## The output -/

/-- Module texts come back from a stream with control sequences in it. -/
theorem extract_eq_keptOf (h : ∀ i ∈ items, i.WellFormed) (ht : IsStreamOf items t)
    (hs : WithSequences t stream) : extract stream = keptOf items := by
  have hlast : ofLine [] = none := rfl
  unfold extract keptOf
  rw [plain_of_withSequences (ht.noEscape h) hs]
  rcases ht.lines h with hl | hl
  · rw [hl, List.filterMap_append, filterMap_ofLine h, List.filterMap_cons_none hlast,
      List.filterMap_nil, List.append_nil]
  · rw [hl, filterMap_ofLine h]

theorem ofBytes_eq_extract {bytes : Bytes} (h : Utf8.encode t = .ok bytes) :
    ofBytes bytes = extract t := by
  obtain ⟨hscalar, rfl⟩ := Utf8.encode_eq_ok_iff.mp h
  rw [ofBytes, Utf8.decodeReplacing_encodeLoose hscalar]

/-- **Module output is recovered exactly from any interleaving with the log of the daemon.** When a
runner writes such a stream, the module texts are the output of the result; there is a result
whenever the input can be encoded and the runner ends with numbers that fit into a receipt. -/
theorem extract_interleaved (h : ∀ i ∈ items, i.WellFormed) (ht : IsStreamOf items t)
    (hs : WithSequences t stream) :
    extract stream = keptOf items ∧
      ∀ (runnerPath : Text) (outside : Surroundings) (p : Path) (manifest : Manifest)
        (content : Option Content), Utf8.encode stream = .ok outside.runner.stdout →
        let execution := (Transport.runner runnerPath).execute outside p manifest content
        let outcome := execution.transcript.1
        (∀ result, outcome = .ok result → result.stdout = keptOf items) ∧
          ∀ input wallTimeMs, Execution.input content = .ok input →
            outside.runner.Finishes wallTimeMs →
            ∃ result, outcome = .ok result ∧ result.stdout = keptOf items := by
  have hextract := extract_eq_keptOf h ht hs
  refine ⟨hextract, ?_⟩
  intro runnerPath outside p manifest content hbytes
  have hstdout : ofBytes outside.runner.stdout = keptOf items := by
    rw [ofBytes_eq_extract hbytes, hextract]
  refine ⟨?_, ?_⟩
  · intro result hresult
    rw [Transport.stdout_of_execute_runner hresult, hstdout]
  · intro input wallTimeMs hi hfinishes
    rw [Transport.execute_runner_of_finishes hi hfinishes]
    exact ⟨_, rfl, hstdout⟩

/-- A module text that ends like a date, glued to a log text whose date is broken by a control
sequence; a blank module text; and a last line without a line feed. -/
theorem extract_broken_stamp :
    let front : Text := "dlroW ,olleH2025-11-02025-"
    let behind : Text := "11-09T04:50:35.000Z INFO done\n \t\nbye"
    let stream : Text := front ++ ("\x1b[2;1m" ++ behind)
    let runner : Runner := ⟨.ok (), Utf8.encodeLoose stream, [], 0, .zero, .zero, 1762663835⟩
    let outside : Surroundings := ⟨.empty [], runner, .nobody, "job"⟩
    extract stream = "dlroW ,olleH2025-11-0\nbye" ∧
      ∃ result, ((Transport.runner "plasmd").execute outside ⟨[], ["a.wasm"]⟩
          ⟨"0.1", "sha256:00", .standard⟩ none).transcript.1 = .ok result ∧
        result.stdout = "dlroW ,olleH2025-11-0\nbye" := by
  intro front behind stream runner outside
  let items : List Item :=
    [⟨"dlroW ,olleH2025-11-0", "2025-11-09T04:50:35.000Z INFO done"⟩, ⟨" \t", []⟩, ⟨"bye", []⟩]
  have hitems : ∀ i ∈ items, i.WellFormed := by decide
  have hstream : IsStreamOf items (front ++ behind) := .inr rfl
  have hsequence : IsSequence "\x1b[2;1m" :=
    @IsSequence.mk (CodePoint.ofChar '\x1b') (CodePoint.ofChar '[') (CodePoint.ofChar 'm') "2;1" []
      rfl rfl (by decide) (by decide) rfl
  have hplaced : WithSequences (front ++ behind) stream :=
    (WithSequences.refl front).append (.sequence hsequence (.refl behind))
  have hfinishes : runner.Finishes 0 :=
    ⟨rfl, rfl, by decide, by decide, by decide, by decide, by decide, by decide⟩
  obtain ⟨hextract, hexecute⟩ := extract_interleaved hitems hstream hplaced
  have hencode : Utf8.encode stream = .ok outside.runner.stdout :=
    Utf8.encode_of_isScalar (by decide)
  obtain ⟨-, hresult⟩ := hexecute "plasmd" outside ⟨[], ["a.wasm"]⟩ ⟨"0.1", "sha256:00", .standard⟩
    none hencode
  exact ⟨hextract, hresult none 0 rfl hfinishes⟩

end WasmReceipt.ModuleOutput
