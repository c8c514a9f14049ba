import Minicrond.Logs.CaptureBooks

/-! Captured output that is lost leaves its mark: every line is written, refused or counted, and a recovery reports
what was dropped before it. -/

namespace Minicrond.Logs.Capture

/-! ## Calls of the writer -/

structure Counts (w w' : Writer) : Prop where
  options : w'.toWriterOptions = w.toWriterOptions
  episodeFrames : w'.episodeFrames = w.episodeFrames
  episodeBytes : w'.episodeBytes = w.episodeBytes
  droppedFrames : w'.droppedFrames = w.droppedFrames
  droppedBytes : w'.droppedBytes = w.droppedBytes
  truncated : w.truncated = true → w'.truncated = true

structure Same (w w' : Writer) : Prop extends Counts w w' where
  degraded : w'.degraded = w.degraded

lemma Counts.trans {w w' w'' : Writer} (h : Counts w w') (h' : Counts w' w'') : Counts w w'' :=
  ⟨h'.options.trans h.options, h'.episodeFrames.trans h.episodeFrames, h'.episodeBytes.trans h.episodeBytes,
    h'.droppedFrames.trans h.droppedFrames, h'.droppedBytes.trans h.droppedBytes,
      fun ht => h'.truncated (h.truncated ht)⟩

lemma Same.trans {w w' w'' : Writer} (h : Same w w') (h' : Same w' w'') : Same w w'' :=
  ⟨h.toCounts.trans h'.toCounts, h'.degraded.trans h.degraded⟩

lemma same_of_buffer (w : Writer) (b : Buffer) (truncated : Bool) (h : w.truncated = true → truncated = true) :
    Same w { w with buffer := b, truncated := truncated } := ⟨⟨rfl, rfl, rfl, rfl, rfl, h⟩, rfl⟩

lemma counts_enterDegraded (w : Writer) (err : Err) (now : ℤ) : Counts w (w.enterDegraded err now) :=
  ⟨rfl, rfl, rfl, rfl, rfl, fun _ => rfl⟩

def Refuses (options : WriterOptions) (buffered : ℤ) (size : ℕ) : Prop :=
  (0 < options.maxBytes ∧ options.maxBytes < buffered + size) ∧ (options.dropNew = true ∨ options.maxBytes < size)

structure Wrote (w : Writer) (e : Entry) (r : Written) : Prop where
  same : Same w r.writer
  evicted : r.evicted ≠ [] → r.writer.truncated = true
  refused : r.outcome = .ok none →
    r.writer.truncated = true ∧ Refuses w.toWriterOptions r.writer.buffer.buffered e.size
  stored : ∀ n, r.outcome = .ok (some n) → r.frame = some (n, e)

namespace Writer

variable {w : Writer}

lemma wrote_append (evicted : List ChunkMeta) (hevicted : evicted ≠ [] → w.truncated = true) (e : Entry)
    (io : WriteIO) : Wrote w e (w.append evicted e io) := by
  unfold append
  dsimp only
  generalize (decide (chunkLimit < w.buffer.chunkRaw + e.size) && decide (0 < w.buffer.chunkRaw)) = full
  generalize (if full = true then w.buffer.rotate io.roll else (w.buffer, none)) = r
  obtain ⟨b, err⟩ := r
  cases err with
  | some err => exact ⟨same_of_buffer w b _ id, hevicted, nofun, nofun⟩
  | none =>
    refine ⟨same_of_buffer w _ _ id, hevicted, ?_, ?_⟩
    · cases io.encode <;> nofun
    · cases io.encode with
      | some err => exact nofun
      | none =>
        intro n hn
        cases hn
        rfl

lemma wrote_makeRoom (e : Entry) (io : WriteIO) : Wrote w e (w.makeRoom e io) := by
  unfold makeRoom
  generalize (if 0 < w.buffer.chunkRaw then w.buffer.rotate io.evict else (w.buffer, none)) = r
  obtain ⟨b, err⟩ := r
  cases err with
  | some err => exact ⟨same_of_buffer w b _ id, fun h => absurd rfl h, nofun, nofun⟩
  | none =>
    dsimp only
    generalize Buffer.evict io.remove w.maxBytes e.size b.idx b = x
    obtain ⟨c, gone, err⟩ := x
    cases err with
    | some err => exact ⟨same_of_buffer w c _ fun _ => rfl, fun _ => rfl, nofun, nofun⟩
    | none =>
      have h := @wrote_append { w with buffer := c, truncated := true } gone (fun _ => rfl) e io
      exact ⟨(same_of_buffer w c true fun _ => rfl).trans h.same, h.evicted, h.refused, h.stored⟩

lemma wrote_writeFrame (e : Entry) (io : WriteIO) : Wrote w e (w.writeFrame e io) := by
  unfold writeFrame
  split
  case isTrue hover =>
    split
    case isTrue hpolicy =>
      refine ⟨same_of_buffer w w.buffer _ fun _ => rfl, fun h => absurd rfl h, fun _ => ⟨rfl, ?_⟩, nofun⟩
      simp only [overflows, Bool.and_eq_true, Bool.or_eq_true, decide_eq_true_eq] at hover hpolicy
      exact ⟨hover, hpolicy⟩
    case isFalse => exact wrote_makeRoom e io
  case isFalse => exact wrote_append [] (fun h => absurd rfl h) e io

end Writer

/-- What has become of a line: as for the frame made of it, and a line that was cut before or is cut now
leaves a mark. -/
structure WroteLine (w : Writer) (e : Entry) (r : Written) : Prop extends Wrote w (w.cut e) r where
  shortened : ∀ n, r.outcome = .ok (some n) → (e.flagged || w.tooLong e) = true → r.writer.truncated = true

lemma wroteLine_writeLocked (w : Writer) (e : Entry) (io : WriteIO) : WroteLine w e (w.writeLocked e io) := by
  have hfailed : ∀ err, WroteLine w e ⟨w, [], none, .error err⟩ := fun err =>
    ⟨⟨same_of_buffer w w.buffer _ id, fun h => absurd rfl h, nofun, nofun⟩, nofun⟩
  unfold Writer.writeLocked
  split
  case isTrue => exact hfailed _
  case isFalse =>
    cases w.buffer.chunkErr with
    | some f => exact hfailed _
    | none =>
      dsimp only
      split
      case isTrue => exact hfailed _
      case isFalse =>
        have hmark : Same w { w with truncated := w.truncated || e.flagged || w.tooLong e } :=
          same_of_buffer w w.buffer _ fun h => by rw [h, Bool.true_or, Bool.true_or]
        have h :=
          @Writer.wrote_writeFrame { w with truncated := w.truncated || e.flagged || w.tooLong e } (w.cut e) io
        refine ⟨⟨hmark.trans h.same, h.evicted, h.refused, h.stored⟩, fun n hn hshort => h.same.truncated ?_⟩
        rw [Bool.or_assoc, hshort, Bool.or_true]

lemma same_sealForArchive (w : Writer) (io : RotateIO) : Same w (w.sealForArchive io).1 := by
  unfold Writer.sealForArchive
  split
  case isTrue => exact same_of_buffer w w.buffer _ id
  case isFalse =>
    generalize (if 0 < w.buffer.chunkRaw then w.buffer.rotate io else (w.buffer, none)) = r
    obtain ⟨b, err⟩ := r
    cases err <;> exact same_of_buffer w b _ id

lemma same_archiveBatchLocked (w : Writer) (through : ℕ) (io : BatchIO) :
    Same w (w.archiveBatchLocked through io).1 := by
  unfold Writer.archiveBatchLocked
  split
  case h_1 => exact same_of_buffer w w.buffer _ id
  case h_2 =>
    split
    case isTrue => exact same_of_buffer w w.buffer _ id
    case isFalse => cases io.store <;> exact same_of_buffer w _ _ id

def Fate.Settles (options : WriterOptions) (frames : List (ℕ × Entry)) (e : Entry) : Fate → Prop
  | .written n => (n, e) ∈ frames
  | .refused buffered => Refuses options buffered e.size
  | .dropped => False

lemma Fate.Settles.mono {options : WriterOptions} {frames frames' : List (ℕ × Entry)} {e : Entry} {fate : Fate}
    (h : fate.Settles options frames e) (hsub : frames ⊆ frames') : fate.Settles options frames' e := by
  cases fate with
  | written n => exact hsub h
  | refused buffered | dropped => exact h

lemma WroteLine.settles {w : Writer} {e : Entry} {r : Written} (h : WroteLine w e r) {sequence : Option ℕ}
    (houtcome : r.outcome = .ok sequence) : r.fate.Settles w.toWriterOptions r.frame.toList (w.cut e) := by
  cases sequence with
  | none =>
    rw [Written.fate, houtcome]
    exact (h.refused houtcome).2
  | some n =>
    rw [Written.fate, houtcome, h.stored n houtcome]
    exact List.mem_singleton_self _

/-- A recovery of capture that fails leaves the counts, one that succeeds reports and clears those
of the episode. -/
structure Recovered (w : Writer) (r : Recovery) : Prop where
  evicted : r.evicted ≠ [] → r.writer.truncated = true
  failed : r.summary = none → Counts w r.writer ∧ r.writer.degraded = true
  succeeded : ∀ line fate, r.summary = some (line, fate) →
    line = summary w.episodeFrames w.episodeBytes w.degradedErr ∧
    (∃ w', Counts w w' ∧
      r.writer = { w' with degraded := false, degradedErr := none, episodeFrames := 0, episodeBytes := 0 }) ∧
    fate.Settles w.toWriterOptions r.frames (w.cut line)

lemma recovered_recoverLocked {w : Writer} (hdegraded : w.degraded = true) (now : ℤ) (io : RecoverIO) :
    Recovered w (w.recoverLocked now io) := by
  unfold Writer.recoverLocked
  generalize w.buffer.reopenChunk io.reopen = x
  obtain ⟨b, err⟩ := x
  cases err with
  | some err => exact ⟨fun h => absurd rfl h, fun _ => ⟨⟨rfl, rfl, rfl, rfl, rfl, id⟩, hdegraded⟩, nofun⟩
  | none =>
    have h := wroteLine_writeLocked { w with buffer := b } (summary w.episodeFrames w.episodeBytes w.degradedErr)
      io.summary
    have hcounts : Counts w _ := (same_of_buffer w b w.truncated id).toCounts.trans h.same.toCounts
    dsimp only
    split
    case h_1 err _ => exact ⟨fun _ => rfl, fun _ => ⟨hcounts.trans (counts_enterDegraded ..), rfl⟩, nofun⟩
    case h_2 n houtcome =>
      refine ⟨h.evicted, nofun, fun line fate hline => ?_⟩
      cases hline
      exact ⟨rfl, ⟨_, hcounts, rfl⟩, h.settles houtcome⟩

/-! ## What the history tells -/

def Item.dropped? : Item → Option Entry
  | .offered e .dropped => some e
  | _ => none

def droppedLines (history : List Item) : List Entry := history.filterMap Item.dropped?

/-- The lines dropped since capture last worked: since a line was written or refused, or capture recovered. -/
def sinceWorked (history : List Item) : List Entry :=
  history.foldl (fun lines i =>
    match i with
    | .offered e .dropped => lines ++ [e]
    | _ => []) []

def bytes (lines : List Entry) : ℕ := (lines.map (·.size)).sum

lemma bytes_append (lines : List Entry) (e : Entry) : bytes (lines ++ [e]) = bytes lines + e.size := by
  rw [bytes, List.map_append, List.sum_append]
  rfl

def writtenFrames (w : Writer) (history : List Item) : List (ℕ × Entry) :=
  history.filterMap fun i =>
    match i with
    | .offered e (.written n) => some (n, w.cut e)
    | _ => none

def Item.lossy (w : Writer) : Item → Bool
  | .offered e (.written _) => e.flagged || w.tooLong e
  | .offered _ _ => true
  | .recovered .. => false

structure Visible (s : Log) : Prop where
  written : List.Sublist (writtenFrames s.writer s.history) s.frames
  refused : ∀ e buffered, .offered e (.refused buffered) ∈ s.history →
    Refuses s.writer.toWriterOptions buffered (s.writer.cut e).size
  droppedFrames : s.writer.droppedFrames = (droppedLines s.history).length
  droppedBytes : s.writer.droppedBytes = bytes (droppedLines s.history)
  episodeFrames : s.writer.episodeFrames = (sinceWorked s.history).length
  episodeBytes : s.writer.episodeBytes = bytes (sinceWorked s.history)
  working : s.writer.degraded = false → sinceWorked s.history = []
  lossy : ∀ i ∈ s.history, i.lossy s.writer = true → s.writer.truncated = true
  evicted : s.evicted ≠ [] → s.writer.truncated = true
  recovered : ∀ h t line fate, s.history = h ++ .recovered line fate :: t →
    ∃ err, line = summary (sinceWorked h).length (bytes (sinceWorked h)) err
  reported : ∀ line fate, .recovered line fate ∈ s.history →
    fate.Settles s.writer.toWriterOptions s.frames (s.writer.cut line)

lemma sinceWorked_append (history : List Item) (i : Item) : sinceWorked (history ++ [i]) =
    match i with
    | .offered e .dropped => sinceWorked history ++ [e]
    | _ => [] := by
  rw [sinceWorked, List.foldl_append]
  rfl

lemma cut_congr {w w' : Writer} (h : w'.toWriterOptions = w.toWriterOptions) (e : Entry) : w'.cut e = w.cut e := by
  have hmax : w'.maxLine = w.maxLine := congrArg WriterOptions.maxLine h
  unfold Writer.cut Writer.tooLong
  rw [hmax]

lemma writtenFrames_congr {w w' : Writer} (h : w'.toWriterOptions = w.toWriterOptions) (history : List Item) :
    writtenFrames w' history = writtenFrames w history := by
  simp only [writtenFrames, cut_congr h]

lemma lossy_congr {w w' : Writer} (h : w'.toWriterOptions = w.toWriterOptions) (i : Item) :
    i.lossy w' = i.lossy w := by
  cases i with
  | recovered => rfl
  | offered e fate => cases fate <;> simp only [Item.lossy, Writer.tooLong, h]

namespace Visible

variable {s : Log} {w : Writer}

lemma keep (h : Visible s) (hw : Counts s.writer w) (hdegraded : w.degraded = false → s.writer.degraded = false)
    {evicted : List ChunkMeta} (hevicted : evicted ≠ [] → w.truncated = true) (frames : List (ℕ × Entry)) :
    Visible { s with writer := w, frames := s.frames ++ frames, evicted := s.evicted ++ evicted } where
  written := by
    rw [writtenFrames_congr hw.options]
    exact h.written.trans (List.sublist_append_left ..)
  refused e buffered he := by
    rw [hw.options, cut_congr hw.options]
    exact h.refused e buffered he
  droppedFrames := hw.droppedFrames.trans h.droppedFrames
  droppedBytes := hw.droppedBytes.trans h.droppedBytes
  episodeFrames := hw.episodeFrames.trans h.episodeFrames
  episodeBytes := hw.episodeBytes.trans h.episodeBytes
  working := fun hworks => h.working (hdegraded hworks)
  lossy i hi hlossy := hw.truncated (h.lossy i hi (lossy_congr hw.options i ▸ hlossy))
  evicted hne := by
    by_cases hnil : evicted = []
    case neg => exact hevicted hnil
    case pos =>
      refine hw.truncated (h.evicted fun hs => hne ?_)
      rw [hs, hnil, List.append_nil]
  recovered := h.recovered
  reported line fate hline := by
    rw [hw.options, cut_congr hw.options]
    exact (h.reported line fate hline).mono (List.subset_append_left _ _)

lemma same (h : Visible s) (hw : Same s.writer w) (through : Option ℕ) :
    Visible { s with writer := w, through := through } := by
  have hkeep := h.keep hw.toCounts (fun hd => hw.degraded.symm.trans hd) (fun hne => absurd rfl hne) []
  rw [List.append_nil, List.append_nil] at hkeep
  exact { hkeep with }

lemma recovered_append (h : Visible s) {i : Item}
    (hi : ∀ line fate, i = .recovered line fate →
      ∃ err, line = summary (sinceWorked s.history).length (bytes (sinceWorked s.history)) err)
    (before after : List Item) (line : Entry) (fate : Fate)
    (heq : s.history ++ [i] = before ++ .recovered line fate :: after) :
    ∃ err, line = summary (sinceWorked before).length (bytes (sinceWorked before)) err := by
  rcases List.eq_nil_or_concat after with rfl | ⟨after, j, rfl⟩
  · obtain ⟨rfl, hlast⟩ := List.append_inj' heq rfl
    exact hi line fate (List.singleton_inj.1 hlast)
  · rw [List.concat_eq_append, ← List.cons_append, ← List.append_assoc] at heq
    exact h.recovered before after line fate (List.append_inj' heq rfl).1

lemma snoc (h : Visible s) {i : Item} {frames : List (ℕ × Entry)} {evicted : List ChunkMeta}
    (hoptions : w.toWriterOptions = s.writer.toWriterOptions)
    (hwritten : List.Sublist (writtenFrames s.writer [i]) frames)
    (hrefused : ∀ e buffered, i = .offered e (.refused buffered) →
      Refuses s.writer.toWriterOptions buffered (s.writer.cut e).size)
    (hdroppedFrames : w.droppedFrames = s.writer.droppedFrames + i.dropped?.toList.length)
    (hdroppedBytes : w.droppedBytes = s.writer.droppedBytes + bytes i.dropped?.toList)
    (hepisodeFrames : w.episodeFrames = (sinceWorked (s.history ++ [i])).length)
    (hepisodeBytes : w.episodeBytes = bytes (sinceWorked (s.history ++ [i])))
    (hworking : w.degraded = false → sinceWorked (s.history ++ [i]) = [])
    (htruncated : s.writer.truncated = true → w.truncated = true)
    (hlossy : i.lossy s.writer = true → w.truncated = true) (hevicted : evicted ≠ [] → w.truncated = true)
    (hrecovered : ∀ line fate, i = .recovered line fate →
      ∃ err, line = summary (sinceWorked s.history).length (bytes (sinceWorked s.history)) err)
    (hreported : ∀ line fate, i = .recovered line fate →
      fate.Settles s.writer.toWriterOptions frames (s.writer.cut line)) :
    Visible { s with
      writer := w, frames := s.frames ++ frames, evicted := s.evicted ++ evicted,
      history := s.history ++ [i] } := by
  have hdropped : droppedLines (s.history ++ [i]) = droppedLines s.history ++ i.dropped?.toList := by
    rw [droppedLines, List.filterMap_append]
    cases hi : i.dropped? <;> simp [hi, droppedLines]
  constructor
  case written =>
    rw [writtenFrames_congr hoptions, writtenFrames, List.filterMap_append]
    exact h.written.append hwritten
  case refused =>
    intro e buffered he
    rw [hoptions, cut_congr hoptions]
    rcases List.mem_append.1 he with he | he
    · exact h.refused e buffered he
    · exact hrefused e buffered (List.mem_singleton.1 he).symm
  case droppedFrames =>
    rw [hdropped, List.length_append, ← h.droppedFrames]
    exact hdroppedFrames
  case droppedBytes =>
    rw [hdropped, bytes, List.map_append, List.sum_append]
    exact hdroppedBytes.trans (congrArg (· + _) h.droppedBytes)
  case episodeFrames => exact hepisodeFrames
  case episodeBytes => exact hepisodeBytes
  case working => exact hworking
  case lossy =>
    intro j hj hlossy'
    rw [lossy_congr hoptions] at hlossy'
    rcases List.mem_append.1 hj with hj | hj
    · exact htruncated (h.lossy j hj hlossy')
    · cases List.mem_singleton.1 hj
      exact hlossy hlossy'
  case evicted =>
    intro hne
    by_cases hnil : evicted = []
    case neg => exact hevicted hnil
    case pos =>
      refine htruncated (h.evicted fun hs => hne ?_)
      rw [hs, hnil, List.append_nil]
  case recovered => exact h.recovered_append hrecovered
  case reported =>
    intro line fate hline
    rw [hoptions, cut_congr hoptions]
    rcases List.mem_append.1 hline with hline | hline
    · exact (h.reported line fate hline).mono (List.subset_append_left _ _)
    · exact (hreported line fate (List.mem_singleton.1 hline).symm).mono (List.subset_append_right _ _)

lemma drop (h : Visible s) (hw : Counts s.writer w) (hdegraded : w.degraded = true) (e : Entry)
    (frames : List (ℕ × Entry)) (evicted : List ChunkMeta) :
    Visible { s with
      writer := w.discard e, frames := s.frames ++ frames, evicted := s.evicted ++ evicted
      history := s.history ++ [.offered e .dropped] } := by
  have hsince : sinceWorked (s.history ++ [.offered e .dropped]) = sinceWorked s.history ++ [e] :=
    sinceWorked_append ..
  refine h.snoc hw.options (List.nil_sublist _) nofun ?_ ?_ ?_ ?_ ?_ (fun _ => rfl) (fun _ => rfl) (fun _ => rfl)
    nofun nofun
  · exact congrArg (· + 1) hw.droppedFrames
  · exact congrArg (· + e.size) hw.droppedBytes
  · rw [hsince, List.length_append, ← h.episodeFrames]
    exact congrArg (· + 1) hw.episodeFrames
  · rw [hsince, bytes_append, ← h.episodeBytes]
    exact congrArg (· + e.size) hw.episodeBytes
  · exact fun hworks => nomatch hdegraded.symm.trans hworks

lemma take (h : Visible s) (hworks : s.writer.degraded = false) {e : Entry} {r : Written}
    (hr : WroteLine s.writer e r) {sequence : Option ℕ} (houtcome : r.outcome = .ok sequence) :
    Visible { s with
      writer := r.writer, frames := s.frames ++ r.frame.toList, evicted := s.evicted ++ r.evicted
      history := s.history ++ [.offered e r.fate] } := by
  have hnone := h.working hworks
  have hframes : r.writer.episodeFrames = 0 := by
    rw [hr.same.episodeFrames, h.episodeFrames, hnone, List.length_nil]
  have hbytes : r.writer.episodeBytes = 0 := by rw [hr.same.episodeBytes, h.episodeBytes, hnone]; rfl
  cases sequence with
  | none =>
    have hfate : r.fate = .refused r.writer.buffer.buffered := by rw [Written.fate, houtcome]
    rw [hfate]
    have hsince : sinceWorked (s.history ++ [.offered e (.refused r.writer.buffer.buffered)]) = [] :=
      sinceWorked_append ..
    refine h.snoc hr.same.options (List.nil_sublist _) ?_ hr.same.droppedFrames hr.same.droppedBytes ?_ ?_ ?_
      hr.same.truncated (fun _ => (hr.refused houtcome).1) hr.evicted nofun nofun
    · rintro f buffered ⟨⟩
      exact (hr.refused houtcome).2
    · exact hframes.trans (congrArg List.length hsince).symm
    · exact hbytes.trans (congrArg bytes hsince).symm
    · exact fun _ => hsince
  | some n =>
    have hfate : r.fate = .written n := by rw [Written.fate, houtcome]
    rw [hfate]
    have hsince : sinceWorked (s.history ++ [.offered e (.written n)]) = [] := sinceWorked_append ..
    refine h.snoc hr.same.options ?_ nofun hr.same.droppedFrames hr.same.droppedBytes ?_ ?_ ?_
      hr.same.truncated (hr.shortened n houtcome) hr.evicted nofun nofun
    · rw [hr.stored n houtcome]
      exact List.Sublist.refl _
    · exact hframes.trans (congrArg List.length hsince).symm
    · exact hbytes.trans (congrArg bytes hsince).symm
    · exact fun _ => hsince

lemma captureWrite (h : Visible s) (hworks : s.writer.degraded = false) (e : Entry) (io : CaptureIO) :
    ∃ fate, (s.writer.captureWrite e io).fate = .ok fate ∧
      Visible { s with
        writer := (s.writer.captureWrite e io).writer, frames := s.frames ++ (s.writer.captureWrite e io).frames
        evicted :=
          s.evicted ++ (s.writer.captureWrite e io).evicted, history := s.history ++ [.offered e fate] } := by
  have hr := wroteLine_writeLocked s.writer e io.write
  unfold Writer.captureWrite
  dsimp only
  split
  case h_1 err houtcome =>
    have hfate : (s.writer.writeLocked e io.write).fate = .dropped := by rw [Written.fate, houtcome]
    rw [hfate]
    exact ⟨.dropped, rfl, h.drop (hr.same.toCounts.trans (counts_enterDegraded ..)) rfl e _ _⟩
  case h_2 sequence houtcome => exact ⟨_, rfl, h.take hworks hr houtcome⟩

lemma recovery (h : Visible s) {r : Recovery} (hr : Recovered s.writer r) : Visible (s.recovery r) := by
  cases hsummary : r.summary with
  | none =>
    obtain ⟨hcounts, hdegraded⟩ := hr.failed hsummary
    have hkeep := h.keep hcounts (fun hworks => nomatch hdegraded.symm.trans hworks) hr.evicted r.frames
    rw [Log.recovery, hsummary]
    simpa using hkeep
  | some report =>
    obtain ⟨line, fate⟩ := report
    obtain ⟨hline, ⟨w, hcounts, hwriter⟩, hreported⟩ := hr.succeeded line fate hsummary
    have hsince : sinceWorked (s.history ++ [.recovered line fate]) = [] := sinceWorked_append ..
    rw [Log.recovery, hsummary]
    refine h.snoc ?_ (List.nil_sublist _) nofun ?_ ?_ ?_ ?_ (fun _ => hsince) ?_ nofun hr.evicted ?_ ?_
    · rw [hwriter]
      exact hcounts.options
    · rw [hwriter]
      exact hcounts.droppedFrames
    · rw [hwriter]
      exact hcounts.droppedBytes
    · rw [hwriter, hsince]
      rfl
    · rw [hwriter, hsince]
      rfl
    · rw [hwriter]
      exact hcounts.truncated
    · rintro l f ⟨⟩
      exact ⟨s.writer.degradedErr, by rw [hline, h.episodeFrames, h.episodeBytes]⟩
    · rintro l f ⟨⟩
      exact hreported

lemma works_of_recovered {r : Recovery} (hr : Recovered s.writer r) {report : Entry × Fate}
    (hreport : r.summary = some report) : r.writer.degraded = false := by
  obtain ⟨-, ⟨w, -, hwriter⟩, -⟩ := hr.succeeded report.1 report.2 hreport
  rw [hwriter]

lemma capture (h : Visible s) (e : Entry) (now : ℤ) (io : CaptureIO) : Visible (s.next (.capture e now io)) := by
  by_cases hclosed : s.writer.closed = true
  case pos =>
    have hcall : s.writer.captureLocked e now io = ⟨⟨s.writer, [], [], none⟩, .error errWriterClosed⟩ :=
      if_pos hclosed
    simpa [Log.next, Log.recovery, hcall] using h
  by_cases hdegraded : s.writer.degraded = true
  case neg =>
    have hcall : s.writer.captureLocked e now io = s.writer.captureWrite e io := by
      rw [Writer.captureLocked, if_neg hclosed, if_neg hdegraded]
    obtain ⟨fate, hfate, hvisible⟩ := h.captureWrite (Bool.eq_false_iff.2 hdegraded) e io
    have hsummary : (s.writer.captureWrite e io).summary = none := by
      unfold Writer.captureWrite
      dsimp only
      split <;> rfl
    simpa [Log.next, Log.recovery, hcall, hfate, hsummary] using hvisible
  by_cases hearly : now < s.writer.retryAt
  case pos =>
    have hcall : s.writer.captureLocked e now io = ⟨⟨s.writer.discard e, [], [], none⟩, .ok .dropped⟩ := by
      rw [Writer.captureLocked, if_neg hclosed, if_pos hdegraded, if_pos hearly]
    have hdrop := h.drop ⟨rfl, rfl, rfl, rfl, rfl, id⟩ hdegraded e [] []
    simpa [Log.next, Log.recovery, hcall] using hdrop
  have hr := recovered_recoverLocked hdegraded now io.recover
  cases hsummary : (s.writer.recoverLocked now io.recover).summary with
  | none =>
    obtain ⟨hcounts, hstill⟩ := hr.failed hsummary
    have hcall : s.writer.captureLocked e now io = ⟨{ s.writer.recoverLocked now io.recover with
        writer := (s.writer.recoverLocked now io.recover).writer.discard e }, .ok .dropped⟩ := by
      rw [Writer.captureLocked, if_neg hclosed, if_pos hdegraded, if_neg hearly]
      dsimp only
      rw [hsummary]
    have hdrop := h.drop hcounts hstill e (s.writer.recoverLocked now io.recover).frames
      (s.writer.recoverLocked now io.recover).evicted
    simpa [Log.next, Log.recovery, hcall, hsummary] using hdrop
  | some line =>
    have hcall : s.writer.captureLocked e now io =
        ⟨⟨((s.writer.recoverLocked now io.recover).writer.captureWrite e io).writer,
          (s.writer.recoverLocked now io.recover).evicted ++
            ((s.writer.recoverLocked now io.recover).writer.captureWrite e io).evicted,
          (s.writer.recoverLocked now io.recover).frames ++
            ((s.writer.recoverLocked now io.recover).writer.captureWrite e io).frames, some line⟩,
          ((s.writer.recoverLocked now io.recover).writer.captureWrite e io).fate⟩ := by
      rw [Writer.captureLocked, if_neg hclosed, if_pos hdegraded, if_neg hearly]
      dsimp only
      rw [hsummary]
    obtain ⟨fate, hfate, hvisible⟩ := (h.recovery hr).captureWrite (works_of_recovered hr hsummary) e io
    change ((s.writer.recoverLocked now io.recover).writer.captureWrite e io).fate = .ok fate at hfate
    simpa [Log.next, Log.recovery, hcall, hsummary, hfate] using hvisible

lemma close (h : Visible s) (now : ℤ) (io : CloseIO) : Visible (s.next (.close now io)) := by
  by_cases hclosed : s.writer.closed = true
  case pos =>
    have hcall : s.writer.close now io = ⟨s.writer, [], [], none⟩ := if_pos hclosed
    simpa [Log.next, Log.recovery, hcall] using h
  have hrecovery : Visible (s.recovery
      (if s.writer.degraded then s.writer.recoverLocked now io.recover else ⟨s.writer, [], [], none⟩)) := by
    split
    case isTrue hdegraded => exact h.recovery (recovered_recoverLocked hdegraded now io.recover)
    case isFalse => simpa [Log.recovery] using h
  have hfinish : ∀ w : Writer, Same w { w with closed := true, buffer := (w.buffer.finishChunk io.finish).1 } :=
    fun _ => ⟨⟨rfl, rfl, rfl, rfl, rfl, id⟩, rfl⟩
  rw [Log.next, Writer.close, if_neg hclosed]
  exact hrecovery.same (hfinish _) s.through

lemma next (h : Visible s) (e : Event) : Visible (s.next e) := by
  cases e with
  | capture e now io => exact h.capture e now io
  | write e io =>
    have hr := wroteLine_writeLocked s.writer e io
    exact h.keep hr.same.toCounts (fun hd => hr.same.degraded.symm.trans hd) hr.evicted _
  | checkpoint io =>
    unfold Log.next
    cases s.through with
    | some n => exact h
    | none =>
      have hseal := same_sealForArchive s.writer io
      revert hseal
      dsimp only
      generalize s.writer.sealForArchive io = r
      obtain ⟨w, result⟩ := r
      intro hseal
      cases result with
      | error err | ok n => exact h.same hseal _
  | batch io =>
    unfold Log.next
    cases s.through with
    | none => exact h
    | some n => exact h.same (same_archiveBatchLocked s.writer n io) _
  | endCheckpoint => exact h.same (same_of_buffer _ _ _ id) none
  | syncFailed =>
    have hsame : Same s.writer s.writer.syncFailed := ⟨⟨rfl, rfl, rfl, rfl, rfl, fun _ => rfl⟩, rfl⟩
    exact h.same hsame _
  | close now io => exact h.close now io

lemma run (h : Visible s) (es : List Event) : Visible (s.run es) := by
  induction es generalizing s with
  | nil => exact h
  | cons e es ih => exact ih (h.next e)

lemma start (options : WriterOptions) (how : Start) : Visible (.start options how) := by
  cases how <;> exact ⟨.slnil, nofun, rfl, rfl, rfl, rfl, fun _ => rfl, nofun,
    fun h => absurd rfl h, by simp [Log.start], nofun⟩

end Visible

/-! ## A loss is not forgotten -/

namespace Log

lemma history_next (s : Log) (e : Event) :
    s.history <+: (s.next e).history ∧ s.evicted <+: (s.next e).evicted := by
  cases e with
  | capture e now io =>
    unfold next
    dsimp only
    split
    case h_1 => exact ⟨List.prefix_append .., List.prefix_append ..⟩
    case h_2 => exact ⟨(List.prefix_append ..).trans (List.prefix_append ..), List.prefix_append ..⟩
  | write e io => exact ⟨List.prefix_rfl, List.prefix_append ..⟩
  | checkpoint io =>
    unfold next
    dsimp only
    split
    case h_1 => exact ⟨List.prefix_rfl, List.prefix_rfl⟩
    case h_2 => split <;> exact ⟨List.prefix_rfl, List.prefix_rfl⟩
  | batch io =>
    unfold next
    dsimp only
    split <;> exact ⟨List.prefix_rfl, List.prefix_rfl⟩
  | endCheckpoint | syncFailed => exact ⟨List.prefix_rfl, List.prefix_rfl⟩
  | close now io => exact ⟨List.prefix_append .., List.prefix_append ..⟩

lemma history_run (s : Log) (es : List Event) :
    s.history <+: (s.run es).history ∧ s.evicted <+: (s.run es).evicted := by
  induction es generalizing s with
  | nil => exact ⟨List.prefix_rfl, List.prefix_rfl⟩
  | cons e es ih => exact ⟨(s.history_next e).1.trans (ih _).1, (s.history_next e).2.trans (ih _).2⟩

def Lossy (s : Log) : Prop := (∃ i ∈ s.history, i.lossy s.writer = true) ∨ s.evicted ≠ []

lemma Lossy.run {options : WriterOptions} {s : Log} (h : s.Lossy) (hs : s.Sound options) (es : List Event) :
    (s.run es).Lossy := by
  obtain ⟨hhistory, hevicted⟩ := s.history_run es
  rcases h with ⟨i, hi, hlossy⟩ | hne
  · refine .inl ⟨i, hhistory.subset hi, ?_⟩
    rwa [lossy_congr ((hs.run es).options.trans hs.options.symm)]
  · exact .inr fun hnil => hne (List.prefix_nil.1 (hnil ▸ hevicted))

lemma offered_capture {s : Log} (hopen : s.writer.closed = false) (e : Entry) (now : ℤ) (io : CaptureIO) :
    ∃ fate, .offered e fate ∈ (s.next (.capture e now io)).history := by
  have hwrite : ∀ w : Writer, ∃ fate, (w.captureWrite e io).fate = .ok fate := fun w => by
    unfold Writer.captureWrite
    dsimp only
    split <;> exact ⟨_, rfl⟩
  obtain ⟨fate, hfate⟩ : ∃ fate, (s.writer.captureLocked e now io).fate = .ok fate := by
    rw [Writer.captureLocked, if_neg (by simp [hopen])]
    split
    case isFalse => exact hwrite _
    case isTrue =>
      split
      case isTrue => exact ⟨_, rfl⟩
      case isFalse =>
        dsimp only
        split
        case h_1 => exact ⟨_, rfl⟩
        case h_2 => exact hwrite _
  refine ⟨fate, ?_⟩
  simp [next, hfate]

/-- A line that was cut before it was offered to an open writer marks the log for good. -/
lemma truncated_of_flagged {options : WriterOptions} {how : Start} {before after : List Event} {e : Entry}
    {now : ℤ} {io : CaptureIO} (hopen : ((Log.start options how).run before).writer.closed = false)
    (he : e.flagged = true) :
    ((Log.start options how).run (before ++ .capture e now io :: after)).writer.truncated = true := by
  obtain ⟨fate, hfate⟩ := offered_capture hopen e now io
  have hrun : (Log.start options how).run (before ++ .capture e now io :: after) =
      (((Log.start options how).run before).next (.capture e now io)).run after := List.foldl_append ..
  refine ((Visible.start options how).run _).lossy (.offered e fate) ?_ ?_
  · rw [hrun]
    exact (history_run _ after).1.subset hfate
  · cases fate with
    | written n => simp [Item.lossy, he]
    | refused | dropped => rfl

end Log

/-- No loss of captured output is silent. The frames have increasing sequence numbers, and those of the lines that
were written are among them; other lines were refused by the log_max policy, with a full buffer, or are counted as
dropped. Any loss leaves the truncated mark for good. The summary of a recovery gives the lines dropped since
capture last worked, and is itself written unless the policy refuses it. -/
theorem loss_visible (options : WriterOptions) (how : Start) (es : List Event) :
    let s := (Log.start options how).run es
    ((s.frames.map (·.1)).Pairwise (· < ·) ∧ List.Sublist (writtenFrames s.writer s.history) s.frames ∧
      (∀ e buffered, .offered e (.refused buffered) ∈ s.history → Refuses options buffered (s.writer.cut e).size) ∧
      s.writer.droppedFrames = (droppedLines s.history).length ∧
      s.writer.droppedBytes = bytes (droppedLines s.history)) ∧
    (s.Lossy → ∀ more, (s.run more).writer.truncated = true) ∧
    ∀ before after line fate, s.history = before ++ .recovered line fate :: after →
      (∃ err, line = summary (sinceWorked before).length (bytes (sinceWorked before)) err) ∧
      fate.Settles options s.frames (s.writer.cut line) := by
  have hbooks := (Log.sound_start options how).run es
  have h := (Visible.start options how).run es
  have hrefused := h.refused
  have hreported := h.reported
  rw [hbooks.options] at hrefused hreported
  refine ⟨⟨hbooks.numbered.increasing, h.written, hrefused, h.droppedFrames, h.droppedBytes⟩, ?_, ?_⟩
  · intro hlossy more
    rcases hlossy.run hbooks more with ⟨i, hi, hlost⟩ | hevicted
    · exact (h.run more).lossy i hi hlost
    · exact (h.run more).evicted hevicted
  · intro before after line fate heq
    refine ⟨h.recovered before after line fate heq, hreported line fate ?_⟩
    rw [heq]
    exact List.mem_append_right _ List.mem_cons_self

def outage : List Event :=
  [.capture ⟨.stdout, [97], 0⟩ 0 { Log.goodCapture with write := { Log.goodWrite with encode := some "disk full" }
    }, .capture ⟨.stdout, [98], 0⟩ captureRetryMin Log.goodCapture]

theorem loss_visible_outage : ∃ s line, s = (Log.start ⟨0, 0, false⟩ .opened).run outage ∧
    s.history =
      [.offered ⟨.stdout, [97], 0⟩ .dropped, .recovered line (.written 2),
      .offered ⟨.stdout, [98], 0⟩ (.written 3)] ∧
    (∃ err, line = summary 1 25 err) ∧ s.writer.droppedFrames = 1 ∧ s.writer.truncated = true := by
  obtain ⟨⟨-, -, -, hdropped, -⟩, hlossy, hsummary⟩ := loss_visible ⟨0, 0, false⟩ .opened outage
  have hhistory : ((Log.start ⟨0, 0, false⟩ .opened).run outage).history =
    [.offered ⟨.stdout, [97], 0⟩ .dropped, .recovered (summary 1 25 (some "disk full")) (.written 2),
      .offered ⟨.stdout, [98], 0⟩ (.written 3)] := by decide +kernel
  refine ⟨_, _, rfl, hhistory, (hsummary [.offered ⟨.stdout, [97], 0⟩ .dropped] _ _ _ hhistory).1, ?_, ?_⟩
  · rw [hdropped, hhistory]
    rfl
  · refine hlossy (.inl ⟨.offered ⟨.stdout, [97], 0⟩ .dropped, ?_, rfl⟩) []
    rw [hhistory]
    exact List.mem_cons_self

end Minicrond.Logs.Capture
