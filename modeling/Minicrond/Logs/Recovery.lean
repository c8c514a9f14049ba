import Minicrond.Logs.Orphans

/-! A log survives a crash between any two operations: all that was accepted is read back, before and after the
sweeps that follow the restart. -/

namespace Minicrond.Logs

open Minicrond.Library

def readPages (d : Disk) : List (ℤ × ℤ) → ℕ → List Frame
  | [], _ => []
  | (limit, budget) :: pages, after =>
    match (readContext d after limit budget).getLast? with
    | none => []
    | some f => readContext d after limit budget ++ readPages d pages f.sequence

def Readable (d : Disk) (frames : List Frame) : Prop :=
  ∀ pages, frames.length ≤ pages.length → readPages d pages 0 = frames

section

variable {ends : ℕ → ℕ} {accepted : List Frame} {d : Disk} {after : ℕ}

lemma Layout.page (h : Layout ends accepted d) (after : ℕ) (limit budget : ℤ) :
    ∃ rest, above Frame.sequence after accepted = Logs.readContext d after limit budget ++ rest ∧
      (Logs.readContext d after limit budget = [] → above Frame.sequence after accepted = []) := by
  obtain ⟨ys, ⟨rest, hsplit⟩, hout, hsome⟩ := consume_takes (clampLimit limit) budget
    (p := Page.start after) h.increasing.above fun f hf => (mem_above.mp hf).2
  have hpage : Logs.readContext d after limit budget = ys := (h.readContext after limit budget).trans hout
  rw [hpage]
  refine ⟨rest, hsplit.symm, fun hnone => ?_⟩
  by_contra hne
  exact hsome hne rfl hnone

lemma Layout.readPages (h : Layout ends accepted d) {pages : List (ℤ × ℤ)}
    (hpages : (above Frame.sequence after accepted).length ≤ pages.length) :
    readPages d pages after = above Frame.sequence after accepted := by
  induction pages generalizing after with
  | nil => exact (List.eq_nil_of_length_eq_zero (Nat.le_zero.mp hpages)).symm
  | cons page pages ih =>
    obtain ⟨limit, budget⟩ := page
    obtain ⟨rest, hsplit, hnone⟩ := h.page after limit budget
    rw [Logs.readPages]
    by_cases hne : Logs.readContext d after limit budget = []
    · rw [hne, hnone hne]
      rfl
    · have hrest := above_getLast h.increasing hsplit hne
      have hpos := List.length_pos_of_ne_nil hne
      rw [List.getLast?_eq_getLast_of_ne_nil hne]
      dsimp only
      rw [ih, hrest, hsplit]
      rw [hsplit, List.length_append, List.length_cons] at hpages
      rw [hrest]
      omega

lemma Layout.readable (h : Layout ends accepted d) : Readable d accepted := by
  have hall : above Frame.sequence 0 accepted = accepted := by
    rw [above, List.filter_eq_self]
    intro f hf
    have := (h.bounds f hf).1
    simp only [decide_eq_true_eq]
    omega
  intro pages hpages
  rw [h.readPages (by rw [hall]; exact hpages), hall]

end

def Fits : Option Writer → (ℕ → ℕ) → Disk → Prop
  | some w => fun ends d => WriterOk ends d w
  | none => fun _ _ => True

structure Good (s : Log) : Prop where
  steady : Steady (Fits s.writer) s.accepted s.disk s.program
  quiet : s.writer = none → ∀ e ∈ s.program, e.moves = true

section

variable {s t : Log} {e : Event}

lemma Good.idle (h : Good s) {w : Writer} (hprogram : s.program = []) (hwriter : s.writer = some w) :
    ∃ ends, Layout ends s.accepted s.disk ∧ WriterOk ends s.disk w := by
  have hsteady := h.steady
  rw [hprogram, hwriter] at hsteady
  exact hsteady

lemma not_holds_zero {n : ℕ} : ¬Holds (fun _ => 0) n := fun h => lt_irrefl 0 h.2

lemma layout_opened {options : WriterOptions} : Layout (fun _ => 0) [] (Log.opened options).disk where
  increasing := List.Pairwise.nil
  mono := monotone_const
  bounds := by simp
  attained _ hn := (not_holds_zero hn).elim
  row := by simp [Log.opened]
  archive := by simp [Log.opened]
  names := by simp [Log.opened]
  buffer := by simp [Log.opened, piece, slice]
  covered _ hn := (not_holds_zero hn).elim
  earlier _ _ _ _ hk := (not_holds_zero hk).elim
  index := by simp [Log.opened]

lemma good_opened (options : WriterOptions) : Good (Log.opened options) := by
  refine ⟨⟨fun _ => 0, layout_opened, fun _ => ⟨⟨?_, ?_, ?_, ?_, ?_, ?_, ?_⟩, ?_, ?_, ?_, ?_, ?_⟩, ?_, ?_, ?_, ?_⟩,
    ?_⟩
  · exact Nat.one_pos
  · exact ⟨⟨1, [], 0⟩, List.mem_cons_self, rfl⟩
  · exact fun _ _ => rfl
  · rintro k ⟨f, hf, rfl⟩
    rw [List.mem_singleton.mp hf]
  · rintro k ⟨f, hf, _⟩
    simp [Log.opened] at hf
  · rintro k ⟨c, hc, _⟩
    simp [Log.opened] at hc
  · rintro idx ⟨⟩
  · exact le_rfl
  · exact Nat.one_pos
  · exact le_rfl
  · exact fun hle => (Nat.not_succ_le_zero 0 hle).elim
  · exact fun _ => not_holds_zero
  · exact List.Pairwise.nil
  · simp
  · simp
  · exact fun k hk => (not_holds_zero hk).elim
  · simp [Log.opened]

lemma steady_sealForArchive {ends : ℕ → ℕ} {accepted : List Frame} {d : Disk} {w : Writer}
    (h : Layout ends accepted d) (hw : WriterOk ends d w) (hopen : w.closed = false) (bytes : ℕ) :
    Steady (fun ends d => WriterOk ends d (w.sealForArchive bytes).2) accepted d (w.sealForArchive bytes).1 := by
  rw [Writer.sealForArchive]
  split_ifs
  · exact steady_rotate h hw hopen
  · exact ⟨ends, h, hw⟩

lemma LogStep.good (hstep : LogStep s e t) (h : Good s) : Good t := by
  cases hstep with
  | perform hprogram =>
    obtain ⟨hsteady, hquiet⟩ := h
    rw [hprogram] at hsteady hquiet
    exact ⟨hsteady.2, fun hw => (List.forall_mem_cons.mp (hquiet hw)).2⟩
  | write hprogram hwriter hopen =>
    obtain ⟨ends, hlayout, hw⟩ := h.idle hprogram hwriter
    exact ⟨steady_write hlayout hw hopen, by simp⟩
  | checkpoint hprogram hwriter hopen hthrough =>
    obtain ⟨ends, hlayout, hw⟩ := h.idle hprogram hwriter
    exact ⟨steady_sealForArchive hlayout hw hopen _, by simp⟩
  | batch hprogram hwriter hthrough hbatch =>
    obtain ⟨ends, hlayout, hw⟩ := h.idle hprogram hwriter
    obtain ⟨hsafe, hmoves, hw'⟩ := hw.batch hlayout hbatch
    exact ⟨hsafe.steady hmoves hw', by simp⟩
  | endCheckpoint hprogram => exact ⟨h.steady, h.quiet⟩
  | close hprogram hwriter hopen =>
    obtain ⟨ends, hlayout, hw⟩ := h.idle hprogram hwriter
    obtain ⟨hsafe, hw'⟩ := hw.close hlayout hopen _
    exact ⟨hsafe.steady (by simp [Writer.close, Writer.finishChunk, Effect.moves]) hw', by simp⟩
  | detach hprogram hwriter hclosed hthrough =>
    obtain ⟨ends, hlayout, _⟩ := h.idle hprogram hwriter
    refine ⟨?_, ?_⟩ <;> dsimp only <;> rw [hprogram]
    · exact ⟨ends, hlayout, trivial⟩
    · simp
  | crash =>
    obtain ⟨ends, hlayout⟩ := h.steady.layout
    exact ⟨⟨ends, hlayout, trivial⟩, by simp⟩
  | orphan hprogram hwriter horphan hremoval =>
    obtain ⟨ends, hlayout⟩ := h.steady.layout
    obtain ⟨hsafe, hmoves, _⟩ := hlayout.archiveOrphan horphan hremoval
    exact ⟨hsafe.steady hmoves (by rw [hwriter]; trivial), fun _ => hmoves⟩
  | short hprogram hwriter hshort hremoval =>
    obtain ⟨ends, hlayout⟩ := h.steady.layout
    obtain ⟨hsafe, hmoves⟩ := hlayout.short hshort hremoval
    exact ⟨hsafe.steady hmoves (by rw [hwriter]; trivial), fun _ => hmoves⟩
  | sweepFiles hprogram hwriter =>
    obtain ⟨ends, hlayout⟩ := h.steady.layout
    obtain ⟨hsafe, hmoves⟩ := hlayout.sweepRunFiles
    exact ⟨hsafe.steady hmoves (by rw [hwriter]; trivial), fun _ => hmoves⟩

lemma good_of_run {options : WriterOptions} {events : List Event} (h : Run LogStep (Log.opened options) events s) :
    Good s :=
  h.invariant (P := Good) (fun _ _ _ hstep => hstep.good) (good_opened options)

lemma LogStep.quiet (hstep : LogStep s e t) (h : Good s) (hwriter : s.writer = none) :
    t.writer = none ∧ t.accepted = s.accepted := by
  cases hstep with
  | perform hprogram =>
    have hmoves := h.quiet hwriter
    rw [hprogram] at hmoves
    exact ⟨hwriter, Effect.retained_of_moves (List.forall_mem_cons.mp hmoves).1⟩
  | write _ hw | checkpoint _ hw | batch _ hw | close _ hw | detach _ hw => simp [hwriter] at hw
  | endCheckpoint => exact ⟨hwriter, rfl⟩
  | crash => exact ⟨rfl, rfl⟩
  | orphan | short | sweepFiles => exact ⟨hwriter, rfl⟩

def Log.crashed (s : Log) : Log := { s with program := [], writer := none, through := none }

lemma Good.afterCrash (h : Good s) {events : List Event} (hrun : Run LogStep s.crashed events t) :
    Good t ∧ t.accepted = s.accepted := by
  have hcrashed : Good s.crashed := LogStep.crash.good h
  have hinv : Good t ∧ t.writer = none ∧ t.accepted = s.accepted := by
    refine hrun.invariant (P := fun t => Good t ∧ t.writer = none ∧
      t.accepted = s.accepted) ?_ ⟨hcrashed, rfl, rfl⟩
    rintro u e v hstep ⟨hgood, hwriter, haccepted⟩
    obtain ⟨hnone, hsame⟩ := hstep.quiet hgood hwriter
    exact ⟨hstep.good hgood, hnone, hsame.trans haccepted⟩
  exact ⟨hinv.1, hinv.2.2⟩

lemma Good.readable (h : Good s) : Readable s.disk s.accepted := by
  obtain ⟨ends, hlayout⟩ := h.steady.layout
  exact hlayout.readable

lemma Good.sweeps (h : Good s) (renames : ℕ → Bool) (encoded : Chunk → ℕ) :
    ∃ es, archiveOrphan renames encoded s.disk = .ok es ∧
      ∀ removal, removal.Perm (removeAll (applyAll s.disk es)) →
        (applyAll s.disk (es ++ removal)).buffer = [] ∧ (applyAll s.disk (es ++ removal)).index = none ∧
        Readable (applyAll s.disk (es ++ removal)) s.accepted ∧
        Readable (applyAll (applyAll s.disk (es ++ removal)) (sweepRunFiles (applyAll s.disk (es ++ removal))))
          s.accepted := by
  obtain ⟨ends, hlayout⟩ := h.steady.layout
  refine ⟨_, archiveOrphan_ok hlayout renames encoded, fun removal hremoval => ?_⟩
  obtain ⟨hsafe, _, hbuffer, hindex⟩ := hlayout.archiveOrphan (archiveOrphan_ok hlayout renames encoded) hremoval
  exact ⟨hbuffer, hindex, hsafe.last.readable, hsafe.last.sweepRunFiles.1.last.readable⟩

/-- Whatever the log's history, a crash at any point and any later sweeps, whole or again cut short by crashes,
leave exactly the accepted frames to be read. -/
theorem crash_keeps_accepted {options : WriterOptions} {events later : List Event}
    (hrun : Run LogStep (Log.opened options) events s) (hlater : Run LogStep s.crashed later t) :
    Readable s.disk s.accepted ∧ Readable t.disk s.accepted ∧
      ∀ renames encoded, ∃ es, archiveOrphan renames encoded t.disk = .ok es ∧
        ∀ removal, removal.Perm (removeAll (applyAll t.disk es)) →
          (applyAll t.disk (es ++ removal)).buffer = [] ∧ (applyAll t.disk (es ++ removal)).index = none ∧
          Readable (applyAll t.disk (es ++ removal)) s.accepted ∧
          Readable (applyAll (applyAll t.disk (es ++ removal)) (sweepRunFiles (applyAll t.disk (es ++ removal))))
            s.accepted := by
  have hgood := good_of_run hrun
  obtain ⟨hgood', haccepted⟩ := hgood.afterCrash hlater
  have hsweeps := hgood'.sweeps
  rw [haccepted] at hsweeps
  exact ⟨hgood.readable, haccepted ▸ hgood'.readable, hsweeps⟩

def greeting : Line := ⟨.stdout, 0, [104, 105], by decide⟩

def lineWritten : Log where
  disk := ⟨[], [], [⟨1, [⟨greeting, 1, 0⟩], 30⟩], none⟩
  writer := some ⟨⟨0, 0, false⟩, 1, 26, 1, 1, 26, [], false⟩
  through := none
  program := []
  accepted := [⟨greeting, 1, 0⟩]

lemma run_lineWritten :
    Run LogStep (Log.opened ⟨0, 0, false⟩) [.write greeting 0 (40, 30), .perform] lineWritten :=
  .cons (.write rfl rfl rfl) <|
  .cons (.perform rfl) <|
  .nil _

def checkpointed : Log :=
  { lineWritten with
    disk := ⟨[], [], [⟨1, [⟨greeting, 1, 0⟩], 40⟩, ⟨2, [], 0⟩], some [⟨1, 1, 1, 40, 26⟩]⟩
    writer := some ⟨⟨0, 0, false⟩, 2, 0, 2, 1, 26, [⟨1, 1, 1, 40, 26⟩], false⟩
    through := some 1 }

lemma run_checkpointed : Run LogStep lineWritten [.checkpoint 40, .perform, .perform, .perform] checkpointed :=
  .cons (.checkpoint rfl rfl rfl rfl) <|
  .cons (.perform rfl) <|
  .cons (.perform rfl) <|
  .cons (.perform rfl) <|
  .nil _

def rowWritten : Log :=
  { checkpointed with
    disk := { checkpointed.disk with rows := [⟨1, 1, 1, 26, [⟨greeting, 1, 0⟩], 0⟩] }
    writer := some ⟨⟨0, 0, false⟩, 2, 0, 2, 1, 0, [], false⟩
    program := [.unlink 1, .writeIndex []] }

lemma run_rowWritten : Run LogStep checkpointed [.batch fun _ => true, .perform] rowWritten :=
  .cons (.batch rfl rfl rfl rfl) <|
  .cons (.perform rfl) <|
  .nil _

/-- The crash comes when the row of the first chunk is stored and its buffer file is still there. -/
theorem crash_keeps_accepted_row_written :
    ∃ s t, Run LogStep (Log.opened ⟨0, 0, false⟩)
        [.write greeting 0 (40, 30), .perform, .checkpoint 40, .perform, .perform, .perform, .batch fun _ => true,
        .perform] s ∧ Run LogStep s.crashed [.orphan (fun _ => true) fun _ => 40, .perform] t ∧
      s.accepted.length = 1 ∧ s.disk.rows.length = 1 ∧ s.disk.buffer.length = 2 ∧ Readable t.disk s.accepted := by
  have hrun := run_lineWritten.append (run_checkpointed.append run_rowWritten)
  have hlater : Run LogStep rowWritten.crashed [.orphan (fun _ => true) fun _ => 40, .perform] _ :=
    .cons (.orphan rfl rfl rfl (List.Perm.refl _)) (.cons (.perform rfl) (.nil _))
  exact ⟨_, _, hrun, hlater, rfl, rfl, rfl, (crash_keeps_accepted hrun hlater).2.1⟩

end

end Minicrond.Logs
