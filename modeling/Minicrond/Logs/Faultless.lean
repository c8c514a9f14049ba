import Minicrond.Logs.Capture

/-! A capture writer whose storage operations all succeed works as the writer of the archive. -/

namespace Minicrond.Logs.Capture

open Minicrond.Library

def Buffer.plain (b : Buffer) (options : WriterOptions) (closed : Bool) : Logs.Writer :=
  { options with
    chunk := b.chunk, chunkRaw := b.chunkRaw, chunkFirst := b.chunkFirst, seq := b.seq, buffered := b.buffered
    idx := b.idx, closed := closed }

def Writer.plain (w : Writer) : Logs.Writer := w.buffer.plain w.toWriterOptions w.closed

structure Buffer.Open (b : Buffer) : Prop where
  file : b.file = true
  enc : b.enc = true
  chunkErr : b.chunkErr = none

structure SealIO.Ok (io : SealIO) : Prop where
  close : io.close = none
  index : io.index = none

structure RotateIO.Ok (io : RotateIO) : Prop where
  create : io.create = none
  finish : io.finish.Ok

structure WriteIO.Ok (io : WriteIO) : Prop where
  evict : io.evict.Ok
  remove : ∀ n, io.remove n = none
  roll : io.roll.Ok
  encode : io.encode = none

def entry (l : Line) : Entry := ⟨l.stream, l.payload, l.flags⟩

section

variable {b : Buffer} {w : Writer} (options : WriterOptions) (closed : Bool) {l : Line} {io : WriteIO}

lemma finishChunk_ok (h : b.Open) {io : SealIO} (hio : io.Ok) :
    b.finishChunk io = (Buffer.addSealed { b with file := false } io.size, none) := by
  have herr : (Buffer.addSealed { b with file := false } io.size).chunkErr = none := by
    rw [Buffer.addSealed]
    split_ifs <;> exact h.chunkErr
  rw [Buffer.finishChunk, if_pos h.file, hio.close, hio.index, Buffer.installIndex, herr]
  rfl

lemma rotate_ok (h : b.Open) {io : RotateIO} (hio : io.Ok) :
    ∃ b', b.rotate io = (b', none) ∧ b'.Open ∧
      b'.plain options closed = ((b.plain options closed).rotate io.finish.size).2 := by
  have hfinish := finishChunk_ok h hio.finish
  obtain ⟨file, enc, chunk, chunkRaw, chunkFirst, seq, lastStored, total, buffered, idx, chunkErr⟩ := b
  obtain ⟨rfl, rfl, rfl⟩ := h
  by_cases hlast : chunkFirst ≤ seq <;> simp only [Buffer.addSealed, hlast, if_true, if_false] at hfinish
  all_goals
    refine ⟨_, by simp [Buffer.rotate, hio.create, hfinish]; rfl, ⟨rfl, rfl, rfl⟩, ?_⟩
    simp [Buffer.plain, Buffer.startChunk, Logs.Writer.rotate, Logs.Writer.finishChunk, hlast]

lemma evict_ok {remove : ℕ → Option Err} (hremove : ∀ n, remove n = none) (maxBytes size : ℕ) {ms : List ChunkMeta}
    (hidx : b.idx = ms) (h : b.Open) :
    ∃ b' gone, Buffer.evict remove maxBytes size ms b = (b', gone, none) ∧ b'.Open ∧
      b'.plain options closed = { b.plain options closed with
        idx := (Logs.Writer.evict maxBytes size ms b.buffered).2.1
        buffered := (Logs.Writer.evict maxBytes size ms b.buffered).2.2 } := by
  induction ms generalizing b with
  | nil => exact ⟨b, [], rfl, h, by simp [Buffer.plain, Logs.Writer.evict, hidx]⟩
  | cons m ms ih =>
    rw [Buffer.evict, Logs.Writer.evict]
    split_ifs with hover
    · obtain ⟨b', gone, heq, hopen, hplain⟩ := ih
        (b := { b with idx := ms, total := b.total - m.raw, buffered := b.buffered - m.raw }) rfl
        ⟨h.file, h.enc, h.chunkErr⟩
      exact ⟨b', m :: gone, by simp [hremove, heq], hopen, hplain⟩
    · exact ⟨b, [], rfl, h, by simp [Buffer.plain, hidx]⟩

/-- The part of the archive's `writeLocked` that comes after the room has been made. -/
def plainAppend (w : Logs.Writer) (size bytes : ℕ) : Logs.Writer :=
  let w := if chunkLimit < w.chunkRaw + size ∧ 0 < w.chunkRaw then (w.rotate bytes).2 else w
  { w with seq := w.seq + 1, chunkRaw := w.chunkRaw + size, buffered := w.buffered + size }

lemma writeLocked_plain (w : Logs.Writer) (l : Line) (timestamp : ℤ) (bytes : ℕ × ℕ) :
    (w.writeLocked l timestamp bytes).2 =
      if w.overflows (w.truncate l).size ∧ (w.dropNew ∨ w.maxBytes < (w.truncate l).size) then w
      else plainAppend (w.makeRoom (w.truncate l).size bytes.1).2 (w.truncate l).size bytes.1 := by
  rw [Logs.Writer.writeLocked]
  split_ifs
  · rfl
  · rcases w.makeRoom (w.truncate l).size bytes.1 with ⟨room, w'⟩
    simp only [plainAppend]
    split_ifs <;> rfl

lemma tooLong_iff :
    w.tooLong (entry l) = true ↔ 0 < w.plain.maxLine ∧ w.plain.maxLine < l.payload.length := by
  rw [Writer.tooLong, Bool.and_eq_true, decide_eq_true_eq, decide_eq_true_eq]
  rfl

lemma cut_entry : w.cut (entry l) = entry (w.plain.truncate l) := by
  rw [Writer.cut, Logs.Writer.truncate]
  by_cases hlong : 0 < w.plain.maxLine ∧ w.plain.maxLine < l.payload.length
  · rw [if_pos (tooLong_iff.mpr hlong), if_pos hlong]
    rfl
  · rw [if_neg (mt tooLong_iff.mp hlong), if_neg hlong]

structure Works (w : Writer) (plain : Logs.Writer) (r : Written) : Prop where
  plain : r.writer.plain = plain
  opened : r.writer.buffer.Open
  same : r.writer.closed = w.closed ∧ r.writer.degraded = w.degraded
  outcome : ∃ o, r.outcome = .ok o

lemma append_ok (h : w.buffer.Open) (hio : io.Ok) (gone : List ChunkMeta) (e : Entry) :
    Works w (plainAppend w.plain e.size io.roll.finish.size) (w.append gone e io) := by
  obtain ⟨b', hrotate, hopen, hplain⟩ := rotate_ok w.toWriterOptions w.closed h hio.roll
  by_cases hfull : chunkLimit < w.plain.chunkRaw + e.size ∧ 0 < w.plain.chunkRaw
  · have hfull' : chunkLimit < w.buffer.chunkRaw + e.size ∧ 0 < w.buffer.chunkRaw := hfull
    have happend : w.append gone e io =
        ⟨{ w with buffer := (b'.encodeFrame e none).1 }, gone, some (b'.seq + 1, e), .ok (some (b'.seq + 1))⟩ := by
      simp [Writer.append, hfull', hrotate, hio.encode, Buffer.encodeFrame, Except.map]
    rw [happend, plainAppend, if_pos hfull, show (w.plain.rotate _).2 = _ from hplain.symm]
    exact ⟨rfl, ⟨hopen.file, hopen.enc, hopen.chunkErr⟩, ⟨rfl, rfl⟩, _, rfl⟩
  · have hfull' : ¬ (chunkLimit < w.buffer.chunkRaw + e.size ∧ 0 < w.buffer.chunkRaw) := hfull
    have happend : w.append gone e io =
        ⟨{ w with buffer := (w.buffer.encodeFrame e none).1 }, gone, some (w.buffer.seq + 1, e),
          .ok (some (w.buffer.seq + 1))⟩ := by
      simp only [Writer.append, ← Bool.decide_and, decide_eq_true_eq, if_neg hfull', hio.encode]
      rfl
    rw [happend, plainAppend, if_neg hfull]
    exact ⟨rfl, ⟨h.file, h.enc, h.chunkErr⟩, ⟨rfl, rfl⟩, _, rfl⟩

lemma rotate_if_ok (h : b.Open) {io : RotateIO} (hio : io.Ok) :
    ∃ b', (if 0 < b.chunkRaw then b.rotate io else (b, none)) = (b', none) ∧ b'.Open ∧ b'.chunkRaw = 0 ∧
      b'.plain options closed = ((b.plain options closed).sealForArchive io.finish.size).2 := by
  obtain ⟨b', hrotate, hopen, hplain⟩ := rotate_ok options closed h hio
  rw [Logs.Writer.sealForArchive]
  by_cases hraw : 0 < b.chunkRaw
  · rw [if_pos hraw, if_pos (show 0 < (b.plain options closed).chunkRaw from hraw)]
    exact ⟨b', hrotate, hopen, congrArg Logs.Writer.chunkRaw hplain, hplain⟩
  · rw [if_neg hraw, if_neg (show ¬ 0 < (b.plain options closed).chunkRaw from hraw)]
    exact ⟨b, rfl, h, Nat.eq_zero_of_not_pos hraw, rfl⟩

lemma makeRoom_ok (h : w.buffer.Open) (hio : io.Ok) (e : Entry) (hover : w.plain.overflows e.size) :
    Works w (plainAppend (w.plain.makeRoom e.size io.evict.finish.size).2 e.size io.evict.finish.size)
      (w.makeRoom e io) := by
  obtain ⟨b', hrotate, hopen, hraw, hplain⟩ :=
    rotate_if_ok w.toWriterOptions w.closed h hio.evict
  obtain ⟨b'', gone, hevict, hopen', hplain'⟩ :=
    evict_ok w.toWriterOptions w.closed hio.remove w.maxBytes e.size rfl hopen
  have hroom : w.makeRoom e io = Writer.append { w with buffer := b'', truncated := true } gone e io := by
    rw [Writer.makeRoom, hrotate]
    dsimp only
    rw [hevict]
  have hraw' : b''.chunkRaw = 0 := (congrArg Logs.Writer.chunkRaw hplain').trans hraw
  have hmade : b''.plain w.toWriterOptions w.closed = (w.plain.makeRoom e.size io.evict.finish.size).2 := by
    rw [Logs.Writer.makeRoom, if_pos hover, ← Logs.Writer.sealForArchive]
    rw [← Writer.plain] at hplain
    generalize w.plain.sealForArchive io.evict.finish.size = sealed at hplain
    obtain ⟨effects, rotated⟩ := sealed
    obtain rfl : b'.plain w.toWriterOptions w.closed = rotated := hplain
    exact hplain'
  have hworks := append_ok (w := { w with buffer := b'', truncated := true }) hopen' hio gone e
  rw [hroom, ← hmade]
  refine ⟨hworks.plain.trans ?_, hworks.opened, hworks.same, hworks.outcome⟩
  simp [plainAppend, Writer.plain, Buffer.plain, hraw']

lemma overflows_iff {size : ℕ} : w.overflows size = true ↔ w.plain.overflows size := by
  rw [Writer.overflows, Bool.and_eq_true, decide_eq_true_eq, decide_eq_true_eq]
  rfl

lemma writeFrame_ok (h : w.buffer.Open) (hio : io.Ok) (e : Entry) :
    ∃ bytes, Works w
      (if w.plain.overflows e.size ∧ (w.dropNew ∨ w.maxBytes < e.size) then w.plain
        else plainAppend (w.plain.makeRoom e.size bytes).2 e.size bytes) (w.writeFrame e io) := by
  simp only [Writer.writeFrame, overflows_iff, Bool.or_eq_true, decide_eq_true_eq]
  by_cases hover : w.plain.overflows e.size
  · by_cases hdrop : w.dropNew = true ∨ w.maxBytes < e.size
    · refine ⟨0, ?_⟩
      rw [if_pos ⟨hover, hdrop⟩, if_pos hover, if_pos hdrop]
      exact ⟨rfl, h, ⟨rfl, rfl⟩, _, rfl⟩
    · refine ⟨io.evict.finish.size, ?_⟩
      rw [if_neg fun hboth => hdrop hboth.2, if_pos hover, if_neg hdrop]
      exact makeRoom_ok h hio e hover
  · refine ⟨io.roll.finish.size, ?_⟩
    rw [if_neg fun hboth => hover hboth.1, if_neg hover, Logs.Writer.makeRoom, if_neg hover]
    exact append_ok h hio [] e

lemma writeLocked_ok (h : w.buffer.Open) (hclosed : w.closed = false) (hio : io.Ok) (l : Line) (timestamp : ℤ) :
    ∃ bytes, Works w (w.plain.writeLocked l timestamp bytes).2 (w.writeLocked (entry l) io) := by
  obtain ⟨bytes, hworks⟩ := writeFrame_ok
    (w := { w with truncated := w.truncated || (entry l).flagged || w.tooLong (entry l) }) h hio
    (entry (w.plain.truncate l))
  have hwrite : w.writeLocked (entry l) io = Writer.writeFrame
      { w with truncated := w.truncated || (entry l).flagged ||
        w.tooLong (entry l) } (entry (w.plain.truncate l)) io := by
    simp [Writer.writeLocked, hclosed, h.chunkErr, h.file, h.enc, cut_entry]
  refine ⟨(bytes, 0), ?_⟩
  rw [hwrite, writeLocked_plain]
  exact ⟨hworks.plain, hworks.opened, hworks.same, hworks.outcome⟩

end

/-! ## Runs -/

/-- The events whose storage operations succeed, without the batches of a checkpoint. -/
def Event.Faultless : Event → Prop
  | .capture e _ io => (∃ l, e = entry l) ∧ io.write.Ok
  | .write e io => (∃ l, e = entry l) ∧ io.Ok
  | .checkpoint io => io.Ok
  | .batch _ => False
  | .endCheckpoint | .syncFailed => True
  | .close _ io => io.finish.Ok

structure Mirrors (s : Log) (t : Logs.Log) : Prop where
  program : t.program = []
  writer : t.writer = some s.writer.plain
  through : t.through = s.through
  degraded : s.writer.degraded = false
  opened : s.writer.closed = false → s.writer.buffer.Open

section

variable {s : Log} {t : Logs.Log}

lemma run_program (t : Logs.Log) :
    ∃ events t', Run LogStep t events t' ∧ t'.program = [] ∧ t'.writer = t.writer ∧ t'.through = t.through := by
  obtain ⟨disk, writer, through, program, accepted⟩ := t
  induction program generalizing disk accepted with
  | nil => exact ⟨[], _, .nil _, rfl, rfl, rfl⟩
  | cons e es ih =>
    obtain ⟨events, t', hrun, hprogram, hwriter, hthrough⟩ := ih (e.apply disk) (e.retained disk accepted)
    exact ⟨_, t', .cons (.perform rfl) hrun, hprogram, hwriter, hthrough⟩

def Reaches (t : Logs.Log) (s : Log) : Prop := ∃ events t', Run LogStep t events t' ∧ Mirrors s t'

lemma Reaches.of_step {e : Logs.Event} {t' : Logs.Log} (hstep : LogStep t e t')
    (hwriter : t'.writer = some s.writer.plain) (hthrough : t'.through = s.through)
    (hdegraded : s.writer.degraded = false) (hopened : s.writer.closed = false → s.writer.buffer.Open) :
    Reaches t s := by
  obtain ⟨events, t'', hrun, hprogram, hwriter', hthrough'⟩ := run_program t'
  exact ⟨_, t'', .cons hstep hrun, hprogram, hwriter'.trans hwriter, hthrough'.trans hthrough, hdegraded, hopened⟩

lemma Mirrors.keep (h : Mirrors s t) {s' : Log} (hwriter : s'.writer = s.writer)
    (hthrough : s'.through = s.through) :
    Reaches t s' :=
  ⟨[], t, .nil _, h.program, hwriter ▸ h.writer, h.through.trans hthrough.symm, hwriter ▸ h.degraded,
    hwriter ▸ h.opened⟩

lemma Mirrors.write (h : Mirrors s t) {l : Line} {io : WriteIO} (hio : io.Ok) {s' : Log}
    (hwriter : s'.writer = (s.writer.writeLocked (entry l) io).writer) (hthrough : s'.through = s.through) :
    Reaches t s' := by
  cases hclosed : s.writer.closed with
  | true => exact h.keep (by rw [hwriter, Writer.writeLocked, if_pos hclosed]) hthrough
  | false =>
    obtain ⟨bytes, hplain, hopen, hsame, -⟩ := writeLocked_ok (h.opened hclosed) hclosed hio l 0
    rw [← hwriter] at hplain hopen hsame
    exact .of_step (e := .write l 0 bytes) (.write h.program h.writer hclosed) (congrArg some hplain.symm)
      (h.through.trans hthrough.symm) (hsame.2.trans h.degraded) fun _ => hopen

lemma Mirrors.capture (h : Mirrors s t) {l : Line} {io : CaptureIO} (hio : io.write.Ok) (now : ℤ) :
    Reaches t (s.next (.capture (entry l) now io)) := by
  refine h.write (l := l) hio ?_ ?_
  · cases hclosed : s.writer.closed with
    | true => simp [Log.next, Log.recovery, Writer.captureLocked, Writer.writeLocked, hclosed]
    | false =>
      obtain ⟨bytes, -, -, -, o, ho⟩ := writeLocked_ok (h.opened hclosed) hclosed hio l 0
      simp [Log.next, Log.recovery, Writer.captureLocked, Writer.captureWrite, hclosed, h.degraded, ho]
  · rw [Log.next]
    split <;> rfl

lemma Mirrors.checkpoint (h : Mirrors s t) {io : RotateIO} (hio : io.Ok) :
    Reaches t (s.next (.checkpoint io)) := by
  cases hthrough : s.through with
  | some through => exact h.keep (by simp [Log.next, hthrough]) (by simp [Log.next, hthrough])
  | none =>
    cases hclosed : s.writer.closed with
    | true =>
      exact h.keep (by simp [Log.next, hthrough, Writer.sealForArchive, hclosed])
        (by simp [Log.next, hthrough, Writer.sealForArchive, hclosed])
    | false =>
      obtain ⟨b, hrotate, hopen, -, hplain⟩ :=
        rotate_if_ok s.writer.toWriterOptions s.writer.closed (h.opened hclosed) hio
      have hnext : s.next (.checkpoint io) = { s with
          writer :=
            { s.writer with buffer := b }, through := if b.chunk - 1 = 0 then none else some (b.chunk - 1) } := by
        simp [Log.next, hthrough, Writer.sealForArchive, hclosed, hrotate]
      have hseal : Reaches t { s with writer := { s.writer with buffer := b }, through := some (b.chunk - 1) } :=
        .of_step (e := .checkpoint io.finish.size)
          (.checkpoint h.program h.writer hclosed (h.through.trans hthrough)) (congrArg some hplain.symm)
          (congrArg (fun w => some (w.chunk - 1)) hplain.symm) h.degraded fun _ => hopen
      rw [hnext]
      split_ifs with hfirst
      · obtain ⟨events, t', hrun, hm⟩ := hseal
        obtain ⟨events', t'', hrun', hm'⟩ :
            Reaches t' { s with writer := { s.writer with buffer := b }, through := none } :=
          .of_step (.endCheckpoint hm.program) hm.writer rfl hm.degraded hm.opened
        exact ⟨_, t'', hrun.append hrun', hm'⟩
      · exact hseal

lemma Mirrors.close (h : Mirrors s t) {io : CloseIO} (hio : io.finish.Ok) (now : ℤ) :
    Reaches t (s.next (.close now io)) := by
  cases hclosed : s.writer.closed with
  | true => exact h.keep (by simp [Log.next, Log.recovery, Writer.close, hclosed]) rfl
  | false =>
    have hnext : (s.next (.close now io)).writer = { s.writer with
        closed := true, buffer := Buffer.addSealed { s.writer.buffer with file := false } io.finish.size } := by
      simp [Log.next, Log.recovery, Writer.close, hclosed, h.degraded, finishChunk_ok (h.opened hclosed) hio]
    refine .of_step (e := .close io.finish.size) (.close h.program h.writer hclosed) ?_ h.through ?_ ?_
    · rw [hnext, Buffer.addSealed]
      split_ifs with hlast <;>
        simp [Writer.plain, Buffer.plain, Logs.Writer.close, Logs.Writer.finishChunk, hlast]
    · rw [hnext]
      exact h.degraded
    · rw [hnext]
      nofun

lemma Mirrors.next (h : Mirrors s t) {e : Event} (he : e.Faultless) : Reaches t (s.next e) := by
  cases e with
  | capture e now io =>
    obtain ⟨⟨l, rfl⟩, hio⟩ := he
    exact h.capture hio now
  | write e io =>
    obtain ⟨⟨l, rfl⟩, hio⟩ := he
    exact h.write hio rfl rfl
  | checkpoint io => exact h.checkpoint he
  | batch => exact he.elim
  | endCheckpoint => exact .of_step (.endCheckpoint h.program) h.writer rfl h.degraded h.opened
  | syncFailed => exact ⟨[], t, .nil _, h.program, h.writer, h.through, h.degraded, h.opened⟩
  | close now io => exact h.close he now

lemma capture_refines_archive (options : WriterOptions) {es : List Event} (hes : ∀ e ∈ es, e.Faultless) :
    Reaches (Logs.Log.opened options) ((Log.start options .opened).run es) := by
  have hrun : ∀ s t, Mirrors s t → Reaches t (s.run es) := by
    induction es with
    | nil => exact fun s t h => h.keep rfl rfl
    | cons e es ih =>
      intro s t h
      obtain ⟨events, t', hrun, hm⟩ := h.next (hes e List.mem_cons_self)
      obtain ⟨events', t'', hrun', hm'⟩ := ih (fun e he => hes e (List.mem_cons_of_mem _ he)) _ _ hm
      exact ⟨_, t'', hrun.append hrun', hm'⟩
  exact hrun _ _ ⟨rfl, rfl, rfl, rfl, fun _ => ⟨rfl, rfl, rfl⟩⟩

end

end Minicrond.Logs.Capture
