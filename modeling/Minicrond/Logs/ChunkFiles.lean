import Minicrond.Library.Machine
import Minicrond.Logs.Capture

/-! What the operations of a writer do to its chunk files. A frame reaches the open file; a chunk is finalized or,
after a storage failure, abandoned as it is; and the next one is started. -/

namespace Minicrond.Logs.Capture

open Minicrond.Library

inductive FileEffect where
  -- A frame with a payload of this many bytes has been flushed to the open chunk.
  | frame (payload : ℕ)
  -- `finishChunk` has closed the chunk; `ok` unless the encoder, the fsync, the stat or the close
  -- failed.
  | finish (ok : Bool)
  -- `reopenChunk` has closed the chunk.
  | abandon
  | start (chunk : ℕ)
  deriving DecidableEq

structure Handle where
  chunk : ℕ
  isOpen : Bool
  deriving DecidableEq

inductive FileStep : Handle → FileEffect → Handle → Prop
  | frame {k} (payload) : FileStep ⟨k, true⟩ (.frame payload) ⟨k, true⟩
  | finish {k} (ok) : FileStep ⟨k, true⟩ (.finish ok) ⟨k, false⟩
  | abandon {k} : FileStep ⟨k, true⟩ .abandon ⟨k, false⟩
  | start {k} : FileStep ⟨k, false⟩ (.start (k + 1)) ⟨k + 1, true⟩

namespace Buffer

def handle (b : Buffer) : Handle := ⟨b.chunk, b.file⟩

def finishEffects (b : Buffer) (io : SealIO) : List FileEffect := if b.file then [.finish io.close.isNone] else []

def rotateEffects (b : Buffer) (io : RotateIO) : List FileEffect :=
  match b.chunkErr, io.create with
  | none, none =>
    if b.enc && b.file then
      b.finishEffects io.finish ++ if (b.finishChunk io.finish).2.isNone then [.start (b.chunk + 1)] else []
    else if b.enc || io.encoder.isNone then (if b.file then [.abandon] else []) ++ [.start (b.chunk + 1)]
    else []
  | _, _ => []

def restartEffects (b : Buffer) (io : ReopenIO) : List FileEffect :=
  (if b.file then [.abandon] else []) ++
    if io.mkdir.isNone then
      (indexAbandonedChunk { b with file := false, chunkErr := none } io.size).rotateEffects io.rotate
    else []

def reopenEffects (b : Buffer) (io : ReopenIO) : List FileEffect :=
  match b.chunkErr, io.index with
  | some ⟨_, true⟩, some _ => []
  | _, _ => b.restartEffects io

end Buffer

namespace Writer

def appendEffects (w : Writer) (e : Entry) (io : WriteIO) : List FileEffect :=
  let full := decide (chunkLimit < w.buffer.chunkRaw + e.size) && decide (0 < w.buffer.chunkRaw)
  (if full then w.buffer.rotateEffects io.roll else []) ++
    match (w.append [] e io).outcome with
    | .ok (some _) => [.frame e.payload.length]
    | _ => []

def makeRoomEffects (w : Writer) (e : Entry) (io : WriteIO) : List FileEffect :=
  let rolled := 0 < w.buffer.chunkRaw
  (if rolled then w.buffer.rotateEffects io.evict else []) ++
    match if rolled then w.buffer.rotate io.evict else (w.buffer, none) with
    | (_, some _) => []
    | (b, none) =>
      match Buffer.evict io.remove w.maxBytes e.size b.idx b with
      | (_, _, some _) => []
      | (b, _, none) => appendEffects { w with buffer := b, truncated := true } e io

def writeFrameEffects (w : Writer) (e : Entry) (io : WriteIO) : List FileEffect :=
  if w.overflows e.size then
    if w.dropNew || decide (w.maxBytes < e.size) then [] else w.makeRoomEffects e io
  else w.appendEffects e io

def writeEffects (w : Writer) (e : Entry) (io : WriteIO) : List FileEffect :=
  if w.closed then []
  else
    match w.buffer.chunkErr with
    | some _ => []
    | none =>
      if !w.buffer.file || !w.buffer.enc then []
      else writeFrameEffects { w with truncated := w.truncated || e.flagged || w.tooLong e } (w.cut e) io

def recoverEffects (w : Writer) (io : RecoverIO) : List FileEffect :=
  w.buffer.reopenEffects io.reopen ++
    match w.buffer.reopenChunk io.reopen with
    | (_, some _) => []
    | (b, none) =>
      writeEffects { w with buffer := b } (Capture.summary w.episodeFrames w.episodeBytes w.degradedErr) io.summary

def captureEffects (w : Writer) (e : Entry) (now : ℤ) (io : CaptureIO) : List FileEffect :=
  if w.closed then []
  else if w.degraded then
    if now < w.retryAt then []
    else
      let r := w.recoverLocked now io.recover
      w.recoverEffects io.recover ++ if r.summary.isSome then r.writer.writeEffects e io.write else []
  else w.writeEffects e io.write

def closeEffects (w : Writer) (now : ℤ) (io : CloseIO) : List FileEffect :=
  if w.closed then []
  else
    let r := if w.degraded then w.recoverLocked now io.recover else ⟨w, [], [], none⟩
    (if w.degraded then w.recoverEffects io.recover else []) ++ r.writer.buffer.finishEffects io.finish

def sealEffects (w : Writer) (io : RotateIO) : List FileEffect :=
  if w.closed then [] else if 0 < w.buffer.chunkRaw then w.buffer.rotateEffects io else []

end Writer

def Log.effects (s : Log) : Event → List FileEffect
  | .capture e now io => s.writer.captureEffects e now io
  | .write e io => s.writer.writeEffects e io
  | .checkpoint io => if s.through.isNone then s.writer.sealEffects io else []
  | .close now io => s.writer.closeEffects now io
  | .batch _ | .endCheckpoint | .syncFailed => []

/-! ## The open file -/

namespace Buffer

variable (b : Buffer)

lemma finishChunk_file (io : SealIO) : (b.finishChunk io).1.file = false := by
  have hinstall : ∀ (b : Buffer) (index : Option Err), (b.installIndex index).1.file = b.file := fun b index => by
    cases index <;> rfl
  rw [finishChunk]
  split_ifs with hfile habandoned
  case pos =>
    split
    case h_1 => rfl
    case h_2 =>
      rw [hinstall, addSealed]
      split_ifs <;> rfl
  case pos => rw [hinstall, Bool.eq_false_of_not_eq_true hfile]
  case neg => exact Bool.eq_false_of_not_eq_true hfile

lemma finishChunk_fields (io : SealIO) :
    (b.finishChunk io).1.chunk = b.chunk ∧ (b.finishChunk io).1.enc = b.enc := by
  have hinstall : ∀ (b : Buffer) (index : Option Err),
      (b.installIndex index).1.chunk = b.chunk ∧ (b.installIndex index).1.enc = b.enc := fun b index => by
    cases index <;> exact ⟨rfl, rfl⟩
  rw [finishChunk]
  split_ifs
  case pos =>
    split
    case h_1 => exact ⟨rfl, rfl⟩
    case h_2 =>
      rw [(hinstall _ _).1, (hinstall _ _).2, addSealed]
      split_ifs <;> exact ⟨rfl, rfl⟩
  case pos => exact hinstall _ _
  case neg => exact ⟨rfl, rfl⟩

lemma finishChunk_handle (io : SealIO) : (b.finishChunk io).1.handle = ⟨b.chunk, false⟩ := by
  rw [handle, b.finishChunk_file, (b.finishChunk_fields io).1]

lemma finishChunk_run (io : SealIO) : Run FileStep b.handle (b.finishEffects io) (b.finishChunk io).1.handle := by
  rw [finishChunk_handle, handle, finishEffects]
  cases b.file with
  | true => exact .cons (.finish _) (.nil _)
  | false => exact .nil _

lemma abandon_run : Run FileStep b.handle (if b.file then [.abandon] else []) ⟨b.chunk, false⟩ := by
  rw [handle]
  cases b.file with
  | true => exact .cons .abandon (.nil _)
  | false => exact .nil _

lemma rotate_files (io : RotateIO) :
    Run FileStep b.handle (b.rotateEffects io) (b.rotate io).1.handle ∧
      ((b.rotate io).2 = none → (b.rotate io).1.file = true) := by
  rw [rotateEffects, rotate]
  cases b.chunkErr with
  | some f => exact ⟨.nil _, nofun⟩
  | none =>
    cases io.create with
    | some e => exact ⟨.nil _, nofun⟩
    | none =>
      dsimp only
      by_cases hopen : (b.enc && b.file) = true
      · rw [if_pos hopen, if_pos hopen]
        have hfinish := b.finishChunk_run io.finish
        have hfields := b.finishChunk_fields io.finish
        have hclosed := b.finishChunk_handle io.finish
        generalize b.finishChunk io.finish = r at hfinish hfields hclosed ⊢
        obtain ⟨b', _ | e⟩ := r
        · have henc : b'.enc = true := hfields.2.trans (Bool.and_eq_true_iff.1 hopen).1
          have hstart : Run FileStep b'.handle [.start (b.chunk + 1)] b'.startChunk.handle := by
            change Run FileStep _ _ ⟨b'.chunk + 1, true⟩
            rw [hclosed, hfields.1]
            exact .cons .start (.nil _)
          simp only [henc, if_true]
          exact ⟨hfinish.append hstart, fun _ => rfl⟩
        · exact ⟨hfinish.append (.nil _), nofun⟩
      · rw [if_neg hopen, if_neg hopen]
        have hstart : Run FileStep b.handle ((if b.file then [.abandon] else []) ++ [.start (b.chunk + 1)])
            b.startChunk.handle := b.abandon_run.append (.cons .start (.nil _))
        dsimp only
        cases b.enc with
        | true => exact ⟨hstart, fun _ => rfl⟩
        | false =>
          cases io.encoder with
          | none => exact ⟨hstart, fun _ => rfl⟩
          | some e => exact ⟨.nil _, nofun⟩

lemma restart_run (io : ReopenIO) : Run FileStep b.handle (b.restartEffects io) (b.restart io).1.handle := by
  have hindexed : (indexAbandonedChunk { b with file := false, chunkErr := none } io.size).handle =
      ⟨b.chunk, false⟩ := by
    rw [indexAbandonedChunk]
    split_ifs <;> rfl
  rw [restartEffects, restart]
  refine b.abandon_run.append ?_
  cases io.mkdir with
  | some e =>
    change Run FileStep ⟨b.chunk, false⟩ [] (indexAbandonedChunk _ io.size).handle
    rw [hindexed]
    exact .nil _
  | none => exact hindexed ▸ (rotate_files _ _).1

lemma reopenChunk_run (io : ReopenIO) :
    Run FileStep b.handle (b.reopenEffects io) (b.reopenChunk io).1.handle := by
  rw [reopenEffects, reopenChunk]
  rcases b.chunkErr with _ | ⟨err, _ | _⟩
  case none => exact b.restart_run io
  case some.false => exact b.restart_run io
  case some.true =>
    cases io.index with
    | none => exact b.restart_run io
    | some e => exact .nil _

lemma encodeFrame_handle (e : Entry) (encode : Option Err) : (b.encodeFrame e encode).1.handle = b.handle := by
  cases encode <;> rfl

lemma evict_handle (remove : ℕ → Option Err) (maxBytes size : ℕ) (idx : List ChunkMeta) :
    (evict remove maxBytes size idx b).1.handle = b.handle := by
  induction idx generalizing b with
  | nil => rfl
  | cons m ms ih =>
    rw [evict]
    split_ifs
    case pos =>
      split
      case h_1 => rfl
      case h_2 => exact ih _
    case neg => rfl

end Buffer

namespace Writer

variable (w : Writer) {io : WriteIO} {e : Entry} {n : ℕ}

lemma append_run (hfile : w.buffer.file = true) (evicted : List ChunkMeta) (e : Entry) (io : WriteIO) :
    Run FileStep w.buffer.handle (w.appendEffects e io) (w.append evicted e io).writer.buffer.handle := by
  have hframe : ∀ b : Buffer, b.file = true → Run FileStep b.handle
      (match ((b.encodeFrame e io.encode).2.map some : Except Err (Option ℕ)) with
        | .ok (some _) => [.frame e.payload.length] | _ => [])
      (b.encodeFrame e io.encode).1.handle := fun b hb => by
    rw [b.encodeFrame_handle, Buffer.handle, hb]
    cases io.encode with
    | none => exact .cons (.frame _) (.nil _)
    | some err => exact .nil _
  rw [appendEffects, append, append]
  dsimp only
  split_ifs
  case pos =>
    obtain ⟨hrotate, hopen⟩ := w.buffer.rotate_files io.roll
    refine hrotate.append ?_
    generalize w.buffer.rotate io.roll = r at hopen ⊢
    obtain ⟨b, _ | err⟩ := r
    · exact hframe b (hopen rfl)
    · exact .nil _
  case neg => exact hframe w.buffer hfile

lemma makeRoom_run (hfile : w.buffer.file = true) (e : Entry) (io : WriteIO) :
    Run FileStep w.buffer.handle (w.makeRoomEffects e io) (w.makeRoom e io).writer.buffer.handle := by
  have hrolled : Run FileStep w.buffer.handle
        (if 0 < w.buffer.chunkRaw then w.buffer.rotateEffects io.evict else [])
        (if 0 < w.buffer.chunkRaw then w.buffer.rotate io.evict else (w.buffer, none)).1.handle ∧
      ((if 0 < w.buffer.chunkRaw then w.buffer.rotate io.evict else (w.buffer, none)).2 = none →
        (if 0 < w.buffer.chunkRaw then w.buffer.rotate io.evict else (w.buffer, none)).1.file = true) := by
    split_ifs
    case pos => exact w.buffer.rotate_files io.evict
    case neg => exact ⟨.nil _, fun _ => hfile⟩
  rw [makeRoomEffects, makeRoom]
  obtain ⟨hrun, hopen⟩ := hrolled
  refine hrun.append ?_
  generalize (if 0 < w.buffer.chunkRaw then w.buffer.rotate io.evict else (w.buffer, none)) = r at hopen ⊢
  obtain ⟨b, _ | err⟩ := r
  · dsimp only
    have hevict := b.evict_handle io.remove w.maxBytes e.size b.idx
    generalize Buffer.evict io.remove w.maxBytes e.size b.idx b = r at hevict ⊢
    obtain ⟨b', gone, _ | err⟩ := r
    · have hopen' : b'.file = true := (congrArg Handle.isOpen hevict).trans (hopen rfl)
      exact hevict ▸ append_run { w with buffer := b', truncated := true } hopen' gone e io
    · exact hevict ▸ .nil _
  · exact .nil _

lemma writeFrame_run (hfile : w.buffer.file = true) (e : Entry) (io : WriteIO) :
    Run FileStep w.buffer.handle (w.writeFrameEffects e io) (w.writeFrame e io).writer.buffer.handle := by
  rw [writeFrameEffects, writeFrame]
  split_ifs
  case pos => exact .nil _
  case neg => exact w.makeRoom_run hfile e io
  case neg => exact w.append_run hfile [] e io

lemma writeLocked_run (e : Entry) (io : WriteIO) :
    Run FileStep w.buffer.handle (w.writeEffects e io) (w.writeLocked e io).writer.buffer.handle := by
  rw [writeEffects, writeLocked]
  by_cases hclosed : w.closed = true
  · rw [if_pos hclosed, if_pos hclosed]
    exact .nil _
  rw [if_neg hclosed, if_neg hclosed]
  cases w.buffer.chunkErr with
  | some f => exact .nil _
  | none =>
    dsimp only
    split_ifs with hready
    case pos => exact .nil _
    case neg =>
      have hfile : w.buffer.file = true := by
        cases hfile : w.buffer.file with
        | true => rfl
        | false => simp [hfile] at hready
      exact writeFrame_run { w with truncated := w.truncated || e.flagged || w.tooLong e } hfile (w.cut e) io

lemma recoverLocked_run (now : ℤ) (io : RecoverIO) :
    Run FileStep w.buffer.handle (w.recoverEffects io) (w.recoverLocked now io).writer.buffer.handle := by
  rw [recoverEffects, recoverLocked]
  refine (w.buffer.reopenChunk_run io.reopen).append ?_
  rcases w.buffer.reopenChunk io.reopen with ⟨b, _ | err⟩
  · have hwrite := writeLocked_run { w with buffer := b }
      (Capture.summary w.episodeFrames w.episodeBytes w.degradedErr) io.summary
    dsimp only at hwrite ⊢
    split <;> exact hwrite
  · exact .nil _

lemma captureWrite_buffer (e : Entry) (io : CaptureIO) :
    (w.captureWrite e io).writer.buffer = (w.writeLocked e io.write).writer.buffer := by
  rw [captureWrite]
  split <;> rfl

lemma captureLocked_run (e : Entry) (now : ℤ) (io : CaptureIO) :
    Run FileStep w.buffer.handle (w.captureEffects e now io) (w.captureLocked e now io).writer.buffer.handle := by
  rw [captureEffects, captureLocked]
  split_ifs
  case pos => exact .nil _
  case pos => exact .nil _
  case neg =>
    dsimp only
    refine (w.recoverLocked_run now io.recover).append ?_
    generalize w.recoverLocked now io.recover = r
    rcases r.summary with _ | line
    · exact .nil _
    · dsimp only [Option.isSome_some, if_true]
      rw [captureWrite_buffer]
      exact r.writer.writeLocked_run e io.write
  case neg =>
    rw [captureWrite_buffer]
    exact w.writeLocked_run e io.write

lemma close_run (now : ℤ) (io : CloseIO) :
    Run FileStep w.buffer.handle (w.closeEffects now io) (w.close now io).writer.buffer.handle := by
  rw [closeEffects, close]
  split_ifs
  case pos => exact .nil _
  case pos => exact (w.recoverLocked_run now io.recover).append (Buffer.finishChunk_run _ io.finish)
  case neg => exact w.buffer.finishChunk_run io.finish

lemma sealForArchive_run (io : RotateIO) :
    Run FileStep w.buffer.handle (w.sealEffects io) (w.sealForArchive io).1.buffer.handle := by
  rw [sealEffects, sealForArchive]
  split_ifs
  case pos => exact .nil _
  case pos =>
    have hrotate := (w.buffer.rotate_files io).1
    generalize w.buffer.rotate io = r at hrotate ⊢
    obtain ⟨b, _ | err⟩ := r <;> exact hrotate
  case neg => exact .nil _

lemma archiveBatchLocked_fields (through : ℕ) (io : BatchIO) :
    (w.archiveBatchLocked through io).1.closed = w.closed ∧
      (w.archiveBatchLocked through io).1.buffer.file = w.buffer.file ∧
      (w.archiveBatchLocked through io).1.buffer.chunk = w.buffer.chunk := by
  rw [archiveBatchLocked]
  split
  case h_1 => exact ⟨rfl, rfl, rfl⟩
  case h_2 =>
    split_ifs
    case pos => exact ⟨rfl, rfl, rfl⟩
    case neg => cases io.store <;> exact ⟨rfl, rfl, rfl⟩

variable {w} in
lemma appendEffects_of_stored {evicted : List ChunkMeta} (h : (w.append evicted e io).outcome = .ok (some n)) :
    ∃ es payload, w.appendEffects e io = es ++ [.frame payload] := by
  have houtcome : (w.append [] e io).outcome = (w.append evicted e io).outcome := by
    rw [append, append]
    dsimp only
    split_ifs
    case pos => rcases w.buffer.rotate io.roll with ⟨b, _ | err⟩ <;> rfl
    case neg => rfl
  rw [appendEffects, houtcome, h]
  exact ⟨_, _, rfl⟩

variable {w} in
lemma makeRoomEffects_of_stored (h : (w.makeRoom e io).outcome = .ok (some n)) :
    ∃ es payload, w.makeRoomEffects e io = es ++ [.frame payload] := by
  rw [makeRoom] at h
  rw [makeRoomEffects]
  generalize (if 0 < w.buffer.chunkRaw then w.buffer.rotate io.evict else (w.buffer, none)) = r at h ⊢
  obtain ⟨b, _ | err⟩ := r
  · dsimp only at h ⊢
    generalize Buffer.evict io.remove w.maxBytes e.size b.idx b = r at h ⊢
    obtain ⟨b', gone, _ | err⟩ := r
    · obtain ⟨es, payload, heffects⟩ := appendEffects_of_stored h
      dsimp only
      rw [heffects, ← List.append_assoc]
      exact ⟨_, _, rfl⟩
    · cases h
  · cases h

variable {w} in
lemma writeEffects_of_stored (h : (w.writeLocked e io).outcome = .ok (some n)) :
    ∃ es payload, w.writeEffects e io = es ++ [.frame payload] := by
  have hframe : ∀ (w : Writer) (e : Entry), (w.writeFrame e io).outcome = .ok (some n) →
      ∃ es payload, w.writeFrameEffects e io = es ++ [.frame payload] := by
    intro w e h
    rw [writeFrame] at h
    rw [writeFrameEffects]
    split_ifs at h ⊢
    case pos => cases h
    case neg => exact makeRoomEffects_of_stored h
    case neg => exact appendEffects_of_stored h
  rw [writeLocked] at h
  rw [writeEffects]
  by_cases hclosed : w.closed = true
  · rw [if_pos hclosed] at h
    cases h
  rw [if_neg hclosed] at h ⊢
  cases hchunk : w.buffer.chunkErr with
  | some f =>
    rw [hchunk] at h
    cases h
  | none =>
    rw [hchunk] at h
    dsimp only at h ⊢
    split_ifs at h ⊢
    exact hframe _ _ h

/-! ## Closed writers -/

lemma append_closed (evicted : List ChunkMeta) (e : Entry) (io : WriteIO) :
    (w.append evicted e io).writer.closed = w.closed := by
  rw [append]
  split <;> rfl

lemma writeFrame_closed (e : Entry) (io : WriteIO) : (w.writeFrame e io).writer.closed = w.closed := by
  rw [writeFrame]
  split_ifs
  case pos => rfl
  case neg =>
    rw [makeRoom]
    split
    case h_1 => rfl
    case h_2 =>
      split
      case h_1 => rfl
      case h_2 => exact append_closed _ _ e io
  case neg => exact w.append_closed [] e io

lemma writeLocked_closed (e : Entry) (io : WriteIO) : (w.writeLocked e io).writer.closed = w.closed := by
  rw [writeLocked]
  by_cases hclosed : w.closed = true
  · rw [if_pos hclosed]
  rw [if_neg hclosed]
  cases w.buffer.chunkErr with
  | some f => rfl
  | none =>
    dsimp only
    split_ifs
    case pos => rfl
    case neg => exact writeFrame_closed _ _ io

lemma recoverLocked_closed (now : ℤ) (io : RecoverIO) : (w.recoverLocked now io).writer.closed = w.closed := by
  rw [recoverLocked]
  rcases w.buffer.reopenChunk io.reopen with ⟨b, _ | err⟩
  · have hwrite := writeLocked_closed { w with buffer := b }
      (Capture.summary w.episodeFrames w.episodeBytes w.degradedErr) io.summary
    dsimp only at hwrite ⊢
    split <;> exact hwrite
  · rfl

lemma captureLocked_closed (e : Entry) (now : ℤ) (io : CaptureIO) :
    (w.captureLocked e now io).writer.closed = w.closed := by
  have hwrite : ∀ w : Writer, (w.captureWrite e io).writer.closed = w.closed := fun w => by
    have hwrite := w.writeLocked_closed e io.write
    rw [captureWrite]
    split <;> exact hwrite
  rw [captureLocked]
  split_ifs
  case pos => rfl
  case pos => rfl
  case neg =>
    dsimp only
    have hrecover := w.recoverLocked_closed now io.recover
    generalize w.recoverLocked now io.recover = r at hrecover ⊢
    rcases r.summary with _ | line
    · exact hrecover
    · exact (hwrite _).trans hrecover
  case neg => exact hwrite w

lemma sealForArchive_closed (io : RotateIO) : (w.sealForArchive io).1.closed = w.closed := by
  rw [sealForArchive]
  split_ifs
  case pos => rfl
  case pos => rcases w.buffer.rotate io with ⟨b, _ | err⟩ <;> rfl
  case neg => rfl

lemma close_file (now : ℤ) (io : CloseIO) (h : w.closed = true → w.buffer.file = false) :
    (w.close now io).writer.buffer.file = false := by
  rw [close]
  split_ifs with hclosed
  case pos => exact h hclosed
  case pos => exact Buffer.finishChunk_file _ io.finish
  case neg => exact Buffer.finishChunk_file _ io.finish

end Writer

namespace Log

variable (s : Log)

lemma next_run (e : Event) :
    Run FileStep s.writer.buffer.handle (s.effects e) (s.next e).writer.buffer.handle := by
  cases e with
  | capture e now io =>
    have hcapture := s.writer.captureLocked_run e now io
    rw [effects, next]
    split <;> exact hcapture
  | write e io => exact s.writer.writeLocked_run e io
  | checkpoint io =>
    have hseal := s.writer.sealForArchive_run io
    rw [effects, next]
    cases s.through with
    | some through => exact .nil _
    | none =>
      dsimp only
      generalize s.writer.sealForArchive io = r at hseal ⊢
      obtain ⟨w, _ | through⟩ := r <;> exact hseal
  | batch io =>
    rw [effects, next]
    cases s.through with
    | none => exact .nil _
    | some through =>
      obtain ⟨-, hfile, hchunk⟩ := s.writer.archiveBatchLocked_fields through io
      have hhandle : (s.writer.archiveBatchLocked through io).1.buffer.handle = s.writer.buffer.handle := by
        rw [Buffer.handle, Buffer.handle, hfile, hchunk]
      exact hhandle ▸ .nil _
  | endCheckpoint | syncFailed => exact .nil _
  | close now io => exact s.writer.close_run now io

def Shut (s : Log) : Prop := s.writer.closed = true → s.writer.buffer.file = false

lemma Shut.next {s : Log} (h : s.Shut) (e : Event) : (s.next e).Shut := by
  -- a closed writer does not change, and only closing closes one
  have hkeep : ∀ w : Writer, w.closed = s.writer.closed → (s.writer.closed = true → w.buffer.file = false) →
      w.closed = true → w.buffer.file = false := fun w hclosed hfile hw => hfile (hclosed ▸ hw)
  cases e with
  | capture e now io =>
    have hclosed := s.writer.captureLocked_closed e now io
    have hfile : s.writer.closed = true → (s.writer.captureLocked e now io).writer.buffer.file = false :=
      fun hc => by
      rw [Writer.captureLocked, if_pos hc]
      exact h hc
    rw [Shut, Log.next]
    split <;> exact hkeep _ hclosed hfile
  | write e io =>
    refine hkeep _ (s.writer.writeLocked_closed e io) fun hc => ?_
    change (s.writer.writeLocked e io).writer.buffer.file = false
    rw [Writer.writeLocked, if_pos hc]
    exact h hc
  | checkpoint io =>
    have hseal := s.writer.sealForArchive_closed io
    rw [Shut, Log.next]
    cases s.through with
    | some through => exact h
    | none =>
      have hfile : s.writer.closed = true → (s.writer.sealForArchive io).1.buffer.file = false := fun hc => by
        rw [Writer.sealForArchive, if_pos hc]
        exact h hc
      dsimp only
      generalize s.writer.sealForArchive io = r at hseal hfile ⊢
      obtain ⟨w, _ | through⟩ := r <;> exact hkeep w hseal hfile
  | batch io =>
    rw [Shut, Log.next]
    cases s.through with
    | none => exact h
    | some through =>
      have hbatch := s.writer.archiveBatchLocked_fields through io
      exact hkeep _ hbatch.1 fun hc => hbatch.2.1.trans (h hc)
  | endCheckpoint | syncFailed => exact h
  | close now io => exact fun _ => s.writer.close_file now io h

end Log

end Minicrond.Logs.Capture
