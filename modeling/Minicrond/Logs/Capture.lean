import Minicrond.Logs.Archive
import Minicrond.Time.Instant

/-! The writer of a run's log when any storage operation may fail. What is written stays accounted for in the
chunks; captured output that cannot be stored is counted, and capture recovers on a later line. Each call is given
the answers of the storage operations that it may perform. -/

namespace Minicrond.Logs.Capture

open Minicrond.Time

abbrev Err := String

def errWriterClosed : Err := "log writer closed"

def errNoChunk : Err := "log writer has no open chunk"

/-! ## Chunks -/

structure ChunkFailure where
  err : Err
  indexOnly : Bool

structure Buffer where
  file : Bool
  enc : Bool
  chunk : ℕ
  chunkRaw : ℕ
  chunkFirst : ℕ
  seq : ℕ
  lastStored : ℕ
  total : ℤ
  buffered : ℤ
  idx : List ChunkMeta
  chunkErr : Option ChunkFailure

structure SealIO where
  close : Option Err
  size : ℕ
  index : Option Err

structure RotateIO where
  create : Option Err
  finish : SealIO
  -- closing and removing the replacement again
  cleanup : List Err
  encoder : Option Err

structure ReopenIO where
  index : Option Err
  size : ℕ
  mkdir : Option Err
  rotate : RotateIO

namespace Buffer

def empty : Buffer := ⟨false, false, 0, 0, 0, 0, 0, 0, 0, [], none⟩

def indexed (b : Buffer) : Bool := b.idx.any (·.number = b.chunk)

def installIndex (b : Buffer) (index : Option Err) : Buffer × Option Err :=
  match index with
  | some e =>
    let err := "index log chunk " ++ toString b.chunk ++ ": " ++ e
    ({ b with chunkErr := some ⟨err, true⟩ }, some err)
  | none => (b, b.chunkErr.map (·.err))

def addSealed (b : Buffer) (size : ℕ) : Buffer :=
  if b.chunkFirst ≤ b.seq then { b with idx := b.idx ++ [⟨b.chunk, b.chunkFirst, b.seq, size, b.chunkRaw⟩] } else b

def finishChunk (b : Buffer) (io : SealIO) : Buffer × Option Err :=
  if b.file then
    match io.close with
    | some e =>
      let err := "finalize log chunk " ++ toString b.chunk ++ ": " ++ e
      ({ b with file := false, chunkErr := some ⟨err, false⟩ }, some err)
    | none => (addSealed { b with file := false } io.size).installIndex io.index
  -- an abandoned chunk: the final index is still recorded
  else if b.chunkErr.isNone && b.enc then b.installIndex io.index
  else (b, b.chunkErr.map (·.err))

def startChunk (b : Buffer) : Buffer :=
  { b with chunk := b.chunk + 1, file := true, enc := true, chunkRaw := 0, chunkFirst := b.seq + 1 }

def rotate (b : Buffer) (io : RotateIO) : Buffer × Option Err :=
  match b.chunkErr with
  | some f => (b, some f.err)
  | none =>
    match io.create with
    | some e => (b, some ("open log chunk " ++ toString (b.chunk + 1) ++ ": " ++ e))
    | none =>
      match if b.enc && b.file then b.finishChunk io.finish else (b, none) with
      | (b, some e) =>
        let err := String.intercalate "\n" (e :: io.cleanup)
        ({ b with chunkErr := b.chunkErr.map fun f => { f with err := err } }, some err)
      | (b, none) =>
        match if b.enc then none else io.encoder with
        | some e => (b, some (String.intercalate "\n" (("create log encoder: " ++ e) :: io.cleanup)))
        | none => (b.startChunk, none)

def indexAbandonedChunk (b : Buffer) (size : ℕ) : Buffer :=
  if !b.enc || b.chunkRaw == 0 || decide (b.lastStored < b.chunkFirst) then b
  else if b.idx.getLast?.any (·.number = b.chunk) then b
  else
    { b with idx := b.idx ++ [⟨b.chunk, b.chunkFirst, b.lastStored, size, b.chunkRaw⟩], chunkRaw := 0 }

def restart (b : Buffer) (io : ReopenIO) : Buffer × Option Err :=
  let b := indexAbandonedChunk { b with file := false, chunkErr := none } io.size
  match io.mkdir with
  | some e => (b, some e)
  | none => b.rotate io.rotate

def reopenChunk (b : Buffer) (io : ReopenIO) : Buffer × Option Err :=
  match b.chunkErr, io.index with
  | some ⟨err, true⟩, some _ => (b, some err)
  | _, _ => b.restart io

def evict (remove : ℕ → Option Err) (maxBytes size : ℕ) :
    List ChunkMeta → Buffer → Buffer × List ChunkMeta × Option Err
  | [], b => (b, [], none)
  | m :: ms, b =>
    if maxBytes < b.buffered + size then
      match remove m.number with
      | some e => (b, [], some e)
      | none =>
        let (b, gone, err) := evict remove maxBytes size ms
          { b with idx := ms, total := b.total - m.raw, buffered := b.buffered - m.raw }
        (b, m :: gone, err)
    else (b, [], none)

end Buffer

/-! ## Frames -/

structure Entry where
  stream : Stream
  payload : List UInt8
  flags : UInt8
deriving DecidableEq

def Entry.size (e : Entry) : ℕ := frameHeader + e.payload.length

def Entry.flagged (e : Entry) : Bool := e.flags &&& flagTruncated != 0

structure WriteIO where
  evict : RotateIO
  remove : ℕ → Option Err
  roll : RotateIO
  encode : Option Err

def Buffer.encodeFrame (b : Buffer) (e : Entry) (encode : Option Err) : Buffer × Except Err ℕ :=
  match encode with
  | some err => ({ b with seq := b.seq + 1 }, .error err)
  | none =>
    ({ b with
      seq := b.seq + 1, lastStored := b.seq + 1, chunkRaw := b.chunkRaw + e.size, total := b.total + e.size
      buffered := b.buffered + e.size }, .ok (b.seq + 1))

structure Writer extends WriterOptions where
  buffer : Buffer
  truncated : Bool
  closed : Bool
  degraded : Bool
  degradedErr : Option Err
  retryAt : ℤ
  retryDelay : ℤ
  episodeFrames : ℕ
  episodeBytes : ℕ
  droppedFrames : ℕ
  droppedBytes : ℕ
  syncFailures : ℕ

/-- The writer after `writeLocked`, the chunks evicted, the frame given to the encoder, and the sequence of the
frame if it was stored; there is none if the line was refused for want of room. -/
structure Written where
  writer : Writer
  evicted : List ChunkMeta
  frame : Option (ℕ × Entry)
  outcome : Except Err (Option ℕ)

namespace Writer

def tooLong (w : Writer) (e : Entry) : Bool := decide (0 < w.maxLine) && decide (w.maxLine < e.payload.length)

def cut (w : Writer) (e : Entry) : Entry :=
  if w.tooLong e then { e with payload := e.payload.take w.maxLine, flags := e.flags ||| flagTruncated } else e

def overflows (w : Writer) (size : ℕ) : Bool :=
  decide (0 < w.maxBytes) && decide ((w.maxBytes : ℤ) < w.buffer.buffered + size)

def append (w : Writer) (evicted : List ChunkMeta) (e : Entry) (io : WriteIO) : Written :=
  let full := decide (chunkLimit < w.buffer.chunkRaw + e.size) && decide (0 < w.buffer.chunkRaw)
  match if full then w.buffer.rotate io.roll else (w.buffer, none) with
  | (b, some err) => ⟨{ w with buffer := b }, evicted, none, .error err⟩
  | (b, none) =>
    let (b', result) := b.encodeFrame e io.encode
    ⟨{ w with buffer := b' }, evicted, some (b.seq + 1, e), result.map some⟩

def makeRoom (w : Writer) (e : Entry) (io : WriteIO) : Written :=
  match if 0 < w.buffer.chunkRaw then w.buffer.rotate io.evict else (w.buffer, none) with
  | (b, some err) => ⟨{ w with buffer := b }, [], none, .error err⟩
  | (b, none) =>
    match Buffer.evict io.remove w.maxBytes e.size b.idx b with
    | (b, gone, some err) => ⟨{ w with buffer := b, truncated := true }, gone, none, .error err⟩
    | (b, gone, none) => append { w with buffer := b, truncated := true } gone e io

def writeFrame (w : Writer) (e : Entry) (io : WriteIO) : Written :=
  if w.overflows e.size then
    if w.dropNew || decide (w.maxBytes < e.size) then ⟨{ w with truncated := true }, [], none, .ok none⟩
    else w.makeRoom e io
  else w.append [] e io

def writeLocked (w : Writer) (e : Entry) (io : WriteIO) : Written :=
  if w.closed then ⟨w, [], none, .error errWriterClosed⟩
  else
    match w.buffer.chunkErr with
    | some f => ⟨w, [], none, .error f.err⟩
    | none =>
      if !w.buffer.file || !w.buffer.enc then ⟨w, [], none, .error errNoChunk⟩
      else writeFrame { w with truncated := w.truncated || e.flagged || w.tooLong e } (w.cut e) io

end Writer

/-! ## Degraded capture -/

def captureRetryMin : ℤ := second

def captureRetryMax : ℤ := 30 * second

def summary (frames bytes : ℕ) (err : Option Err) : Entry where
  stream := .system
  payload := ("log capture recovered: " ++ toString frames ++ " lines (" ++ toString bytes ++
    " bytes) of output were not stored: " ++ err.getD "<nil>").toUTF8.data.toList
  flags := flagTruncated

structure RecoverIO where
  reopen : ReopenIO
  summary : WriteIO
  -- when the summary fails
  failedAt : ℤ

structure CaptureIO where
  recover : RecoverIO
  write : WriteIO
  failedAt : ℤ

structure CloseIO where
  recover : RecoverIO
  finish : SealIO

inductive Fate
  | written (sequence : ℕ)
  -- With so much in the buffer.
  | refused (buffered : ℤ)
  | dropped
deriving DecidableEq

def Written.fate (r : Written) : Fate :=
  match r.outcome with
  | .error _ => .dropped
  | .ok none => .refused r.writer.buffer.buffered
  | .ok (some n) => .written n

/-- The writer after `recoverLocked`, with the chunks evicted and the frames given to the encoder for it, and the
summary with its fate if capture has recovered. -/
structure Recovery where
  writer : Writer
  evicted : List ChunkMeta
  frames : List (ℕ × Entry)
  summary : Option (Entry × Fate)

structure Captured extends Recovery where
  fate : Except Err Fate

namespace Writer

def discard (w : Writer) (e : Entry) : Writer :=
  { w with
    droppedFrames := w.droppedFrames + 1, droppedBytes := w.droppedBytes + e.size
    episodeFrames := w.episodeFrames + 1, episodeBytes := w.episodeBytes + e.size, truncated := true }

def enterDegraded (w : Writer) (err : Err) (now : ℤ) : Writer :=
  let delay := if w.degraded then w.retryDelay else captureRetryMin
  { w with
    degraded := true, degradedErr := some err, truncated := true, retryAt := now + delay
    retryDelay := min (2 * delay) captureRetryMax }

def recoverLocked (w : Writer) (now : ℤ) (io : RecoverIO) : Recovery :=
  match w.buffer.reopenChunk io.reopen with
  | (b, some err) =>
    ⟨{ w with
      buffer := b, degradedErr := some err, retryAt := now + w.retryDelay
      retryDelay := min (2 * w.retryDelay) captureRetryMax }, [], [], none⟩
  | (b, none) =>
    let line := Capture.summary w.episodeFrames w.episodeBytes w.degradedErr
    let r := writeLocked { w with buffer := b } line io.summary
    match r.outcome with
    | .error err => ⟨r.writer.enterDegraded err io.failedAt, r.evicted, r.frame.toList, none⟩
    | .ok _ =>
      ⟨{ r.writer with degraded := false, degradedErr := none, episodeFrames := 0, episodeBytes := 0 }, r.evicted,
        r.frame.toList, some (line, r.fate)⟩

def captureWrite (w : Writer) (e : Entry) (io : CaptureIO) : Captured :=
  let r := w.writeLocked e io.write
  match r.outcome with
  | .error err =>
    ⟨⟨(r.writer.enterDegraded err io.failedAt).discard e, r.evicted, r.frame.toList, none⟩, .ok r.fate⟩
  | .ok _ => ⟨⟨r.writer, r.evicted, r.frame.toList, none⟩, .ok r.fate⟩

def captureLocked (w : Writer) (e : Entry) (now : ℤ) (io : CaptureIO) : Captured :=
  if w.closed then ⟨⟨w, [], [], none⟩, .error errWriterClosed⟩
  else if w.degraded then
    if now < w.retryAt then ⟨⟨w.discard e, [], [], none⟩, .ok .dropped⟩
    else
      let r := w.recoverLocked now io.recover
      match r.summary with
      | none => ⟨{ r with writer := r.writer.discard e }, .ok .dropped⟩
      | some line =>
        let x := r.writer.captureWrite e io
        ⟨⟨x.writer, r.evicted ++ x.evicted, r.frames ++ x.frames, some line⟩, x.fate⟩
  else w.captureWrite e io

def close (w : Writer) (now : ℤ) (io : CloseIO) : Recovery :=
  if w.closed then ⟨w, [], [], none⟩
  else
    let r := if w.degraded then w.recoverLocked now io.recover else ⟨w, [], [], none⟩
    { r with writer := { r.writer with closed := true, buffer := (r.writer.buffer.finishChunk io.finish).1 } }

def sealForArchive (w : Writer) (io : RotateIO) : Writer × Except Err ℕ :=
  if w.closed then (w, .ok 0)
  else
    match if 0 < w.buffer.chunkRaw then w.buffer.rotate io else (w.buffer, none) with
    | (b, some err) => ({ w with buffer := b }, .error err)
    | (b, none) => ({ w with buffer := b }, .ok (b.chunk - 1))

def syncFailed (w : Writer) : Writer := { w with syncFailures := w.syncFailures + 1, truncated := true }

end Writer

/-! ## Checkpoints -/

/-- The answers of a batch: reading a chunk gives its size; `store` stands for the group sync of moved files, the
database transaction and the moves. -/
structure BatchIO where
  read : ℕ → Except Err ℕ
  store : Option Err
  remove : ℕ → Option Err
  index : Option Err

def pendingChunks (read : ℕ → Except Err ℕ) (through : ℕ) : ℕ → ℕ → List ChunkMeta → Except Err (List ChunkMeta)
  | _, _, [] => .ok []
  | count, size, m :: ms =>
    if through < m.number ∨ archiveBatchChunks ≤ count then .ok []
    else if fileChunkMin ≤ m.bytes then (pendingChunks read through (count + 1) size ms).map (m :: ·)
    else if 0 < count ∧ archiveBatchBytes < size + m.bytes then .ok []
    else
      match read m.number with
      | .error err => .error err
      | .ok bytes => (pendingChunks read through (count + 1) (size + bytes) ms).map (m :: ·)

def Writer.archiveBatchLocked (w : Writer) (through : ℕ) (io : BatchIO) : Writer × Except Err Bool :=
  match pendingChunks io.read through 0 0 w.buffer.idx with
  | .error err => (w, .error err)
  | .ok pending =>
    if pending = [] then (w, .ok false)
    else
      match io.store with
      | some err => (w, .error err)
      | none =>
        let removed := pending.takeWhile fun m => (io.remove m.number).isNone
        let idx := w.buffer.idx.drop removed.length
        let buffered := w.buffer.buffered - ((removed.map (·.raw)).sum : ℕ)
        let failed := ((pending.drop removed.length).head?.bind (io.remove ·.number)).or io.index
        ({ w with buffer := { w.buffer with idx := idx, buffered := buffered } },
          match failed with
          | some err => .error err
          | none => .ok (idx.head?.any (·.number ≤ through)))

/-! ## The life of a writer -/

inductive Item
  | offered (e : Entry) (fate : Fate)
  | recovered (summary : Entry) (fate : Fate)
deriving DecidableEq

/-- A writer and what has become of the output: the frames given to the encoder, the chunks evicted, and the lines
offered to an open writer between the recoveries of capture. `through` belongs to the checkpoint in progress. -/
structure Log where
  writer : Writer
  through : Option ℕ
  frames : List (ℕ × Entry)
  evicted : List ChunkMeta
  history : List Item

inductive Event
  | capture (e : Entry) (now : ℤ) (io : CaptureIO)
  | write (e : Entry) (io : WriteIO)
  | checkpoint (io : RotateIO)
  | batch (io : BatchIO)
  | endCheckpoint
  | syncFailed
  | close (now : ℤ) (io : CloseIO)

namespace Log

def recovery (s : Log) (r : Recovery) : Log :=
  { s with
    writer := r.writer, frames := s.frames ++ r.frames, evicted := s.evicted ++ r.evicted
    history := s.history ++ (r.summary.map fun x => Item.recovered x.1 x.2).toList }

def next (s : Log) : Event → Log
  | .capture e now io =>
    let r := s.writer.captureLocked e now io
    let s := s.recovery r.toRecovery
    match r.fate with
    -- a closed writer reports an error to the pump
    | .error _ => s
    | .ok fate => { s with history := s.history ++ [.offered e fate] }
  | .write e io =>
    let r := s.writer.writeLocked e io
    { s with writer := r.writer, frames := s.frames ++ r.frame.toList, evicted := s.evicted ++ r.evicted }
  | .checkpoint io =>
    match s.through with
    | some _ => s
    | none =>
      match s.writer.sealForArchive io with
      | (w, .error _) => { s with writer := w }
      | (w, .ok through) => { s with writer := w, through := if through = 0 then none else some through }
  | .batch io =>
    match s.through with
    | none => s
    | some through => { s with writer := (s.writer.archiveBatchLocked through io).1 }
  | .endCheckpoint => { s with through := none }
  | .syncFailed => { s with writer := s.writer.syncFailed }
  | .close now io => s.recovery (s.writer.close now io)

def run (s : Log) (es : List Event) : Log := es.foldl next s

end Log

inductive Start
  | opened
  | degraded (cause : Err) (now : ℤ)

def Writer.closedDown (options : WriterOptions) : Writer :=
  { options with
    buffer := .empty, truncated := false, closed := false, degraded := false, degradedErr := none, retryAt := 0
    retryDelay :=
      0, episodeFrames := 0, episodeBytes := 0, droppedFrames := 0, droppedBytes := 0, syncFailures := 0 }

def Writer.start (options : WriterOptions) : Start → Writer
  | .opened => { Writer.closedDown options with buffer := Buffer.empty.startChunk }
  | .degraded cause now => (Writer.closedDown options).enterDegraded cause now

def Log.start (options : WriterOptions) (how : Start) : Log := ⟨.start options how, none, [], [], []⟩

end Minicrond.Logs.Capture
