import Mathlib.Algebra.GroupWithZero.Nat
import Minicrond.Library.Machine
import Minicrond.Logs.Effects

/-! The writer of a run's log and the archiver, as the lists of storage operations that they perform, and the
machine that performs them: a crash may come between any two operations. -/

namespace Minicrond.Logs

open Minicrond.Library

def chunkLimit : ℕ := 1048576

def archiveBatchBytes : ℕ := 8388608

def archiveBatchChunks : ℕ := 64

def fileChunkMin : ℕ := 65536

def flagTruncated : UInt8 := 4

structure WriterOptions where
  maxBytes : ℕ
  maxLine : ℕ
  dropNew : Bool

structure Writer extends WriterOptions where
  chunk : ℕ
  chunkRaw : ℕ
  chunkFirst : ℕ
  seq : ℕ
  buffered : ℤ
  idx : List ChunkMeta
  closed : Bool

namespace Writer

def finishChunk (w : Writer) (bytes : ℕ) : List Effect × Writer :=
  let idx := if w.chunkFirst ≤ w.seq then w.idx ++ [⟨w.chunk, w.chunkFirst, w.seq, bytes, w.chunkRaw⟩] else w.idx
  ([.finish w.chunk bytes, .writeIndex idx], { w with idx := idx })

def rotate (w : Writer) (bytes : ℕ) : List Effect × Writer :=
  let (effects, sealed) := w.finishChunk bytes
  (.create (w.chunk + 1) :: effects, { sealed with chunk := w.chunk + 1, chunkRaw := 0, chunkFirst := w.seq + 1 })

def truncate (w : Writer) (line : Line) : Line :=
  if 0 < w.maxLine ∧ w.maxLine < line.payload.length then
    { line with
      payload := line.payload.take w.maxLine, flags := line.flags ||| flagTruncated
      fits := (List.length_take_le' w.maxLine line.payload).trans line.fits }
  else line

def overflows (w : Writer) (size : ℕ) : Prop := 0 < w.maxBytes ∧ (w.maxBytes : ℤ) < w.buffered + size

instance (w : Writer) (size : ℕ) : Decidable (w.overflows size) := inferInstanceAs (Decidable (_ ∧ _))

def evict (maxBytes size : ℕ) : List ChunkMeta → ℤ → List Effect × List ChunkMeta × ℤ
  | [], buffered => ([], [], buffered)
  | m :: ms, buffered =>
    if (maxBytes : ℤ) < buffered + size then
      let (effects, rest) := evict maxBytes size ms (buffered - m.raw)
      (.evict m.number :: effects, rest)
    else ([], m :: ms, buffered)

def makeRoom (w : Writer) (size bytes : ℕ) : List Effect × Writer :=
  if w.overflows size then
    let (effects, rotated) := if 0 < w.chunkRaw then w.rotate bytes else ([], w)
    let (evictions, idx, buffered) := evict w.maxBytes size rotated.idx rotated.buffered
    (effects ++ evictions, { rotated with idx := idx, buffered := buffered })
  else ([], w)

def writeLocked (w : Writer) (line : Line) (timestamp : ℤ) (bytes : ℕ × ℕ) : List Effect × Writer :=
  let line := w.truncate line
  if w.overflows line.size ∧ (w.dropNew ∨ w.maxBytes < line.size) then ([], w)
  else
    let (room, w) := w.makeRoom line.size bytes.1
    let (turn, w) := if chunkLimit < w.chunkRaw + line.size ∧ 0 < w.chunkRaw then w.rotate bytes.1 else ([], w)
    (room ++ turn ++ [.append w.chunk ⟨line, w.seq + 1, timestamp⟩ bytes.2],
      { w with
        seq := w.seq + 1, chunkRaw := w.chunkRaw + line.size, buffered := w.buffered + line.size })

def sealForArchive (w : Writer) (bytes : ℕ) : List Effect × Writer :=
  if 0 < w.chunkRaw then w.rotate bytes else ([], w)

def close (w : Writer) (bytes : ℕ) : List Effect × Writer :=
  let (effects, sealed) := w.finishChunk bytes
  (effects, { sealed with closed := true })

end Writer

structure Transfer where
  chunk : Chunk
  move : Bool

def Transfer.number (t : Transfer) : ℕ := t.chunk.number

def blobsOf (d : Disk) (left : List Transfer) : List Chunk :=
  left.filterMap fun t =>
    (d.buffer.find? (·.number = t.number)).map fun file => { t.chunk with blob := file.frames, fileBytes := 0 }

/-- Rows, then renames until one fails, then blobs for the files that were not moved, then the buffer files. -/
def flush (renames : ℕ → Bool) (d : Disk) (batch : List Transfer) : List Effect :=
  if batch = [] then []
  else
    let moves := batch.filter (·.move)
    let moved := moves.takeWhile (renames ·.number)
    let left := moves.dropWhile (renames ·.number)
    [.commit (batch.map (·.chunk))] ++ (moved.map (·.number)).map .rename ++
      (if left = [] then [] else [.commit (blobsOf d left)]) ++ (batch.map (·.number)).map .unlink

def takeBatch (d : Disk) (through : ℕ) : ℕ → ℕ → List ChunkMeta → Option (List Transfer)
  | _, _, [] => some []
  | count, size, m :: ms =>
    if through < m.number ∨ archiveBatchChunks ≤ count then some []
    else if fileChunkMin ≤ m.bytes then
      (takeBatch d through (count + 1) size ms).map (⟨⟨m.number, m.first, m.last, m.raw, [], m.bytes⟩, true⟩ :: ·)
    else if 0 < count ∧ archiveBatchBytes < size + m.bytes then some []
    else do
      let file ← d.buffer.find? (·.number = m.number)
      let rest ← takeBatch d through (count + 1) (size + file.bytes) ms
      return ⟨⟨m.number, m.first, m.last, m.raw, file.frames, 0⟩, false⟩ :: rest

def classifyMoves (d : Disk) (batch : List Transfer) : Bool :=
  batch.all fun t => !t.move || d.buffer.any (·.number = t.number)

def archiveBatchLocked (renames : ℕ → Bool) (d : Disk) (w : Writer) (through : ℕ) :
    Option (List Effect × Writer) := do
  let batch ← takeBatch d through 0 0 w.idx
  if batch = [] then return ([], w)
  else if !classifyMoves d batch then none
  else
    let idx := w.idx.drop batch.length
    return (flush renames d batch ++ [.writeIndex idx],
      { w with idx := idx, buffered := w.buffered - ((batch.map (·.chunk.rawBytes)).sum : ℕ) })

def readOrphanIndex : List ChunkMeta → List ChunkMeta → Except String (List ChunkMeta)
  | sealed, [] => .ok sealed
  | sealed, m :: ms =>
    if !m.valid then .error ("invalid orphan log chunk " ++ toString m.number ++ " metadata")
    else if sealed.any (·.number = m.number) then .error ("duplicate orphan log chunk " ++ toString m.number)
    else readOrphanIndex (sealed ++ [m]) ms

def salvage (f : ChunkFile) : Option Chunk :=
  match f.frames with
  | [] => none
  | frame :: frames =>
    some ⟨f.number, frame.sequence, ((frame :: frames).getLast (by simp)).sequence,
      ((frame :: frames).map (·.size)).sum, frame :: frames, 0⟩

def orphanTransfer (sealed : List ChunkMeta) (f : ChunkFile) : Option Transfer :=
  match sealed.find? (·.number = f.number) with
  | some m =>
    if fileChunkMin ≤ f.bytes then some ⟨⟨f.number, m.first, m.last, m.raw, [], f.bytes⟩, true⟩
    else some ⟨⟨f.number, m.first, m.last, m.raw, f.frames, 0⟩, false⟩
  | none => (salvage f).map (⟨·, false⟩)

/-- The loop over the files of the buffer; `size` is that of the blobs in the batch, `encoded` that of a blob. -/
def orphanLoop (flush : List Transfer → List Effect) (encoded : Chunk → ℕ) (sealed : List ChunkMeta) :
    List Transfer → ℕ → List ChunkFile → List Effect
  | batch, _, [] => flush batch
  | batch, size, f :: fs =>
    if (sealed.any (·.number = f.number)) ∧ fileChunkMin ≤ f.bytes then
      if archiveBatchChunks ≤ batch.length then
        flush batch ++ orphanLoop flush encoded sealed (orphanTransfer sealed f).toList 0 fs
      else orphanLoop flush encoded sealed (batch ++ (orphanTransfer sealed f).toList) size fs
    else
      let full := archiveBatchChunks ≤ batch.length ∨ batch ≠ [] ∧ archiveBatchBytes < size + f.bytes
      let (before, batch, size) := if full then (flush batch, [], 0) else ([], batch, size)
      match orphanTransfer sealed f with
      -- an empty chunk
      | none => before ++ orphanLoop flush encoded sealed batch size fs
      | some t =>
        let (again, batch, size) :=
          if batch ≠ [] ∧ archiveBatchBytes < size + encoded t.chunk then (flush batch, [], 0)
          else ([], batch, size)
        before ++ again ++ orphanLoop flush encoded sealed (batch ++ [t]) (size + encoded t.chunk) fs

def applyAll (d : Disk) (effects : List Effect) : Disk := effects.foldl Effect.apply d

def removeAll (d : Disk) : List Effect := .unlinkIndex :: d.buffer.map (.unlink ·.number)

def archiveOrphan (renames : ℕ → Bool) (encoded : Chunk → ℕ) (d : Disk) : Except String (List Effect) := do
  let sealed ← readOrphanIndex [] (d.index.getD [])
  return orphanLoop (flush renames d) encoded sealed [] 0 (chunkFiles d)

def shortChunk (sealed : List ChunkMeta) (f : ChunkFile) : Option Chunk := do
  let m ← sealed.find? (·.number = f.number)
  if fileChunkMin ≤ m.bytes ∨ fileChunkMin ≤ f.bytes then none
  else return ⟨f.number, m.first, m.last, m.raw, f.frames, 0⟩

def loadShortRun (d : Disk) : Option (List Chunk) :=
  match readOrphanIndex [] (d.index.getD []) with
  | .error _ => none
  | .ok sealed =>
    if sealed = [] ∨ (chunkFiles d).length ≠ sealed.length then none
    else (chunkFiles d).mapM (shortChunk sealed)

def sweepRunFiles (d : Disk) : List Effect :=
  (d.archive.filter fun f => !d.rows.any fun c => c.number = f.number &&
    0 < c.fileBytes).map (.unlinkArchived ·.number)

/-- The log of one run: what is stored, the writer, the checkpoint in progress, the operations that are still to be
performed under the run's lock, and the frames accepted so far, without those evicted. -/
structure Log where
  disk : Disk
  writer : Option Writer
  through : Option ℕ
  program : List Effect
  accepted : List Frame

inductive Event
  | perform
  | write (line : Line) (timestamp : ℤ) (bytes : ℕ × ℕ)
  | checkpoint (bytes : ℕ)
  | batch (renames : ℕ → Bool)
  | endCheckpoint
  | close (bytes : ℕ)
  | detach
  | crash
  | orphan (renames : ℕ → Bool) (encoded : Chunk → ℕ)
  | short
  | sweepFiles

def Log.opened (options : WriterOptions) : Log where
  disk := ⟨[], [], [⟨1, [], 0⟩], none⟩
  writer := some
    { options with
      chunk := 1, chunkRaw := 0, chunkFirst := 1, seq := 0, buffered := 0, idx := [], closed := false }
  through := none
  program := []
  accepted := []

inductive LogStep : Log → Event → Log → Prop
  | perform {s : Log} {e : Effect} {es : List Effect} (hprogram : s.program = e :: es) :
    LogStep s .perform { s with disk := e.apply s.disk, program := es, accepted := e.retained s.disk s.accepted }
  | write {s : Log} {w : Writer} {line : Line} {timestamp : ℤ} {bytes : ℕ × ℕ} (hprogram : s.program = [])
      (hwriter : s.writer = some w) (hopen : w.closed = false) :
    LogStep s (.write line timestamp bytes)
      { s with
        program := (w.writeLocked line timestamp bytes).1, writer := some (w.writeLocked line timestamp bytes).2 }
  | checkpoint {s : Log} {w : Writer} {bytes : ℕ} (hprogram : s.program = []) (hwriter : s.writer = some w)
      (hopen : w.closed = false) (hthrough : s.through = none) :
    LogStep s (.checkpoint bytes)
      { s with
        program := (w.sealForArchive bytes).1, writer := some (w.sealForArchive bytes).2
        through := some ((w.sealForArchive bytes).2.chunk - 1) }
  | batch {s : Log} {w w' : Writer} {through : ℕ} {renames : ℕ → Bool} {es : List Effect}
      (hprogram : s.program = []) (hwriter : s.writer = some w) (hthrough : s.through = some through)
      (hbatch : archiveBatchLocked renames s.disk w through = some (es, w')) :
    LogStep s (.batch renames) { s with program := es, writer := some w' }
  | endCheckpoint {s : Log} (hprogram : s.program = []) : LogStep s .endCheckpoint { s with through := none }
  | close {s : Log} {w : Writer} {bytes : ℕ} (hprogram : s.program = []) (hwriter : s.writer = some w)
      (hopen : w.closed = false) :
    LogStep s (.close bytes) { s with program := (w.close bytes).1, writer := some (w.close bytes).2 }
  | detach {s : Log} {w : Writer} (hprogram : s.program = []) (hwriter : s.writer = some w)
      (hclosed : w.closed = true) (hthrough : s.through = none) :
    LogStep s .detach { s with writer := none }
  | crash {s : Log} : LogStep s .crash { s with program := [], writer := none, through := none }
  | orphan {s : Log} {renames : ℕ → Bool} {encoded : Chunk → ℕ} {es removal : List Effect}
      (hprogram : s.program = []) (hwriter : s.writer = none)
      (horphan : archiveOrphan renames encoded s.disk = .ok es)
      (hremoval : removal.Perm (removeAll (applyAll s.disk es))) :
    LogStep s (.orphan renames encoded) { s with program := es ++ removal }
  | short {s : Log} {chunks : List Chunk} {removal : List Effect} (hprogram : s.program = [])
      (hwriter : s.writer = none) (hshort : loadShortRun s.disk = some chunks)
      (hremoval : removal.Perm (removeAll s.disk)) :
    LogStep s .short { s with program := .commit chunks :: removal }
  | sweepFiles {s : Log} (hprogram : s.program = []) (hwriter : s.writer = none) :
    LogStep s .sweepFiles { s with program := sweepRunFiles s.disk }

end Minicrond.Logs
