import Mathlib.Data.List.MinMax
import Mathlib.Data.List.Sort
import Minicrond.Library.HighWater

/-! The stored log of one run, in the log database, the archive directory and the buffer directory, and the reader
that pages through it. A compressed chunk is the list of its intact frames. -/

namespace Minicrond.Logs

open Minicrond.Library

def maxFramePayload : ℕ := 16777216

def frameHeader : ℕ := 24

inductive Stream
  | stdout
  | stderr
  | system
deriving DecidableEq, Repr

structure Line where
  stream : Stream
  flags : UInt8
  payload : List UInt8
  fits : payload.length ≤ maxFramePayload
deriving DecidableEq

structure Frame extends Line where
  sequence : ℕ
  timestamp : ℤ
deriving DecidableEq

def Line.size (l : Line) : ℕ := frameHeader + l.payload.length

structure ChunkMeta where
  number : ℕ
  first : ℕ
  last : ℕ
  bytes : ℕ
  raw : ℕ
deriving DecidableEq

structure ChunkFile where
  number : ℕ
  frames : List Frame
  bytes : ℕ
deriving DecidableEq

structure Chunk where
  number : ℕ
  first : ℕ
  last : ℕ
  rawBytes : ℕ
  blob : List Frame
  fileBytes : ℕ
deriving DecidableEq

structure Disk where
  rows : List Chunk
  archive : List ChunkFile
  buffer : List ChunkFile
  index : Option (List ChunkMeta)

def chunkFiles (d : Disk) : List ChunkFile := d.buffer.insertionSort fun a b => a.number ≤ b.number

def openFileChunk (d : Disk) (number : ℕ) : Option ChunkFile :=
  (d.archive.find? (·.number = number)).or (d.buffer.find? (·.number = number))

structure Page where
  out : List Frame
  last : ℕ
  responseBytes : ℤ

def Page.start (after : ℕ) : Page := ⟨[], after, 0⟩

def Page.append (p : Page) (f : Frame) : Page := ⟨p.out ++ [f], f.sequence, p.responseBytes + f.size⟩

section

variable (limit maxResponseBytes : ℤ)

def consume : List Frame → Page → Page × Bool
  | [], p => (p, true)
  | f :: fs, p =>
    if f.sequence ≤ p.last then consume fs p
    else if p.out ≠ [] ∧ maxResponseBytes < p.responseBytes + f.size then (p, false)
    else if (p.append f).out.length < limit ∧ (p.append f).responseBytes < maxResponseBytes then
      consume fs (p.append f)
    else (p.append f, false)

def nextChunk (rows : List Chunk) (cursor : ℕ) : Option Chunk :=
  (rows.filter fun c => cursor < c.last).argmin (·.last)

def Chunk.frames (d : Disk) (c : Chunk) : Option (List Frame) :=
  if 0 < c.fileBytes then (openFileChunk d c.number).map (·.frames) else some c.blob

lemma nextChunk_eq_some {rows : List Chunk} {cursor : ℕ} {c : Chunk} (h : nextChunk rows cursor = some c) :
    c ∈ rows ∧ cursor < c.last ∧ ∀ x ∈ rows, cursor < x.last → c.last ≤ x.last := by
  have hmem := List.argmin_mem h
  simp only [List.mem_filter, decide_eq_true_eq] at hmem
  refine ⟨hmem.1, hmem.2, fun x hx hlast => ?_⟩
  exact List.le_of_mem_argmin (List.mem_filter.mpr ⟨hx, by simpa using hlast⟩) h

lemma nextChunk_decreases {rows : List Chunk} {cursor : ℕ} {c : Chunk} (h : nextChunk rows cursor = some c) :
    (rows.filter fun x => max cursor c.last < x.last).length < (rows.filter fun x => cursor < x.last).length := by
  obtain ⟨hc, hlast, _⟩ := nextChunk_eq_some h
  have hsub : (rows.filter fun x => max cursor c.last < x.last).Sublist
      (rows.filter fun x => cursor < x.last) := by
    apply List.monotone_filter_right
    intro x hx
    simp only [decide_eq_true_eq] at hx ⊢
    omega
  refine lt_of_le_of_ne hsub.length_le fun he => ?_
  have hmem : c ∈ rows.filter fun x => max cursor c.last < x.last := by
    rw [hsub.eq_of_length he]
    exact List.mem_filter.mpr ⟨hc, by simpa using hlast⟩
  simp at hmem

def eachChunk (d : Disk) (cursor : ℕ) (p : Page) : Page × Bool :=
  match _h : nextChunk d.rows cursor with
  | none => (p, true)
  | some c =>
    match c.frames d with
    -- pruned after its row was read
    | none => eachChunk d (max cursor c.last) p
    | some fs =>
      match consume limit maxResponseBytes fs p with
      | (p', true) => eachChunk d (max cursor c.last) p'
      | (p', false) => (p', false)
termination_by (d.rows.filter fun x => cursor < x.last).length
decreasing_by all_goals exact nextChunk_decreases _h

def ChunkMeta.valid (m : ChunkMeta) : Bool := 0 < m.number && 0 < m.first && m.first ≤ m.last

def sealedLast (index : List ChunkMeta) (number : ℕ) : Option ℕ :=
  ((index.filter (·.valid)).reverse.find? (·.number = number)).map (·.last)

def skips (d : Disk) (after : ℕ) (f : ChunkFile) : Bool :=
  0 < after && 1 < (chunkFiles d).length && ((d.index.bind (sealedLast · f.number)).any (· ≤ after))

def readFiles (skip : ChunkFile → Bool) : List ChunkFile → Page → Page
  | [], p => p
  | f :: fs, p =>
    if skip f then readFiles skip fs p
    else
      match consume limit maxResponseBytes f.frames p with
      | (p', true) => readFiles skip fs p'
      | (p', false) => p'

end

def clampLimit (limit : ℤ) : ℤ := min (max limit 1) 5000

def readContext (d : Disk) (after : ℕ) (limit maxResponseBytes : ℤ) : List Frame :=
  match eachChunk (clampLimit limit) maxResponseBytes d after (Page.start after) with
  | (p, false) => p.out
  | (p, true) => (readFiles (clampLimit limit) maxResponseBytes (skips d after) (chunkFiles d) p).out

end Minicrond.Logs
