import Minicrond.Logs.ChunkFiles

/-! Fsyncs of a writer's chunk files. `Sync` runs its fsync outside the lock of the writer, one call at a time,
while other goroutines write to the chunk, seal it or close the writer. -/

namespace Minicrond.Logs.Capture.Durability

open Library

/-- An fsync of a chunk's file that has returned; `frames` had been written to the file when it was issued. -/
structure Fsync where
  chunk : ℕ
  frames : ℕ
  ok : Bool
  deriving DecidableEq

/-- The chunk files of a writer: the last one, the bytes written to it since the last call of `Sync` took them, the
frames in each chunk, and the fsyncs. -/
structure Files where
  handle : Handle
  unsynced : ℕ := 0
  written : ℕ → ℕ := fun _ => 0
  fsyncs : List Fsync := []

namespace Files

variable (f : Files)

def append (payload : ℕ) : Files :=
  { f with
    unsynced := f.unsynced + (frameHeader + payload)
    written := Function.update f.written f.handle.chunk (f.written f.handle.chunk + 1) }

def fsync (k frames : ℕ) (ok : Bool) : Files := { f with fsyncs := ⟨k, frames, ok⟩ :: f.fsyncs }

def shut : Files := { f with handle.isOpen := false }

def start (k : ℕ) : Files := { f with handle := ⟨k, true⟩, unsynced := 0 }

def Covers (P : Fsync → Prop) (k i : ℕ) : Prop := ∃ y ∈ f.fsyncs, P y ∧ y.chunk = k ∧ i ≤ y.frames

end Files

inductive SyncStage where
  | entered
  -- It has taken the file of a chunk, and with it what is unsynced.
  | claimed (chunk : ℕ)
  -- The fsync has been issued with this many frames in the file.
  | syncing (chunk frames : ℕ)

structure WriterSync (τ : Type*) where
  log : Log
  files : Files
  lastSyncErr : Bool := false
  -- The holder of `syncMu`.
  sync : Option (τ × SyncStage) := none

namespace WriterSync

variable {τ : Type*}

def nothing (w : WriterSync τ) : Bool :=
  w.log.writer.closed || !w.log.writer.buffer.file || decide (w.files.unsynced = 0)

end WriterSync

inductive SyncCall {τ : Type*} : WriterSync τ → τ → Option Bool → WriterSync τ → Prop
  | enter {w x} (hsync : w.sync = none) : SyncCall w x none { w with sync := some (x, .entered) }
  -- The previous fsync may have failed on what this caller wrote.
  | nothing {w x} (hsync : w.sync = some (x, .entered)) (hnothing : w.nothing = true) :
      SyncCall w x (some w.lastSyncErr) { w with sync := none }
  | claim {w x} (hsync : w.sync = some (x, .entered)) (hnothing : w.nothing = false) :
      SyncCall w x none { w with files.unsynced := 0, sync := some (x, .claimed w.log.writer.buffer.chunk) }
  -- The file has been closed meanwhile, which is not an error.
  | errClosed {w x k} (hsync : w.sync = some (x, .claimed k)) (hfile : w.files.handle ≠ ⟨k, true⟩) :
      SyncCall w x (some false) { w with sync := none }
  | issue {w x k} (hsync : w.sync = some (x, .claimed k)) (hfile : w.files.handle = ⟨k, true⟩) :
      SyncCall w x none { w with sync := some (x, .syncing k (w.files.written k)) }
  | finish {w x k m} (ok : Bool) (hsync : w.sync = some (x, .syncing k m)) :
      SyncCall w x (some !ok)
        { log := if ok then w.log else w.log.next .syncFailed, files := w.files.fsync k m ok, lastSyncErr := !ok,
          sync := none }

namespace Files

variable {f g h : Files} {P : Fsync → Prop} {k i : ℕ}

lemma covers_fsync (k' frames : ℕ) (ok : Bool) (hc : f.Covers P k i) : (f.fsync k' frames ok).Covers P k i := by
  obtain ⟨y, hy, hP⟩ := hc
  exact ⟨y, List.mem_cons_of_mem _ hy, hP⟩

lemma covers_of_fsync {frames : ℕ} {ok : Bool} (hP : P ⟨k, frames, ok⟩) (hi : i ≤ frames) :
    (f.fsync k frames ok).Covers P k i := ⟨_, List.mem_cons_self, hP, rfl, hi⟩

lemma written_append (payload : ℕ) (k : ℕ) : f.written k ≤ (f.append payload).written k := by
  dsimp only [append]
  rw [Function.update_apply]
  split_ifs with hk
  case pos => exact hk ▸ Nat.le_succ _
  case neg => exact le_rfl

/-- What has happened to a chunk: it is still open and nothing was taken of what is unsynced, or an fsync has
covered its first frames. -/
structure Follows (P : Fsync → Prop) (k i : ℕ) (f g : Files) : Prop where
  written : f.written k ≤ g.written k
  covers : f.Covers P k i → g.Covers P k i
  current : f.handle = ⟨k, true⟩ → (g.handle = ⟨k, true⟩ ∧ f.unsynced ≤ g.unsynced) ∨ g.Covers P k i

lemma Follows.refl (f : Files) : Follows P k i f f := ⟨le_rfl, id, fun h => .inl ⟨h, le_rfl⟩⟩

lemma Follows.trans (hfg : Follows P k i f g) (hgh : Follows P k i g h) : Follows P k i f h where
  written := hfg.written.trans hgh.written
  covers := hgh.covers ∘ hfg.covers
  current hopen := by
    obtain ⟨hg, hle⟩ | hcovers := hfg.current hopen
    · exact (hgh.current hg).imp_left fun hh => ⟨hh.1, hle.trans hh.2⟩
    · exact .inr (hgh.covers hcovers)

lemma Follows.append (f : Files) (payload : ℕ) : Follows P k i f (f.append payload) where
  written := written_append payload k
  covers := id
  current hopen := .inl ⟨hopen, Nat.le_add_right _ _⟩

lemma Follows.start (hclosed : f.handle.isOpen = false) (k' : ℕ) : Follows P k i f (f.start k') where
  written := le_rfl
  covers := id
  current hopen := nomatch hclosed.symm.trans (congrArg Handle.isOpen hopen)

end Files

namespace WriterSync

variable {τ : Type*} {w : WriterSync τ} {k : ℕ}

def InFlight (w : WriterSync τ) (k i : ℕ) : Prop :=
  match w.sync with
  | some (_, .claimed k') => k' = k
  | some (_, .syncing k' m) => k' = k ∧ i ≤ m
  | _ => False

structure Tracks (w : WriterSync τ) : Prop where
  handle : w.files.handle = w.log.writer.buffer.handle
  shut : w.log.Shut

lemma Tracks.open (h : w.Tracks) (hopen : w.files.handle = ⟨k, true⟩) :
    w.log.writer.closed = false ∧ w.log.writer.buffer.file = true ∧ w.log.writer.buffer.chunk = k := by
  have hhandle := h.handle.symm.trans hopen
  have hfile : w.log.writer.buffer.file = true := congrArg Handle.isOpen hhandle
  refine ⟨?_, hfile, congrArg Handle.chunk hhandle⟩
  cases hclosed : w.log.writer.closed with
  | false => rfl
  | true => exact nomatch (h.shut hclosed).symm.trans hfile

lemma Tracks.unsynced_of_nothing (h : w.Tracks) (hopen : w.files.handle = ⟨k, true⟩)
    (hnothing : w.nothing = true) :
    w.files.unsynced = 0 := by
  obtain ⟨hclosed, hfile, -⟩ := h.open hopen
  simpa [nothing, hclosed, hfile] using hnothing

end WriterSync

section

variable {τ : Type*} {w w' : WriterSync τ} {x y : τ} {result : Option Bool}

lemma SyncCall.tracks (h : SyncCall w x result w') (hw : w.Tracks) : w'.Tracks := by
  cases h with
  | finish ok hsync => cases ok <;> exact ⟨hw.handle, hw.shut⟩
  | _ => exact ⟨hw.handle, hw.shut⟩

lemma SyncCall.written (h : SyncCall w x result w') : w'.files.written = w.files.written := by
  cases h <;> rfl

lemma SyncCall.holder (h : SyncCall w x result w') {stage : SyncStage} (hy : w'.sync = some (y, stage)) :
    y = x := by
  cases h with
  | nothing | errClosed | finish => cases hy
  | _ => exact (congrArg Prod.fst (Option.some.inj hy)).symm

end

end Minicrond.Logs.Capture.Durability
