import Minicrond.Library.Table
import Minicrond.Logs.Layout

/-! The storage operations that the writer and the archiver perform one after the other, and what each keeps of the
layout. -/

namespace Minicrond.Logs

open Minicrond.Library

inductive Effect
  | create (number : ℕ)
  | append (number : ℕ) (frame : Frame) (bytes : ℕ)
  -- the end of the compressed stream
  | finish (number : ℕ) (bytes : ℕ)
  | writeIndex (index : List ChunkMeta)
  | commit (chunks : List Chunk)
  | rename (number : ℕ)
  | unlink (number : ℕ)
  -- drop_old gives up the oldest sealed chunk
  | evict (number : ℕ)
  | unlinkIndex
  | unlinkArchived (number : ℕ)
deriving DecidableEq

def putChunk (rows : List Chunk) (c : Chunk) : List Chunk := rows.filter (·.number ≠ c.number) ++ [c]

def putChunks (rows : List Chunk) (chunks : List Chunk) : List Chunk := chunks.foldl putChunk rows

def withoutFile (n : ℕ) (files : List ChunkFile) : List ChunkFile := files.filter (·.number ≠ n)

namespace Effect

def apply (d : Disk) : Effect → Disk
  | .create n => { d with buffer := d.buffer ++ [⟨n, [], 0⟩] }
  | .append n f bytes =>
    { d with buffer := d.buffer.map fun file =>
        if file.number = n then ⟨n, file.frames ++ [f], bytes⟩ else file }
  | .finish n bytes =>
    { d with buffer := d.buffer.map fun file => if file.number = n then { file with bytes := bytes } else file }
  | .writeIndex index => { d with index := some index }
  | .commit chunks => { d with rows := putChunks d.rows chunks }
  | .rename n =>
    match d.buffer.find? (·.number = n) with
    | none => d
    | some file => { d with buffer := withoutFile n d.buffer, archive := withoutFile n d.archive ++ [file] }
  | .unlink n => { d with buffer := withoutFile n d.buffer }
  | .evict n => { d with buffer := withoutFile n d.buffer }
  | .unlinkIndex => { d with index := none }
  | .unlinkArchived n => { d with archive := withoutFile n d.archive }

/-- The frames of the log after the operation: a line is added, or those of an evicted chunk are given up. -/
def retained (d : Disk) (frames : List Frame) : Effect → List Frame
  | .append _ f _ => frames ++ [f]
  | .evict n => frames.filter fun f => !d.buffer.any fun file => file.number = n && file.frames.contains f
  | _ => frames

def moves : Effect → Bool
  | .append .. | .evict _ => false
  | _ => true

lemma retained_of_moves {d : Disk} {frames : List Frame} {e : Effect} (h : e.moves = true) :
    e.retained d frames = frames := by
  cases e <;> simp_all [moves, retained]

end Effect

section

variable {rows chunks : List Chunk} {c : Chunk} {files : List ChunkFile} {f : ChunkFile} {n k : ℕ}

lemma mem_putChunk {x : Chunk} : x ∈ putChunk rows c ↔ x = c ∨ x ∈ rows ∧ x.number ≠ c.number := by
  simp [putChunk, or_comm]

lemma mem_putChunks {x : Chunk} (h : x ∈ putChunks rows chunks) :
    x ∈ chunks ∨ x ∈ rows ∧ ∀ c ∈ chunks, c.number ≠ x.number := by
  rw [putChunks] at h
  induction chunks generalizing rows with
  | nil => exact .inr ⟨h, by simp⟩
  | cons c chunks ih =>
    rcases ih h with hx | ⟨hx, hne⟩
    · exact .inl (List.mem_cons_of_mem _ hx)
    · rcases mem_putChunk.mp hx with rfl | ⟨hx, hnum⟩
      · exact .inl List.mem_cons_self
      · exact .inr ⟨hx, List.forall_mem_cons.mpr ⟨hnum.symm, hne⟩⟩

lemma putChunks_number :
    (∃ x ∈ putChunks rows chunks, x.number = n) ↔ (∃ x ∈ rows, x.number = n) ∨ ∃ x ∈ chunks, x.number = n := by
  rw [putChunks]
  induction chunks generalizing rows with
  | nil => simp
  | cons c chunks ih =>
    rw [List.foldl_cons, ih]
    constructor
    · rintro (⟨x, hx, hnum⟩ | ⟨x, hx, hnum⟩)
      · rcases mem_putChunk.mp hx with rfl | ⟨hx, _⟩
        · exact .inr ⟨x, List.mem_cons_self, hnum⟩
        · exact .inl ⟨x, hx, hnum⟩
      · exact .inr ⟨x, List.mem_cons_of_mem _ hx, hnum⟩
    · rintro (⟨x, hx, hnum⟩ | ⟨x, hx, hnum⟩)
      · by_cases hc : c.number = n
        · exact .inl ⟨c, mem_putChunk.mpr (.inl rfl), hc⟩
        · exact .inl ⟨x, mem_putChunk.mpr (.inr ⟨hx, fun he => hc (he ▸ hnum)⟩), hnum⟩
      · rcases List.mem_cons.mp hx with rfl | hx
        · exact .inl ⟨x, mem_putChunk.mpr (.inl rfl), hnum⟩
        · exact .inr ⟨x, hx, hnum⟩

lemma mem_withoutFile : f ∈ withoutFile n files ↔ f ∈ files ∧ f.number ≠ n := by
  simp [withoutFile]

lemma hasFile_withoutFile : HasFile (withoutFile n files) k ↔ HasFile files k ∧ k ≠ n := by
  constructor
  · rintro ⟨f, hf, rfl⟩
    obtain ⟨hf, hne⟩ := mem_withoutFile.mp hf
    exact ⟨⟨f, hf, rfl⟩, hne⟩
  · rintro ⟨⟨f, hf, rfl⟩, hne⟩
    exact ⟨f, mem_withoutFile.mpr ⟨hf, hne⟩, rfl⟩

lemma hasFile_map {g : ChunkFile → ChunkFile} (hg : ∀ f, (g f).number = f.number) :
    HasFile (files.map g) n ↔ HasFile files n := by
  simp [HasFile, hg]

lemma names_map {g : ChunkFile → ChunkFile} (h : (files.map (·.number)).Nodup)
    (hg : ∀ f, (g f).number = f.number) : ((files.map g).map (·.number)).Nodup := by
  rw [List.map_map]
  exact (List.map_congr_left fun f _ => hg f) ▸ h

end

section

variable {ends : ℕ → ℕ} {accepted : List Frame} {d d' : Disk} {n k : ℕ}

def Kept (d : Disk) (n : ℕ) : Prop :=
  HasRow d n ∧ ∀ c ∈ d.rows, c.number = n → 0 < c.fileBytes → HasFile d.archive n

lemma RowOk.mono {c : Chunk} (h : RowOk ends accepted d c)
    (hfiles : 0 < c.fileBytes → HasFile d.archive c.number ∨ HasFile d.buffer c.number →
      HasFile d'.archive c.number ∨ HasFile d'.buffer c.number) : RowOk ends accepted d' c := by
  refine ⟨h.holds, h.last, ?_⟩
  have hstored := h.stored
  split_ifs at hstored ⊢ with hfile
  · exact hfiles hfile hstored
  · exact hstored

lemma MetaOk.mono {m : ChunkMeta} (h : MetaOk ends d m)
    (hfile : HasFile d'.buffer m.number → HasFile d.buffer m.number) : MetaOk ends d' m :=
  ⟨h.valid, fun hf => h.holds (hfile hf), fun hf => h.last (hfile hf)⟩

lemma Layout.index_mono (h : Layout ends accepted d) (hindex : d'.index = d.index)
    (hfiles : ∀ k, HasFile d'.buffer k → HasFile d.buffer k) :
    ∀ idx, d'.index = some idx → (idx.map (·.number)).Nodup ∧ ∀ m ∈ idx, MetaOk ends d' m := by
  intro idx hidx
  obtain ⟨hnodup, hmeta⟩ := h.index idx (hindex ▸ hidx)
  exact ⟨hnodup, fun m hm => (hmeta m hm).mono (hfiles _)⟩

lemma Layout.create (h : Layout ends accepted d) (hnew : ¬HasFile d.buffer n) (hn : piece ends accepted n = [])
    (hindex : ∀ idx, d.index = some idx → ∀ m ∈ idx, m.number ≠ n) :
    Layout ends accepted ((Effect.create n).apply d) := by
  have hkeep : ∀ {k}, HasFile d.buffer k → HasFile (d.buffer ++ [⟨n, [], 0⟩]) k := by
    rintro k ⟨f, hf, hnum⟩
    exact ⟨f, List.mem_append_left _ hf, hnum⟩
  refine { h with
    row := fun c hc => ?_, names := ?_, buffer := fun f hf => ?_, covered := fun k hk => ?_
    index := fun idx hidx => ⟨(h.index idx hidx).1, fun m hm => ((h.index idx hidx).2 m hm).mono ?_⟩ }
  · exact (h.row c hc).mono fun _ => (Or.imp_right hkeep)
  · exact nodup_append_fresh h.names fun f hf hnum => hnew ⟨f, hf, hnum⟩
  · rcases List.mem_append.mp hf with hf | hf
    · exact h.buffer f hf
    · obtain rfl := List.mem_singleton.mp hf
      exact hn.symm
  · exact (h.covered k hk).imp_right hkeep
  · rintro ⟨f, hf, hnum⟩
    rcases List.mem_append.mp hf with hf | hf
    · exact ⟨f, hf, hnum⟩
    · obtain rfl := List.mem_singleton.mp hf
      exact (hindex idx hidx m hm hnum.symm).elim

lemma Layout.finish (h : Layout ends accepted d) {bytes : ℕ} :
    Layout ends accepted ((Effect.finish n bytes).apply d) := by
  have hsame : ∀ k, HasFile ((Effect.finish n bytes).apply d).buffer k ↔ HasFile d.buffer k := by
    intro k
    apply hasFile_map
    intro f
    split_ifs <;> rfl
  refine { h with
    row := fun c hc => ?_, names := ?_, buffer := fun f hf => ?_, covered := fun k hk => ?_
    index := h.index_mono rfl fun k => (hsame k).mp }
  · exact (h.row c hc).mono fun _ => (Or.imp_right (hsame _).mpr)
  · exact names_map h.names fun f => by split_ifs <;> rfl
  · obtain ⟨file, hfile, rfl⟩ := List.mem_map.mp hf
    split_ifs
    · exact h.buffer file hfile
    · exact h.buffer file hfile
  · exact (h.covered k hk).imp_right (hsame k).mpr

lemma Layout.writeIndex (h : Layout ends accepted d) {idx : List ChunkMeta} (hnodup : (idx.map (·.number)).Nodup)
    (hidx : ∀ m ∈ idx, MetaOk ends d m) : Layout ends accepted ((Effect.writeIndex idx).apply d) := by
  refine { h with row := fun c hc => (h.row c hc).mono fun _ => id, index := ?_ }
  rintro _ ⟨⟩
  exact ⟨hnodup, fun m hm => (hidx m hm).mono id⟩

lemma Layout.unlinkIndex (h : Layout ends accepted d) : Layout ends accepted (Effect.unlinkIndex.apply d) := by
  refine { h with row := fun c hc => (h.row c hc).mono fun _ => id, index := ?_ }
  rintro _ ⟨⟩

lemma hasRow_commit {chunks : List Chunk} :
    HasRow ((Effect.commit chunks).apply d) n ↔ HasRow d n ∨ ∃ c ∈ chunks, c.number = n :=
  putChunks_number

lemma Layout.commit (h : Layout ends accepted d) {chunks : List Chunk}
    (hok : ∀ c ∈ chunks, RowOk ends accepted d c)
    (hearlier : ∀ c ∈ chunks, ∀ k < c.number, Holds ends k → HasRow d k ∨ ∃ c' ∈ chunks, c'.number = k) :
    Layout ends accepted ((Effect.commit chunks).apply d) := by
  refine { h with
    row := fun c hc => ?_, covered := fun k hk => ?_, earlier := fun n hn k hkn hk => ?_
    index := h.index_mono rfl fun _ => id }
  · rcases mem_putChunks hc with hc | ⟨hc, _⟩
    · exact (hok c hc).mono fun _ => id
    · exact (h.row c hc).mono fun _ => id
  · exact (h.covered k hk).imp_left fun hrow => hasRow_commit.mpr (.inl hrow)
  · apply hasRow_commit.mpr
    rcases hasRow_commit.mp hn with hrow | ⟨c, hc, rfl⟩
    · exact .inl (h.earlier n hrow k hkn hk)
    · exact hearlier c hc k hkn hk

lemma rename_eq_self (hn : ¬HasFile d.buffer n) : (Effect.rename n).apply d = d := by
  have hfind : d.buffer.find? (·.number = n) = none := by
    simp only [List.find?_eq_none, decide_eq_true_eq]
    exact fun f hf hnum => hn ⟨f, hf, hnum⟩
  rw [Effect.apply, hfind]

lemma rename_eq (hn : HasFile d.buffer n) : ∃ f ∈ d.buffer, f.number = n ∧ (Effect.rename n).apply d =
    { d with buffer := withoutFile n d.buffer, archive := withoutFile n d.archive ++ [f] } := by
  cases hfind : d.buffer.find? (·.number = n) with
  | none =>
    obtain ⟨f, hf, hnum⟩ := hn
    simp only [List.find?_eq_none, decide_eq_true_eq] at hfind
    exact (hfind f hf hnum).elim
  | some f =>
    refine ⟨f, List.mem_of_find?_eq_some hfind, by simpa using List.find?_some hfind, ?_⟩
    rw [Effect.apply, hfind]

lemma Layout.rename (h : Layout ends accepted d) (hrow : HasRow d n) :
    Layout ends accepted ((Effect.rename n).apply d) := by
  by_cases hfile : HasFile d.buffer n
  · obtain ⟨f, hf, hnum, he⟩ := rename_eq hfile
    have harchive : HasFile (withoutFile n d.archive ++ [f]) n :=
      ⟨f, List.mem_append_right _ (List.mem_singleton_self f), hnum⟩
    rw [he]
    refine { h with
      row := fun c hc => (h.row c hc).mono fun hbytes hstored => ?_, archive := fun f' hf' => ?_
      names := (List.filter_sublist.map _).nodup h.names
      buffer := fun f' hf' => h.buffer f' (mem_withoutFile.mp hf').1, covered := fun k hk => ?_
      index := h.index_mono rfl fun k hk => (hasFile_withoutFile.mp hk).1 }
    · by_cases hc : c.number = n
      · exact .inl (hc ▸ harchive)
      · refine hstored.imp ?_ fun hb => hasFile_withoutFile.mpr ⟨hb, hc⟩
        intro ha
        obtain ⟨f', hf', hnum'⟩ := hasFile_withoutFile.mpr ⟨ha, hc⟩
        exact ⟨f', List.mem_append_left _ hf', hnum'⟩
    · rcases List.mem_append.mp hf' with hf' | hf'
      · exact h.archive f' (mem_withoutFile.mp hf').1
      · obtain rfl := List.mem_singleton.mp hf'
        exact h.buffer f' hf
    · by_cases hkn : k = n
      · exact .inl (hkn ▸ hrow)
      · exact (h.covered k hk).imp_right fun hb => hasFile_withoutFile.mpr ⟨hb, hkn⟩
  · rw [rename_eq_self hfile]
    exact h

lemma Layout.unlink (h : Layout ends accepted d) (hn : ¬Holds ends n ∨ Kept d n) :
    Layout ends accepted ((Effect.unlink n).apply d) := by
  refine { h with
    row := fun c hc => (h.row c hc).mono fun hbytes hstored => ?_
    names := (List.filter_sublist.map _).nodup h.names
    buffer := fun f hf => h.buffer f (mem_withoutFile.mp hf).1, covered := fun k hk => ?_
    index := h.index_mono rfl fun k hk => (hasFile_withoutFile.mp hk).1 }
  · by_cases hcn : c.number = n
    · have hkept := hn.resolve_left (not_not.mpr (hcn ▸ (h.row c hc).holds))
      exact .inl (hcn ▸ hkept.2 c hc hcn hbytes)
    · exact hstored.imp_right fun hb => hasFile_withoutFile.mpr ⟨hb, hcn⟩
  · by_cases hkn : k = n
    · exact .inl (hkn ▸ (hn.resolve_left (not_not.mpr (hkn ▸ hk))).1)
    · exact (h.covered k hk).imp_right fun hb => hasFile_withoutFile.mpr ⟨hb, hkn⟩

lemma Layout.unlinkArchived (h : Layout ends accepted d) (hn : ∀ c ∈ d.rows, c.number = n → c.fileBytes = 0) :
    Layout ends accepted ((Effect.unlinkArchived n).apply d) := by
  refine { h with
    row := fun c hc => (h.row c hc).mono fun hbytes hstored => ?_
    archive := fun f hf => h.archive f (mem_withoutFile.mp hf).1
    index := h.index_mono rfl fun _ => id }
  refine hstored.imp_left fun ha => hasFile_withoutFile.mpr ⟨ha, fun hcn => ?_⟩
  have := hn c hc hcn
  omega

/-! ## A new frame -/

structure Open (ends : ℕ → ℕ) (d : Disk) (n : ℕ) : Prop where
  pos : 0 < n
  file : HasFile d.buffer n
  flat : ∀ k, n ≤ k → ends k = ends n
  files : ∀ k, HasFile d.buffer k → k ≤ n
  archive : ∀ k, HasFile d.archive k → k < n
  rows : ∀ k, HasRow d k → k < n
  index : ∀ idx, d.index = some idx → ∀ m ∈ idx, m.number < n

def extend (ends : ℕ → ℕ) (n last : ℕ) : ℕ → ℕ := fun k => if k < n then ends k else last

variable {f : Frame} {bytes : ℕ}

lemma slice_append_gt {a b : ℕ} (hf : b < f.sequence) :
    slice Frame.sequence (accepted ++ [f]) a b = slice Frame.sequence accepted a b := by
  rw [slice, List.filter_append, slice, List.filter_cons_of_neg (by simp; omega)]
  simp

lemma slice_append_le {a b : ℕ} (ha : a < f.sequence) (hall : ∀ x ∈ accepted, x.sequence ≤ b)
    (hb : b ≤ f.sequence) :
    slice Frame.sequence (accepted ++ [f]) a f.sequence = slice Frame.sequence accepted a b ++ [f] := by
  rw [slice, List.filter_append, slice, List.filter_cons_of_pos (by simpa using ha)]
  congr 1
  apply List.filter_congr
  intro x hx
  have := hall x hx
  rw [Bool.eq_iff_iff]
  simp only [Bool.and_eq_true, decide_eq_true_eq]
  omega

lemma Layout.le_ends (h : Layout ends accepted d) (ho : Open ends d n) {x : Frame} (hx : x ∈ accepted) :
    x.sequence ≤ ends n := by
  obtain ⟨_, k, hk⟩ := h.bounds x hx
  rcases le_total n k with hnk | hkn
  · rw [← ho.flat k hnk]
    exact hk
  · exact hk.trans (h.mono hkn)

lemma Layout.piece_extend (h : Layout ends accepted d) (ho : Open ends d n) (hf : ends n < f.sequence) (k : ℕ) :
    piece (extend ends n f.sequence) (accepted ++ [f]) k =
      if k = n then piece ends accepted k ++ [f] else piece ends accepted k := by
  rw [piece, piece]
  have hbefore : ends (n - 1) ≤ ends n := h.mono (Nat.sub_le n 1)
  rcases lt_trichotomy k n with hlt | rfl | hgt
  · have hmono := h.mono hlt.le
    rw [if_neg hlt.ne, extend, extend, if_pos (by omega), if_pos hlt, slice_append_gt (by omega)]
  · rw [if_pos rfl, extend, extend, if_pos (by have := ho.pos; omega), if_neg (lt_irrefl k)]
    exact slice_append_le (by omega) (fun x hx => h.le_ends ho hx) hf.le
  · rw [if_neg hgt.ne', extend, extend, if_neg (by omega), if_neg (by omega), ho.flat k hgt.le,
      ho.flat (k - 1) (by omega), slice_self, slice_self]

lemma holds_extend_of_lt {k last : ℕ} (hk : k < n) : Holds (extend ends n last) k ↔ Holds ends k := by
  rw [Holds, Holds, extend, extend, if_pos hk, if_pos (by omega)]

lemma le_of_holds_extend {k last : ℕ} (h : Holds (extend ends n last) k) : k ≤ n := by
  by_contra hgt
  obtain ⟨_, hlt⟩ := h
  rw [extend, extend, if_neg (by omega), if_neg (by omega)] at hlt
  omega

lemma hasFile_append : HasFile ((Effect.append n f bytes).apply d).buffer k ↔ HasFile d.buffer k := by
  apply hasFile_map
  intro file
  split_ifs with h
  · exact h.symm
  · rfl

lemma MetaOk.append {m : ChunkMeta} {last : ℕ} (h : MetaOk ends d m) (hlt : m.number < n) :
    MetaOk (extend ends n last) ((Effect.append n f bytes).apply d) m := by
  refine ⟨h.valid, fun hfile => (holds_extend_of_lt hlt).mpr (h.holds (hasFile_append.mp hfile)), fun hfile => ?_⟩
  rw [extend, if_pos hlt, h.last (hasFile_append.mp hfile)]

lemma Layout.append (h : Layout ends accepted d) (ho : Open ends d n) (hf : ends n < f.sequence) :
    Layout (extend ends n f.sequence) (accepted ++ [f]) ((Effect.append n f bytes).apply d) := by
  have hpos := ho.pos
  have hmono : Monotone (extend ends n f.sequence) := by
    intro a b hab
    have hn := h.mono (show min a n ≤ n by omega)
    have hab' := h.mono hab
    rw [extend, extend]
    split_ifs with ha hb
    · exact hab'
    · rw [min_eq_left ha.le] at hn
      omega
    · omega
    · exact le_rfl
  have hself : extend ends n f.sequence n = f.sequence := if_neg (lt_irrefl n)
  have hzero : extend ends n f.sequence 0 = ends 0 := if_pos hpos
  refine ⟨?_, hmono, ?_, ?_, ?_, ?_, ?_, ?_, ?_, ?_, ?_⟩
  · refine List.pairwise_append.mpr ⟨h.increasing, List.pairwise_singleton _ _, fun x hx y hy => ?_⟩
    obtain rfl := List.mem_singleton.mp hy
    exact lt_of_le_of_lt (h.le_ends ho hx) hf
  · intro x hx
    rw [hzero]
    rcases List.mem_append.mp hx with hx | hx
    · exact ⟨(h.bounds x hx).1, n, ((h.le_ends ho hx).trans hf.le).trans hself.ge⟩
    · obtain rfl := List.mem_singleton.mp hx
      exact ⟨lt_of_le_of_lt (h.mono (Nat.zero_le n)) hf, n, hself.ge⟩
  · intro k hk
    rcases (le_of_holds_extend hk).lt_or_eq with hlt | rfl
    · obtain ⟨x, hx, he⟩ := h.attained k ((holds_extend_of_lt hlt).mp hk)
      exact ⟨x, List.mem_append_left _ hx, by rw [extend, if_pos hlt, he]⟩
    · exact ⟨f, List.mem_append_right _ (List.mem_singleton_self f), hself.symm⟩
  · intro c hc
    have hlt := ho.rows c.number ⟨c, hc, rfl⟩
    have hrow := h.row c hc
    refine ⟨(holds_extend_of_lt hlt).mpr hrow.holds, by rw [extend, if_pos hlt, hrow.last], ?_⟩
    have hstored := hrow.stored
    rw [h.piece_extend ho hf, if_neg hlt.ne]
    split_ifs at hstored ⊢
    · exact hstored.imp_right hasFile_append.mpr
    · exact hstored
  · intro file hfile
    rw [h.piece_extend ho hf, if_neg (ho.archive file.number ⟨file, hfile, rfl⟩).ne]
    exact h.archive file hfile
  · exact names_map h.names fun file => by
      split_ifs with hnum
      · exact hnum.symm
      · rfl
  · intro file' hfile'
    obtain ⟨file, hfile, rfl⟩ := List.mem_map.mp hfile'
    rw [h.piece_extend ho hf]
    by_cases hnum : file.number = n
    · rw [if_pos hnum, if_pos rfl, ← hnum, ← h.buffer file hfile]
    · rw [if_neg hnum, if_neg hnum]
      exact h.buffer file hfile
  · intro k hk
    rcases (le_of_holds_extend hk).lt_or_eq with hlt | rfl
    · exact (h.covered k ((holds_extend_of_lt hlt).mp hk)).imp_right hasFile_append.mpr
    · exact .inr (hasFile_append.mpr ho.file)
  · intro k hrow j hj hholds
    have hlt := ho.rows k hrow
    exact h.earlier k hrow j hj ((holds_extend_of_lt (hj.trans hlt)).mp hholds)
  · intro idx hidx
    obtain ⟨hnodup, hmeta⟩ := h.index idx hidx
    refine ⟨hnodup, fun m hm => ?_⟩
    have hlt := ho.index idx hidx m hm
    exact (hmeta m hm).append hlt

lemma Open.append (ho : Open ends d n) :
    Open (extend ends n f.sequence) ((Effect.append n f bytes).apply d) n where
  pos := ho.pos
  file := hasFile_append.mpr ho.file
  flat k hk := by rw [extend, extend, if_neg (by omega), if_neg (lt_irrefl n)]
  files k hk := ho.files k (hasFile_append.mp hk)
  archive := ho.archive
  rows := ho.rows
  index := ho.index

/-! ## An evicted chunk -/

def collapse (ends : ℕ → ℕ) (n : ℕ) : ℕ → ℕ := fun k =>
  if ends (n - 1) < ends k ∧ ends k ≤ ends n then ends (n - 1) else ends k

lemma Layout.collapse_eq (h : Layout ends accepted d) (hk : Holds ends k) (hkn : k ≠ n) :
    collapse ends n k = ends k := by
  rw [collapse, if_neg]
  have := hk.2
  rcases hkn.lt_or_gt with hlt | hgt
  · have := h.mono (show k ≤ n - 1 by omega)
    omega
  · have := h.mono (show n ≤ k - 1 by omega)
    omega

lemma collapse_le (k : ℕ) : collapse ends n k ≤ ends k := by
  rw [collapse]
  split_ifs <;> omega

lemma Layout.collapse_mono (h : Layout ends accepted d) : Monotone (collapse ends n) := by
  intro a b hab
  have hle := h.mono hab
  rw [collapse, collapse]
  split_ifs <;> omega

lemma Layout.holds_collapse (h : Layout ends accepted d) :
    Holds (collapse ends n) k ↔ Holds ends k ∧ k ≠ n := by
  constructor
  · rintro ⟨hpos, hlt⟩
    have hle := h.mono (Nat.sub_le k 1)
    rw [collapse, collapse] at hlt
    refine ⟨⟨hpos, ?_⟩, ?_⟩
    · by_contra hge
      obtain he : ends (k - 1) = ends k := by omega
      rw [he] at hlt
      omega
    · rintro rfl
      split_ifs at hlt <;> omega
  · rintro ⟨hk, hkn⟩
    refine ⟨hk.1, ?_⟩
    rw [h.collapse_eq hk hkn]
    exact lt_of_le_of_lt (collapse_le _) hk.2

lemma Layout.piece_collapse (h : Layout ends accepted d) {rest : List Frame}
    (hrest : rest = accepted.filter fun x => !decide (ends (n - 1) < x.sequence ∧ x.sequence ≤ ends n))
    (hkn : k ≠ n) : piece (collapse ends n) rest k = piece ends accepted k := by
  by_cases hk : Holds ends k
  · rw [piece, piece, h.collapse_eq hk hkn, hrest, slice, slice, List.filter_filter]
    apply List.filter_congr
    intro x _
    have hk' := hk.2
    rw [collapse, Bool.eq_iff_iff]
    simp only [Bool.and_eq_true, Bool.not_eq_true', decide_eq_true_eq, decide_eq_false_iff_not]
    rcases hkn.lt_or_gt with hlt | hgt
    · have := h.mono (show k ≤ n - 1 by omega)
      split_ifs <;> omega
    · have := h.mono (show n ≤ k - 1 by omega)
      split_ifs <;> omega
  · have hsame : ends (k - 1) = ends k := by
      have hle := h.mono (Nat.sub_le k 1)
      rcases Nat.eq_zero_or_pos k with rfl | hpos
      · rfl
      · exact le_antisymm hle (not_lt.mp fun hlt => hk ⟨hpos, hlt⟩)
    rw [piece, piece, collapse, collapse, hsame, slice_self, slice_self]

lemma Layout.retained_evict (h : Layout ends accepted d) (hfile : HasFile d.buffer n) :
    (Effect.evict n).retained d accepted =
      accepted.filter fun x => !decide (ends (n - 1) < x.sequence ∧ x.sequence ≤ ends n) := by
  rw [Effect.retained]
  apply List.filter_congr
  intro x hx
  congr 1
  rw [Bool.eq_iff_iff, List.any_eq_true]
  simp only [Bool.and_eq_true, decide_eq_true_eq, List.contains_iff_mem]
  constructor
  · rintro ⟨file, hmem, rfl, hframe⟩
    rw [h.buffer file hmem] at hframe
    exact (mem_slice.mp hframe).2
  · intro hbounds
    obtain ⟨file, hmem, rfl⟩ := hfile
    refine ⟨file, hmem, rfl, ?_⟩
    rw [h.buffer file hmem]
    exact mem_slice.mpr ⟨hx, hbounds⟩

lemma Layout.evict (h : Layout ends accepted d) (hfile : HasFile d.buffer n) (hrow : ¬HasRow d n)
    (harchive : ¬HasFile d.archive n) :
    Layout (collapse ends n) ((Effect.evict n).retained d accepted) ((Effect.evict n).apply d) := by
  have hrest := h.retained_evict hfile
  have hpiece := fun k => h.piece_collapse (n := n) hrest (k := k)
  generalize (Effect.evict n).retained d accepted = rest at hrest hpiece ⊢
  have hmem : ∀ {x : Frame}, x ∈ rest ↔ x ∈ accepted ∧ ¬(ends (n - 1) < x.sequence ∧ x.sequence ≤ ends n) := by
    intro x
    rw [hrest, List.mem_filter, Bool.not_eq_true', decide_eq_false_iff_not]
  refine ⟨?_, h.collapse_mono, ?_, ?_, ?_, ?_, ?_, ?_, ?_, ?_, ?_⟩
  · rw [hrest]
    exact List.Pairwise.filter _ h.increasing
  · intro x hx
    obtain ⟨hx, hout⟩ := hmem.mp hx
    obtain ⟨hzero, k, hk⟩ := h.bounds x hx
    refine ⟨lt_of_le_of_lt (collapse_le 0) hzero, k, ?_⟩
    rw [collapse]
    split_ifs <;> omega
  · intro k hk
    obtain ⟨hk, hkn⟩ := h.holds_collapse.mp hk
    obtain ⟨x, hx, he⟩ := h.attained k hk
    have hsame := h.collapse_eq hk hkn
    refine ⟨x, hmem.mpr ⟨hx, ?_⟩, he.trans hsame.symm⟩
    rw [collapse] at hsame
    split_ifs at hsame <;> omega
  · intro c hc
    have hrow' := h.row c hc
    have hcn : c.number ≠ n := fun hnum => hrow ⟨c, hc, hnum⟩
    refine ⟨h.holds_collapse.mpr ⟨hrow'.holds, hcn⟩, by rw [h.collapse_eq hrow'.holds hcn, hrow'.last], ?_⟩
    have hstored := hrow'.stored
    rw [hpiece _ hcn]
    split_ifs at hstored ⊢
    · exact hstored.imp_right fun hf => hasFile_withoutFile.mpr ⟨hf, hcn⟩
    · exact hstored
  · intro f hf
    rw [hpiece _ fun hnum => harchive ⟨f, hf, hnum⟩]
    exact h.archive f hf
  · exact (List.filter_sublist.map _).nodup h.names
  · intro f hf
    obtain ⟨hf, hne⟩ := mem_withoutFile.mp hf
    rw [hpiece _ hne]
    exact h.buffer f hf
  · intro k hk
    obtain ⟨hk, hkn⟩ := h.holds_collapse.mp hk
    exact (h.covered k hk).imp_right fun hf => hasFile_withoutFile.mpr ⟨hf, hkn⟩
  · intro k hk j hj hholds
    exact h.earlier k hk j hj (h.holds_collapse.mp hholds).1
  · intro idx hidx
    obtain ⟨hnodup, hmeta⟩ := h.index idx hidx
    refine ⟨hnodup, fun m hm => ⟨(hmeta m hm).valid, fun hf => ?_, fun hf => ?_⟩⟩
    · obtain ⟨hf, hne⟩ := hasFile_withoutFile.mp hf
      exact h.holds_collapse.mpr ⟨(hmeta m hm).holds hf, hne⟩
    · obtain ⟨hf, hne⟩ := hasFile_withoutFile.mp hf
      rw [h.collapse_eq ((hmeta m hm).holds hf) hne, (hmeta m hm).last hf]

lemma Open.evict {k : ℕ} (ho : Open ends d n) (hne : k ≠ n) :
    Open (collapse ends k) ((Effect.evict k).apply d) n where
  pos := ho.pos
  file := hasFile_withoutFile.mpr ⟨ho.file, hne.symm⟩
  flat j hj := by rw [collapse, collapse, ho.flat j hj]
  files j hj := ho.files j (hasFile_withoutFile.mp hj).1
  archive := ho.archive
  rows := ho.rows
  index := ho.index

end

end Minicrond.Logs
