import Minicrond.Logs.Archive

/-! Every operation of the writer and the archiver keeps the layout, so a crash between any two of
them loses nothing. -/

namespace Minicrond.Logs

open Minicrond.Library

def Safe (ends : ℕ → ℕ) (accepted : List Frame) : Disk → List Effect → Prop
  | d, [] => Layout ends accepted d
  | d, e :: es => Layout ends accepted d ∧ Safe ends accepted (e.apply d) es

section

variable {ends : ℕ → ℕ} {accepted : List Frame} {d : Disk} {es es' : List Effect} {n k : ℕ} {ns : List ℕ}
  {f : ChunkFile}

lemma Safe.last (h : Safe ends accepted d es) : Layout ends accepted (applyAll d es) := by
  induction es generalizing d with
  | nil => exact h
  | cons e es ih => exact ih h.2

lemma Safe.append (h : Safe ends accepted d es) (h' : Safe ends accepted (applyAll d es) es') :
    Safe ends accepted d (es ++ es') := by
  induction es generalizing d with
  | nil => exact h'
  | cons e es ih => exact ⟨h.1, ih h.2 h'⟩

lemma Safe.single {e : Effect} (h : Layout ends accepted d) (h' : Layout ends accepted (e.apply d)) :
    Safe ends accepted d [e] := ⟨h, h'⟩

lemma applyAll_append : applyAll d (es ++ es') = applyAll (applyAll d es) es' := List.foldl_append

/-! ## Renames and removals -/

lemma rename_rows : ((Effect.rename n).apply d).rows = d.rows := by
  rw [Effect.apply]
  split <;> rfl

lemma rename_index : ((Effect.rename n).apply d).index = d.index := by
  rw [Effect.apply]
  split <;> rfl

lemma mem_rename_buffer : f ∈ ((Effect.rename n).apply d).buffer ↔ f ∈ d.buffer ∧ f.number ≠ n := by
  by_cases hfile : HasFile d.buffer n
  · obtain ⟨_, _, _, he⟩ := rename_eq hfile
    rw [he, mem_withoutFile]
  · rw [rename_eq_self hfile]
    exact ⟨fun hf => ⟨hf, fun hnum => hfile ⟨f, hf, hnum⟩⟩, fun h => h.1⟩

lemma hasFile_rename_archive :
    HasFile ((Effect.rename n).apply d).archive k ↔ HasFile d.archive k ∨ k = n ∧ HasFile d.buffer n := by
  by_cases hfile : HasFile d.buffer n
  · obtain ⟨f, _, hnum, he⟩ := rename_eq hfile
    have hcases : HasFile (withoutFile n d.archive ++ [f]) k ↔ HasFile (withoutFile n d.archive) k ∨
        f.number = k := by
      simp [HasFile, or_and_right, exists_or]
    rw [he, hcases, hasFile_withoutFile, hnum]
    by_cases hk : k = n
    · simp [hk, hfile]
    · simp [hk, Ne.symm hk]
  · rw [rename_eq_self hfile]
    simp [hfile]

lemma applyAll_renames :
    (applyAll d (ns.map .rename)).rows = d.rows ∧ (applyAll d (ns.map .rename)).index = d.index ∧
    (∀ f, f ∈ (applyAll d (ns.map .rename)).buffer ↔ f ∈ d.buffer ∧ f.number ∉ ns) ∧
    ∀ k, HasFile (applyAll d (ns.map .rename)).archive k ↔ HasFile d.archive k ∨ k ∈ ns ∧ HasFile d.buffer k := by
  induction ns generalizing d with
  | nil => simp [applyAll]
  | cons n ns ih =>
    obtain ⟨hrows, hindex, hbuffer, harchive⟩ := ih (d := (Effect.rename n).apply d)
    refine ⟨hrows.trans rename_rows, hindex.trans rename_index, fun f => ?_, fun k => ?_⟩
    · refine (hbuffer f).trans ?_
      rw [mem_rename_buffer]
      simp [and_assoc]
    · refine (harchive k).trans ?_
      have hfile : HasFile ((Effect.rename n).apply d).buffer k ↔ HasFile d.buffer k ∧ k ≠ n := by
        constructor
        · rintro ⟨f, hf, rfl⟩
          obtain ⟨hf, hne⟩ := mem_rename_buffer.mp hf
          exact ⟨⟨f, hf, rfl⟩, hne⟩
        · rintro ⟨⟨f, hf, rfl⟩, hne⟩
          exact ⟨f, mem_rename_buffer.mpr ⟨hf, hne⟩, rfl⟩
      rw [hasFile_rename_archive, hfile, List.mem_cons]
      by_cases hk : k = n
      · simp [hk]
      · simp [hk]

lemma safe_renames (h : Layout ends accepted d) (hrows : ∀ n ∈ ns, HasRow d n) :
    Safe ends accepted d (ns.map .rename) := by
  induction ns generalizing d with
  | nil => exact h
  | cons n ns ih =>
    obtain ⟨hrow, hrows⟩ := List.forall_mem_cons.mp hrows
    refine ⟨h, ih (h.rename hrow) fun k hk => ?_⟩
    rw [HasRow, rename_rows]
    exact hrows k hk

lemma safe_removal (h : Layout ends accepted d)
    (hes : ∀ e ∈ es, e = .unlinkIndex ∨ ∃ n, e = .unlink n ∧ (¬Holds ends n ∨ Kept d n)) :
    Safe ends accepted d es := by
  induction es generalizing d with
  | nil => exact h
  | cons e es ih =>
    obtain ⟨he, hrest⟩ := List.forall_mem_cons.mp hes
    rcases he with rfl | ⟨n, rfl, hn⟩
    · exact ⟨h, ih h.unlinkIndex hrest⟩
    · exact ⟨h, ih (h.unlink hn) hrest⟩

lemma applyAll_unlinks :
    (applyAll d (ns.map .unlink)).rows = d.rows ∧ (applyAll d (ns.map .unlink)).index = d.index ∧
    (applyAll d (ns.map .unlink)).archive = d.archive ∧
    ∀ f, f ∈ (applyAll d (ns.map .unlink)).buffer ↔ f ∈ d.buffer ∧ f.number ∉ ns := by
  induction ns generalizing d with
  | nil => simp [applyAll]
  | cons n ns ih =>
    obtain ⟨hrows, hindex, harchive, hbuffer⟩ := ih (d := (Effect.unlink n).apply d)
    refine ⟨hrows, hindex, harchive, fun f => ?_⟩
    refine (hbuffer f).trans ?_
    rw [Effect.apply, mem_withoutFile]
    simp [and_assoc]

end

/-! ## A batch -/

structure TransferOk (ends : ℕ → ℕ) (accepted : List Frame) (d : Disk) (t : Transfer) : Prop where
  holds : Holds ends t.number
  last : t.chunk.last = ends t.number
  file : HasFile d.buffer t.number
  stored : if t.move then 0 < t.chunk.fileBytes else t.chunk.fileBytes = 0 ∧
    t.chunk.blob = piece ends accepted t.number

structure Flushed (ns : List ℕ) (d d' : Disk) : Prop where
  rows : ∀ k, HasRow d' k ↔ HasRow d k ∨ k ∈ ns
  index : d'.index = d.index
  buffer : ∀ f, f ∈ d'.buffer ↔ f ∈ d.buffer ∧ f.number ∉ ns
  archive : ∀ k, HasFile d'.archive k → HasFile d.archive k ∨ k ∈ ns

section

variable {ends : ℕ → ℕ} {accepted : List Frame} {d : Disk} {batch left : List Transfer} {t : Transfer}
  {renames : ℕ → Bool}

lemma TransferOk.rowOk (h : TransferOk ends accepted d t) : RowOk ends accepted d t.chunk := by
  refine ⟨h.holds, h.last, ?_⟩
  have hstored := h.stored
  split_ifs at hstored ⊢ with hbytes
  · exact .inr h.file
  · omega
  · omega
  · exact hstored.2

lemma kept_commit {chunks : List Chunk} {n : ℕ} (hblob : ∀ c ∈ chunks, c.fileBytes = 0)
    (hn : Kept d n ∨ ∃ c ∈ chunks, c.number = n) : Kept ((Effect.commit chunks).apply d) n := by
  refine ⟨hasRow_commit.mpr (hn.imp_left fun h => h.1), fun c hc hnum hbytes => ?_⟩
  rcases mem_putChunks hc with hc | ⟨hc, hnew⟩
  · have := hblob c hc
    omega
  · rcases hn with h | ⟨c', hc', hnum'⟩
    · exact h.2 c hc hnum hbytes
    · exact (hnew c' hc' (hnum'.trans hnum.symm)).elim

lemma mem_blobsOf {c : Chunk} (h : c ∈ blobsOf d left) :
    ∃ t ∈ left, ∃ file ∈ d.buffer, file.number = t.number ∧
      c = { t.chunk with blob := file.frames, fileBytes := 0 } := by
  obtain ⟨t, ht, hc⟩ := List.mem_filterMap.mp h
  obtain ⟨file, hfile, rfl⟩ := Option.map_eq_some_iff.mp hc
  exact ⟨t, ht, file, List.mem_of_find?_eq_some hfile, by simpa using List.find?_some hfile, rfl⟩

lemma blobsOf_number (ht : t ∈ left) (hfile : HasFile d.buffer t.number) :
    ∃ c ∈ blobsOf d left, c.number = t.number := by
  cases hfind : d.buffer.find? (·.number = t.number) with
  | none =>
    obtain ⟨f, hf, hnum⟩ := hfile
    simp only [List.find?_eq_none, decide_eq_true_eq] at hfind
    exact (hfind f hf hnum).elim
  | some file =>
    exact ⟨{ t.chunk with blob := file.frames, fileBytes := 0 }, List.mem_filterMap.mpr ⟨t, ht, by simp [hfind]⟩,
      rfl⟩

lemma kept_batch (hnodup : (batch.map (·.number)).Nodup) (ht : t ∈ batch) (hblob : t.chunk.fileBytes = 0) :
    Kept ((Effect.commit (batch.map (·.chunk))).apply d) t.number := by
  refine ⟨hasRow_commit.mpr (.inr ⟨t.chunk, List.mem_map_of_mem ht, rfl⟩), fun c hc hnum hbytes => ?_⟩
  rcases mem_putChunks hc with hc | ⟨_, hnew⟩
  · obtain ⟨t', ht', rfl⟩ := List.mem_map.mp hc
    obtain rfl := List.inj_on_of_nodup_map hnodup ht' ht hnum
    omega
  · exact (hnew t.chunk (List.mem_map_of_mem ht) hnum.symm).elim

lemma kept_renames {n : ℕ} {ns : List ℕ} (h : Kept d n ∨ HasRow d n ∧ n ∈ ns ∧ HasFile d.buffer n) :
    Kept (applyAll d (ns.map .rename)) n := by
  obtain ⟨hrows, _, _, harchive⟩ := @applyAll_renames d ns
  rw [Kept, HasRow, hrows]
  rcases h with ⟨hrow, hfiles⟩ | ⟨hrow, hfile⟩
  · exact ⟨hrow, fun c hc hnum hbytes => (harchive n).mpr (.inl (hfiles c hc hnum hbytes))⟩
  · exact ⟨hrow, fun _ _ _ _ => (harchive n).mpr (.inr hfile)⟩

lemma Layout.commit_blobs {d' : Disk} (h : Layout ends accepted d) (h' : Layout ends accepted d')
    (hleft : ∀ t ∈ left, TransferOk ends accepted d t ∧ HasRow d' t.number) :
    Layout ends accepted ((Effect.commit (blobsOf d left)).apply d') := by
  refine h'.commit (fun c hc => ?_) fun c hc k hk hholds => .inl ?_
  · obtain ⟨t, ht, file, hfile, hnum, rfl⟩ := mem_blobsOf hc
    obtain ⟨hok, _⟩ := hleft t ht
    exact ⟨hok.holds, hok.last, (h.buffer file hfile).trans (by rw [hnum]; rfl)⟩
  · obtain ⟨t, ht, file, hfile, hnum, rfl⟩ := mem_blobsOf hc
    exact h'.earlier _ (hleft t ht).2 k hk hholds

lemma safe_blobs {d' : Disk} (h : Layout ends accepted d) (h' : Layout ends accepted d')
    (hleft : ∀ t ∈ left, TransferOk ends accepted d t ∧ HasRow d' t.number) {es : List Effect}
    (hes : es = if left = [] then [] else [.commit (blobsOf d left)]) :
    Safe ends accepted d' es ∧ (∀ k, HasRow (applyAll d' es) k ↔ HasRow d' k) ∧
      (applyAll d' es).index = d'.index ∧ (applyAll d' es).buffer = d'.buffer ∧
      (applyAll d' es).archive = d'.archive ∧
      ∀ n, Kept d' n ∨ n ∈ left.map (·.number) → Kept (applyAll d' es) n := by
  subst hes
  split_ifs with hempty
  · subst hempty
    exact ⟨h', fun _ => Iff.rfl, rfl, rfl, rfl, fun n hn => hn.resolve_right (by simp)⟩
  · refine ⟨.single h' (h.commit_blobs h' hleft), fun k => ?_, rfl, rfl, rfl, fun n hn => ?_⟩
    · refine hasRow_commit.trans ⟨fun hk => hk.elim id ?_, .inl⟩
      rintro ⟨c, hc, rfl⟩
      obtain ⟨t, ht, _, _, _, rfl⟩ := mem_blobsOf hc
      exact (hleft t ht).2
    · refine kept_commit (fun c hc => ?_) (hn.imp_right fun hn => ?_)
      · obtain ⟨_, _, _, _, _, rfl⟩ := mem_blobsOf hc
        rfl
      · obtain ⟨t, ht, rfl⟩ := List.mem_map.mp hn
        exact blobsOf_number ht (hleft t ht).1.file

lemma safe_flush (renames : ℕ → Bool) {d₀ : Disk} (h₀ : Layout ends accepted d₀)
    (hbatch₀ : ∀ t ∈ batch, TransferOk ends accepted d₀ t) (h : Layout ends accepted d)
    (hbatch : ∀ t ∈ batch, TransferOk ends accepted d t) (hnodup : (batch.map (·.number)).Nodup)
    (hearlier : ∀ t ∈ batch, ∀ k < t.number, Holds ends k → HasRow d k ∨ k ∈ batch.map (·.number)) :
    Safe ends accepted d (flush renames d₀ batch) ∧
      Flushed (batch.map (·.number)) d (applyAll d (flush renames d₀ batch)) := by
  by_cases hempty : batch = []
  · subst hempty
    exact ⟨h, by simp [flush, applyAll], rfl, by simp [flush, applyAll], fun k hk => .inl hk⟩
  rw [flush, if_neg hempty]
  set moved := (batch.filter (·.move)).takeWhile (renames ·.number) with hmoved
  set left := (batch.filter (·.move)).dropWhile (renames ·.number) with hleft
  have hmovedsub : ∀ t ∈ moved, t ∈ batch := fun t ht => List.mem_of_mem_filter (List.takeWhile_subset _ ht)
  have hleftsub : ∀ t ∈ left, t ∈ batch := fun t ht => List.mem_of_mem_filter (List.dropWhile_subset _ ht)
  -- the rows
  set d₁ := (Effect.commit (batch.map (·.chunk))).apply d with hd₁
  have hnumber : ∀ k, (∃ c ∈ batch.map (·.chunk), c.number = k) ↔ k ∈ batch.map (·.number) := by
    simp [Transfer.number]
  have hrows₁ : ∀ k, HasRow d₁ k ↔ HasRow d k ∨ k ∈ batch.map (·.number) := fun k => by
    rw [← hnumber]
    exact hasRow_commit
  have h₁ : Layout ends accepted d₁ := by
    refine h.commit ?_ ?_
    · intro c hc
      obtain ⟨t, ht, rfl⟩ := List.mem_map.mp hc
      exact (hbatch t ht).rowOk
    · intro c hc k hk hholds
      obtain ⟨t, ht, rfl⟩ := List.mem_map.mp hc
      rw [hnumber]
      exact hearlier t ht k hk hholds
  have hrow₁ : ∀ t ∈ batch, HasRow d₁ t.number := fun t ht => (hrows₁ _).mpr (.inr (List.mem_map_of_mem ht))
  -- the files that are moved
  have hsafe₂ : Safe ends accepted d₁ ((moved.map (·.number)).map .rename) := by
    refine safe_renames h₁ fun n hn => ?_
    obtain ⟨t, ht, rfl⟩ := List.mem_map.mp hn
    exact hrow₁ t (hmovedsub t ht)
  obtain ⟨hrows₂, hindex₂, hbuffer₂, harchive₂⟩ := @applyAll_renames d₁ (moved.map (·.number))
  have hkept₂ : ∀ t ∈ batch, t ∉ left → Kept (applyAll d₁ ((moved.map (·.number)).map .rename)) t.number := by
    intro t ht hnot
    cases hmove : t.move with
    | false =>
      have hstored := (hbatch t ht).stored
      rw [hmove] at hstored
      exact kept_renames (.inl (kept_batch hnodup ht hstored.1))
    | true =>
      have hmem : t ∈ moved ++ left := by
        rw [hmoved, hleft, List.takeWhile_append_dropWhile]
        exact List.mem_filter.mpr ⟨ht, hmove⟩
      have hmem := (List.mem_append.mp hmem).resolve_right hnot
      exact kept_renames (.inr ⟨hrow₁ t ht, List.mem_map_of_mem hmem, (hbatch t ht).file⟩)
  -- the files that are not
  have hleft₂ : ∀ t ∈ left,
      TransferOk ends accepted d₀ t ∧ HasRow (applyAll d₁ ((moved.map (·.number)).map .rename)) t.number := by
    intro t ht
    rw [HasRow, hrows₂]
    exact ⟨hbatch₀ t (hleftsub t ht), hrow₁ t (hleftsub t ht)⟩
  obtain ⟨hsafe₃, hrows₃, hindex₃, hbuffer₃, harchive₃, hkept₃⟩ := safe_blobs h₀ hsafe₂.last hleft₂ rfl
  set d₃ := applyAll (applyAll d₁ ((moved.map (·.number)).map .rename))
    (if left = [] then [] else [.commit (blobsOf d₀ left)])
  -- the buffer files
  have hsafe₄ : Safe ends accepted d₃ ((batch.map (·.number)).map .unlink) := by
    refine safe_removal hsafe₃.last fun e he => .inr ?_
    obtain ⟨n, hn, rfl⟩ := List.mem_map.mp he
    obtain ⟨t, ht, rfl⟩ := List.mem_map.mp hn
    refine ⟨t.number, rfl, .inr (hkept₃ _ ?_)⟩
    by_cases hmem : t ∈ left
    · exact .inr (List.mem_map_of_mem hmem)
    · exact .inl (hkept₂ t ht hmem)
  obtain ⟨hrows₄, hindex₄, harchive₄, hbuffer₄⟩ := @applyAll_unlinks d₃ (batch.map (·.number))
  refine ⟨(((Safe.single h h₁).append hsafe₂).append ?_).append ?_, ?_⟩
  · rw [applyAll_append]
    exact hsafe₃
  · rw [applyAll_append, applyAll_append]
    exact hsafe₄
  · rw [applyAll_append, applyAll_append, applyAll_append]
    refine ⟨fun k => ?_, (hindex₄.trans hindex₃).trans hindex₂, fun f => ?_, fun k hk => ?_⟩
    · have hrow : HasRow (applyAll d₃ ((batch.map (·.number)).map .unlink)) k ↔ HasRow d₃ k := by
        rw [HasRow, hrows₄, HasRow]
      have hrow' : HasRow (applyAll d₁ ((moved.map (·.number)).map .rename)) k ↔ HasRow d₁ k := by
        rw [HasRow, hrows₂, HasRow]
      exact ((hrow.trans (hrows₃ k)).trans hrow').trans (hrows₁ k)
    · refine (hbuffer₄ f).trans ?_
      rw [hbuffer₃, hbuffer₂, and_assoc]
      refine and_congr_right fun _ => and_iff_right_of_imp fun hnot hmem => hnot ?_
      obtain ⟨t, ht, hnum⟩ := List.mem_map.mp hmem
      exact List.mem_map.mpr ⟨t, hmovedsub t ht, hnum⟩
    · have hk : HasFile d₃.archive k := harchive₄ ▸ hk
      rw [harchive₃, harchive₂] at hk
      refine hk.imp_right fun ⟨hmem, _⟩ => ?_
      obtain ⟨t, ht, hnum⟩ := List.mem_map.mp hmem
      exact List.mem_map.mpr ⟨t, hmovedsub t ht, hnum⟩

end

/-! ## The writer -/

structure Current (ends : ℕ → ℕ) (d : Disk) (chunk chunkFirst seq : ℕ) : Prop where
  opened : Open ends d chunk
  last : ends chunk ≤ seq
  pos : 0 < chunkFirst
  next : chunkFirst ≤ seq + 1
  frames : chunkFirst ≤ seq → Holds ends chunk ∧ seq = ends chunk
  empty : seq < chunkFirst → ¬Holds ends chunk

/-- What the writer remembers agrees with the disk: its index lists the sealed chunks that are not yet archived. -/
structure WriterOk (ends : ℕ → ℕ) (d : Disk) (w : Writer) : Prop where
  current : w.closed = false → Current ends d w.chunk w.chunkFirst w.seq
  sorted : (w.idx.map (·.number)).Pairwise (· < ·)
  idx : ∀ m ∈ w.idx, MetaOk ends d m ∧ HasFile d.buffer m.number ∧ (w.closed = false → m.number < w.chunk)
  pending : ∀ m ∈ w.idx, ¬HasRow d m.number ∧ ¬HasFile d.archive m.number
  complete : ∀ k, Holds ends k →
    HasRow d k ∨ (∃ m ∈ w.idx, m.number = k) ∨ w.closed = false ∧ k = w.chunk

section

variable {ends : ℕ → ℕ} {accepted : List Frame} {d : Disk} {w : Writer} {bytes : ℕ}

lemma sorted_nodup {ns : List ℕ} (h : ns.Pairwise (· < ·)) : ns.Nodup := h.imp fun hlt => hlt.ne

lemma WriterOk.finishChunk (hw : WriterOk ends d w) (hopen : w.closed = false) (bytes : ℕ) :
    (((w.finishChunk bytes).2.idx.map (·.number)).Pairwise (· < ·)) ∧
    (∀ m ∈ (w.finishChunk bytes).2.idx, MetaOk ends d m ∧ HasFile d.buffer m.number ∧ m.number ≤ w.chunk) ∧
    (∀ m ∈ (w.finishChunk bytes).2.idx, ¬HasRow d m.number ∧ ¬HasFile d.archive m.number) ∧
    ∀ k, Holds ends k → HasRow d k ∨ ∃ m ∈ (w.finishChunk bytes).2.idx, m.number = k := by
  obtain ⟨ho, _, hpos, _, hframes, hempty⟩ := hw.current hopen
  have hold : ∀ m ∈ w.idx, MetaOk ends d m ∧ HasFile d.buffer m.number ∧ m.number ≤ w.chunk := fun m hm =>
    ⟨(hw.idx m hm).1, (hw.idx m hm).2.1, ((hw.idx m hm).2.2 hopen).le⟩
  rw [Writer.finishChunk]
  dsimp only
  split_ifs with hsome
  · obtain ⟨hholds, hseq⟩ := hframes hsome
    refine ⟨?_, ?_, ?_, fun k hk => ?_⟩
    · rw [List.map_append, List.pairwise_append]
      refine ⟨hw.sorted, List.pairwise_singleton _ _, fun a ha b hb => ?_⟩
      obtain ⟨m, hm, rfl⟩ := List.mem_map.mp ha
      obtain rfl := List.mem_singleton.mp hb
      exact (hw.idx m hm).2.2 hopen
    · refine List.forall_mem_append.mpr ⟨hold, List.forall_mem_singleton.mpr ⟨⟨?_, ?_, ?_⟩, ho.file, le_rfl⟩⟩
      · simp [ChunkMeta.valid, ho.pos, hpos, hsome]
      · exact fun _ => hholds
      · exact fun _ => hseq
    · refine List.forall_mem_append.mpr ⟨hw.pending,
        List.forall_mem_singleton.mpr ⟨fun hrow => ?_, fun hfile => ?_⟩⟩
      · exact lt_irrefl _ (ho.rows _ hrow)
      · exact lt_irrefl _ (ho.archive _ hfile)
    · rcases hw.complete k hk with hrow | ⟨m, hm, hnum⟩ | ⟨_, rfl⟩
      · exact .inl hrow
      · exact .inr ⟨m, List.mem_append_left _ hm, hnum⟩
      · exact .inr ⟨_, List.mem_append_right _ (List.mem_singleton_self _), rfl⟩
  · refine ⟨hw.sorted, hold, hw.pending, fun k hk => ?_⟩
    rcases hw.complete k hk with hrow | hmem | ⟨_, rfl⟩
    · exact .inl hrow
    · exact .inr hmem
    · exact (hempty (not_le.mp hsome) hk).elim

lemma hasFile_finish {n k : ℕ} : HasFile ((Effect.finish n bytes).apply d).buffer k ↔ HasFile d.buffer k := by
  apply hasFile_map
  intro f
  split_ifs <;> rfl

lemma WriterOk.close (h : Layout ends accepted d) (hw : WriterOk ends d w) (hopen : w.closed = false) (bytes : ℕ) :
    Safe ends accepted d (w.close bytes).1 ∧ WriterOk ends (applyAll d (w.close bytes).1) (w.close bytes).2 := by
  obtain ⟨hsorted, hidx, hpending, hcomplete⟩ := hw.finishChunk hopen bytes
  refine ⟨⟨h, h.finish, h.finish.writeIndex (sorted_nodup hsorted) fun m hm => ?_⟩, ?_⟩
  · exact (hidx m hm).1.mono hasFile_finish.mp
  · refine ⟨fun hclosed => by simp [Writer.close] at hclosed, hsorted, fun m hm => ?_, hpending, fun k hk => ?_⟩
    · exact ⟨(hidx m hm).1.mono hasFile_finish.mp, hasFile_finish.mpr (hidx m hm).2.1,
        fun hclosed => by simp [Writer.close] at hclosed⟩
    · exact (hcomplete k hk).imp_right .inl

lemma hasFile_create {n k : ℕ} : HasFile ((Effect.create n).apply d).buffer k ↔ HasFile d.buffer k ∨ k = n := by
  simp [Effect.apply, HasFile, or_and_right, exists_or, eq_comm]

lemma WriterOk.rotate (h : Layout ends accepted d) (hw : WriterOk ends d w) (hopen : w.closed = false)
    (bytes : ℕ) : Safe ends accepted d (w.rotate bytes).1 ∧ WriterOk ends (applyAll d (w.rotate bytes).1)
      (w.rotate bytes).2 := by
  obtain ⟨hsorted, hidx, hpending, hcomplete⟩ := hw.finishChunk hopen bytes
  obtain ⟨ho, hlast, _, _, _, _⟩ := hw.current hopen
  have hflat : ends (w.chunk + 1) = ends w.chunk := ho.flat _ (Nat.le_succ _)
  have hcreate : Layout ends accepted ((Effect.create (w.chunk + 1)).apply d) := by
    refine h.create (fun hfile => ?_) ?_ fun idx hidx m hm hnum => ?_
    · have := ho.files _ hfile
      omega
    · rw [piece, Nat.add_sub_cancel, hflat, slice_self]
    · have := ho.index idx hidx m hm
      omega
  have hfiles : ∀ k, HasFile (applyAll d (w.rotate bytes).1).buffer k ↔ HasFile d.buffer k ∨ k = w.chunk + 1 :=
    fun k => hasFile_finish.trans hasFile_create
  have hmeta : ∀ m ∈ (w.finishChunk bytes).2.idx,
      MetaOk ends ((Effect.finish w.chunk bytes).apply ((Effect.create (w.chunk + 1)).apply d)) m := by
    intro m hm
    refine (hidx m hm).1.mono fun hfile => ((hfiles _).mp hfile).resolve_right fun hnum => ?_
    have := (hidx m hm).2.2
    omega
  refine ⟨⟨h, hcreate, hcreate.finish, ?_⟩, ?_⟩
  · exact hcreate.finish.writeIndex (sorted_nodup hsorted) hmeta
  refine ⟨fun _ => ⟨⟨by dsimp [Writer.rotate]; omega, ?_, ?_, ?_, ?_, ?_, ?_⟩, ?_, ?_, ?_, ?_, ?_⟩, hsorted, ?_,
    hpending, ?_⟩
  · exact (hfiles _).mpr (.inr rfl)
  · intro k hk
    rw [ho.flat k (by dsimp [Writer.rotate] at hk; omega)]
    exact hflat.symm
  · intro k hk
    rcases (hfiles k).mp hk with hk | rfl
    · exact (ho.files k hk).trans (Nat.le_succ _)
    · exact le_rfl
  · exact fun k hk => (ho.archive k hk).trans (Nat.lt_succ_self _)
  · exact fun k hk => (ho.rows k hk).trans (Nat.lt_succ_self _)
  · rintro _ ⟨⟩ m hm
    exact Nat.lt_succ_of_le (hidx m hm).2.2
  · exact hflat.trans_le hlast
  · exact Nat.succ_pos _
  · exact le_rfl
  · exact fun hle => (Nat.not_succ_le_self _ hle).elim
  · rintro _ ⟨_, hlt⟩
    dsimp only [Writer.rotate] at hlt
    rw [Nat.add_sub_cancel, hflat] at hlt
    exact lt_irrefl _ hlt
  · exact fun m hm => ⟨(hmeta m hm).mono id, (hfiles _).mpr (.inl (hidx m hm).2.1),
      fun _ => Nat.lt_succ_of_le (hidx m hm).2.2⟩
  · exact fun k hk => (hcomplete k hk).imp_right .inl

lemma WriterOk.append (h : Layout ends accepted d) (hw : WriterOk ends d w) (hopen : w.closed = false) {f : Frame}
    (hf : f.sequence = w.seq + 1) (bytes chunkRaw : ℕ) (buffered : ℤ) :
    Layout (extend ends w.chunk f.sequence) (accepted ++ [f]) ((Effect.append w.chunk f bytes).apply d) ∧
      WriterOk (extend ends w.chunk f.sequence) ((Effect.append w.chunk f bytes).apply d)
        { w with seq := w.seq + 1, chunkRaw := chunkRaw, buffered := buffered } := by
  obtain ⟨ho, hlast, hpos, hnext, _, _⟩ := hw.current hopen
  have hchunk := ho.pos
  have hself : extend ends w.chunk f.sequence w.chunk = w.seq + 1 := (if_neg (lt_irrefl _)).trans hf
  have hholds : Holds (extend ends w.chunk f.sequence) w.chunk := by
    refine ⟨hchunk, ?_⟩
    have := h.mono (Nat.sub_le w.chunk 1)
    rw [hself, extend, if_pos (by omega)]
    omega
  refine ⟨h.append ho (by omega), fun _ => ⟨ho.append, hself.le, hpos, ?_, ?_, ?_⟩, hw.sorted, fun m hm => ?_,
    hw.pending, fun k hk => ?_⟩
  · exact hnext.trans (Nat.le_succ _)
  · exact fun _ => ⟨hholds, hself.symm⟩
  · intro hlt
    dsimp only at hlt
    omega
  · obtain ⟨hmeta, hfile, hlt⟩ := hw.idx m hm
    exact ⟨hmeta.append (hlt hopen), hasFile_append.mpr hfile, hlt⟩
  · rcases (le_of_holds_extend hk).lt_or_eq with hlt | rfl
    · exact hw.complete k ((holds_extend_of_lt hlt).mp hk)
    · exact .inr (.inr ⟨hopen, rfl⟩)

lemma WriterOk.evict {m : ChunkMeta} {ms : List ChunkMeta} (h : Layout ends accepted d)
    (hw : WriterOk ends d { w with idx := m :: ms }) (hopen : w.closed = false) :
    Layout (collapse ends m.number) ((Effect.evict m.number).retained d accepted)
      ((Effect.evict m.number).apply d) ∧
      WriterOk (collapse ends m.number) ((Effect.evict m.number).apply d) { w with idx := ms } := by
  obtain ⟨hm, hsorted⟩ := List.pairwise_cons.mp hw.sorted
  obtain ⟨⟨_, hfile, hlt⟩, hidx⟩ := List.forall_mem_cons.mp hw.idx
  obtain ⟨⟨hrow, harchive⟩, hpending⟩ := List.forall_mem_cons.mp hw.pending
  obtain ⟨ho, hlast, hpos, hnext, hframes, hempty⟩ := hw.current hopen
  have hne : w.chunk ≠ m.number := (hlt hopen).ne'
  have hkeep : ∀ m' ∈ ms, m'.number ≠ m.number := fun m' hm' => (hm _ (List.mem_map_of_mem hm')).ne'
  refine ⟨h.evict hfile hrow harchive, fun _ => ⟨ho.evict hne.symm, ?_, hpos, hnext, ?_, ?_⟩, hsorted, ?_,
    hpending, ?_⟩
  · exact (collapse_le _).trans hlast
  · intro hle
    obtain ⟨hholds, hseq⟩ := hframes hle
    exact ⟨h.holds_collapse.mpr ⟨hholds, hne⟩, by rw [h.collapse_eq hholds hne]; exact hseq⟩
  · exact fun hgt hholds => hempty hgt (h.holds_collapse.mp hholds).1
  · intro m' hm'
    obtain ⟨hmeta, hfile', hlt'⟩ := hidx m' hm'
    refine ⟨⟨hmeta.valid, fun _ => ?_, fun _ => ?_⟩, hasFile_withoutFile.mpr ⟨hfile', hkeep m' hm'⟩, hlt'⟩
    · exact h.holds_collapse.mpr ⟨hmeta.holds hfile', hkeep m' hm'⟩
    · rw [h.collapse_eq (hmeta.holds hfile') (hkeep m' hm'), hmeta.last hfile']
  · intro k hk
    obtain ⟨hk, hkn⟩ := h.holds_collapse.mp hk
    rcases hw.complete k hk with hrow | ⟨m', hm', rfl⟩ | hcurrent
    · exact .inl hrow
    · rcases List.mem_cons.mp hm' with rfl | hm'
      · exact (hkn rfl).elim
      · exact .inr (.inl ⟨m', hm', rfl⟩)
    · exact .inr (.inr hcurrent)

end

/-! ## Programs -/

/-- The layout holds now and after each of the operations, of the frames retained until then, and `P`
at the end. -/
def Steady (P : (ℕ → ℕ) → Disk → Prop) : List Frame → Disk → List Effect → Prop
  | accepted, d, [] => ∃ ends, Layout ends accepted d ∧ P ends d
  | accepted, d, e :: es => (∃ ends, Layout ends accepted d) ∧ Steady P (e.retained d accepted) (e.apply d) es

section

variable {ends : ℕ → ℕ} {accepted : List Frame} {d : Disk} {es es' : List Effect} {w : Writer} {bytes : ℕ}
  {P Q : (ℕ → ℕ) → Disk → Prop}

lemma Steady.layout (h : Steady P accepted d es) : ∃ ends, Layout ends accepted d := by
  cases es with
  | nil =>
    obtain ⟨ends, hlayout, _⟩ := h
    exact ⟨ends, hlayout⟩
  | cons e es => exact h.1

lemma Safe.steady (h : Safe ends accepted d es) (hes : ∀ e ∈ es, e.moves = true) (hP : P ends (applyAll d es)) :
    Steady P accepted d es := by
  induction es generalizing d with
  | nil => exact ⟨ends, h, hP⟩
  | cons e es ih =>
    obtain ⟨he, hrest⟩ := List.forall_mem_cons.mp hes
    refine ⟨⟨ends, h.1⟩, ?_⟩
    rw [Effect.retained_of_moves he]
    exact ih h.2 hrest hP

lemma Steady.bind (h : Steady P accepted d es)
    (hnext : ∀ ends accepted d, Layout ends accepted d → P ends d → Steady Q accepted d es') :
    Steady Q accepted d (es ++ es') := by
  induction es generalizing accepted d with
  | nil =>
    obtain ⟨ends, hlayout, hP⟩ := h
    exact hnext ends accepted d hlayout hP
  | cons e es ih => exact ⟨h.1, ih h.2⟩

lemma rotate_moves : ∀ e ∈ (w.rotate bytes).1, e.moves = true := by
  simp [Writer.rotate, Writer.finishChunk, Effect.moves]

lemma steady_rotate (h : Layout ends accepted d) (hw : WriterOk ends d w) (hopen : w.closed = false) :
    Steady (fun ends d => WriterOk ends d (w.rotate bytes).2) accepted d (w.rotate bytes).1 := by
  obtain ⟨hsafe, hw'⟩ := hw.rotate h hopen bytes
  exact hsafe.steady rotate_moves hw'

lemma steady_evict {maxBytes size : ℕ} {idx : List ChunkMeta} {buffered : ℤ} (h : Layout ends accepted d)
    (hw : WriterOk ends d { w with idx := idx }) (hopen : w.closed = false) :
    Steady (fun ends d => WriterOk ends d { w with
        idx :=
  (Writer.evict maxBytes size idx buffered).2.1, buffered := (Writer.evict maxBytes size idx buffered).2.2 })
      accepted d (Writer.evict maxBytes size idx buffered).1 := by
  induction idx generalizing ends accepted d buffered with
  | nil => exact ⟨ends, h, hw.1, hw.2, hw.3, hw.4, hw.5⟩
  | cons m ms ih =>
    rw [Writer.evict]
    split_ifs
    · obtain ⟨hlayout, hw'⟩ := hw.evict h hopen
      exact ⟨⟨ends, h⟩, ih hlayout hw'⟩
    · exact ⟨ends, h, hw.1, hw.2, hw.3, hw.4, hw.5⟩

lemma steady_makeRoom {size : ℕ} (h : Layout ends accepted d) (hw : WriterOk ends d w) (hopen : w.closed = false) :
    Steady (fun ends d => WriterOk ends d (w.makeRoom size bytes).2) accepted d (w.makeRoom size bytes).1 ∧
      (w.makeRoom size bytes).2.closed = false := by
  rw [Writer.makeRoom]
  split_ifs
  · exact ⟨(steady_rotate h hw hopen).bind fun _ _ _ h' hw' => steady_evict h' hw' hopen, hopen⟩
  · exact ⟨steady_evict h hw hopen, hopen⟩
  · exact ⟨⟨ends, h, hw⟩, hopen⟩

lemma steady_frame {f : Frame} {chunkRaw : ℕ} {buffered : ℤ} (h : Layout ends accepted d) (hw : WriterOk ends d w)
    (hopen : w.closed = false) (hf : f.sequence = w.seq + 1) :
    Steady (fun ends d => WriterOk ends d { w with seq := w.seq + 1, chunkRaw := chunkRaw, buffered := buffered })
      accepted d [.append w.chunk f bytes] := by
  obtain ⟨hlayout, hw'⟩ := hw.append h hopen hf bytes chunkRaw buffered
  exact ⟨⟨ends, h⟩, _, hlayout, hw'⟩

lemma steady_write {line : Line} {timestamp : ℤ} {bytes : ℕ × ℕ} (h : Layout ends accepted d)
    (hw : WriterOk ends d w) (hopen : w.closed = false) :
    Steady (fun ends d => WriterOk ends d (w.writeLocked line timestamp bytes).2) accepted d
      (w.writeLocked line timestamp bytes).1 := by
  rw [Writer.writeLocked]
  dsimp only
  split_ifs with hdrop hturn
  · exact ⟨ends, h, hw⟩
  all_goals obtain ⟨hroom, hopen'⟩ := steady_makeRoom h hw hopen
  · refine (hroom.bind fun _ _ _ h' hw' => steady_rotate h' hw' hopen').bind fun _ _ _ h' hw' => ?_
    exact steady_frame h' hw' hopen' rfl
  · rw [List.append_nil]
    refine hroom.bind fun _ _ _ h' hw' => ?_
    exact steady_frame h' hw' hopen' rfl

/-! ## Checkpoints -/

structure Transfers (d : Disk) (t : Transfer) (m : ChunkMeta) : Prop where
  number : t.number = m.number
  last : t.chunk.last = m.last
  stored : if t.move then 0 < t.chunk.fileBytes
    else t.chunk.fileBytes = 0 ∧ ∃ file ∈ d.buffer, file.number = m.number ∧ t.chunk.blob = file.frames

lemma takeBatch_spec {through count size : ℕ} {ms : List ChunkMeta} {batch : List Transfer}
    (h : takeBatch d through count size ms = some batch) :
    ∃ taken, taken <+: ms ∧ List.Forall₂ (Transfers d) batch taken ∧ ∀ m ∈ taken, m.number ≤ through := by
  induction ms generalizing count size batch with
  | nil =>
    obtain rfl := Option.some.inj h
    exact ⟨[], List.nil_prefix, .nil, by simp⟩
  | cons m ms ih =>
    rw [takeBatch] at h
    split_ifs at h with hstop hmove hfull
    · obtain rfl := Option.some.inj h
      exact ⟨[], List.nil_prefix, .nil, by simp⟩
    · obtain ⟨rest, hrest, rfl⟩ := Option.map_eq_some_iff.mp h
      obtain ⟨taken, hpre, hall, hle⟩ := ih hrest
      refine ⟨m :: taken, List.cons_prefix_cons.mpr ⟨rfl, hpre⟩, .cons ⟨rfl, rfl, ?_⟩ hall, ?_⟩
      · have : 0 < fileChunkMin := by decide
        exact lt_of_lt_of_le this hmove
      · exact List.forall_mem_cons.mpr ⟨by omega, hle⟩
    · obtain rfl := Option.some.inj h
      exact ⟨[], List.nil_prefix, .nil, by simp⟩
    · obtain ⟨file, hfile, h⟩ := Option.bind_eq_some_iff.mp h
      obtain ⟨rest, hrest, h⟩ := Option.bind_eq_some_iff.mp h
      obtain rfl := Option.some.inj h
      obtain ⟨taken, hpre, hall, hle⟩ := ih hrest
      refine ⟨m :: taken, List.cons_prefix_cons.mpr ⟨rfl, hpre⟩, .cons ⟨rfl, rfl, rfl, file, ?_, ?_, rfl⟩ hall, ?_⟩
      · exact List.mem_of_find?_eq_some hfile
      · simpa using List.find?_some hfile
      · exact List.forall_mem_cons.mpr ⟨by omega, hle⟩

lemma transferOk {batch : List Transfer} {taken : List ChunkMeta} (h : Layout ends accepted d)
    (hmeta : ∀ m ∈ taken, MetaOk ends d m ∧ HasFile d.buffer m.number)
    (hall : List.Forall₂ (Transfers d) batch taken) :
    batch.map (·.number) = taken.map (·.number) ∧ ∀ t ∈ batch, TransferOk ends accepted d t := by
  induction hall with
  | nil => simp
  | cons hhead _ ih =>
    obtain ⟨⟨hok, hfile⟩, hrest⟩ := List.forall_mem_cons.mp hmeta
    obtain ⟨hnumbers, hbatch⟩ := ih hrest
    refine ⟨by rw [List.map_cons, List.map_cons, hhead.number, hnumbers], List.forall_mem_cons.mpr ⟨?_, hbatch⟩⟩
    refine ⟨hhead.number ▸ hok.holds hfile, ?_, hhead.number ▸ hfile, ?_⟩
    · rw [hhead.last, hok.last hfile, hhead.number]
    · have hstored := hhead.stored
      split_ifs at hstored ⊢
      · exact hstored
      · obtain ⟨hbytes, file, hfile, hnum, hblob⟩ := hstored
        exact ⟨hbytes, by rw [hblob, h.buffer file hfile, hnum, hhead.number]⟩

lemma flush_moves {renames : ℕ → Bool} {d₀ : Disk} {batch : List Transfer} :
    ∀ e ∈ flush renames d₀ batch, e.moves = true := by
  rw [flush]
  dsimp only
  split_ifs
  · simp
  all_goals
    intro e he
    simp only [List.mem_append, List.mem_map, List.mem_singleton, List.not_mem_nil] at he
    rcases he with ((rfl | ⟨n, _, rfl⟩) | hmid) | ⟨n, _, rfl⟩
    · rfl
    · rfl
    · simp_all [Effect.moves]
    · rfl

lemma WriterOk.batch {renames : ℕ → Bool} {through : ℕ} {w' : Writer} (h : Layout ends accepted d)
    (hw : WriterOk ends d w) (hbatch : archiveBatchLocked renames d w through = some (es, w')) :
    Safe ends accepted d es ∧ (∀ e ∈ es, e.moves = true) ∧ WriterOk ends (applyAll d es) w' := by
  rw [archiveBatchLocked] at hbatch
  obtain ⟨batch, htake, hbatch⟩ := Option.bind_eq_some_iff.mp hbatch
  obtain ⟨taken, ⟨rest, hidx⟩, hall, _⟩ := takeBatch_spec htake
  split_ifs at hbatch with hempty hmoves
  · obtain ⟨rfl, rfl⟩ := Prod.ext_iff.mp (Option.some.inj hbatch)
    exact ⟨h, by simp, hw⟩
  · obtain ⟨rfl, rfl⟩ := Prod.ext_iff.mp (Option.some.inj hbatch)
    have hsub : ∀ m ∈ taken, m ∈ w.idx := fun m hm => hidx ▸ List.mem_append_left _ hm
    have hsorted := hw.sorted
    rw [← hidx, List.map_append, List.pairwise_append] at hsorted
    obtain ⟨hnumbers, hok⟩ :=
      transferOk h (fun m hm => ⟨(hw.idx m (hsub m hm)).1, (hw.idx m (hsub m hm)).2.1⟩) hall
    have hdrop : w.idx.drop batch.length = rest := by
      rw [← hidx, hall.length_eq, List.drop_left]
    have hearlier : ∀ t ∈ batch, ∀ k < t.number, Holds ends k → HasRow d k ∨ k ∈ batch.map (·.number) := by
      intro t ht k hk hholds
      rw [hnumbers]
      obtain ⟨m, hm, hnum⟩ := List.mem_map.mp (hnumbers ▸ List.mem_map_of_mem ht)
      rcases hw.complete k hholds with hrow | ⟨m', hm', rfl⟩ | ⟨hopen, rfl⟩
      · exact .inl hrow
      · rw [← hidx] at hm'
        rcases List.mem_append.mp hm' with hm' | hm'
        · exact .inr (List.mem_map_of_mem hm')
        · have := hsorted.2.2 m.number (List.mem_map_of_mem hm) m'.number (List.mem_map_of_mem hm')
          omega
      · have := (hw.idx m (hsub m hm)).2.2 hopen
        omega
    obtain ⟨hsafe, hflushed⟩ := safe_flush renames h hok h hok
      (hnumbers ▸ sorted_nodup hsorted.1) hearlier
    have hgone : ∀ {k}, k ∈ batch.map (·.number) → w.closed = false → k < w.chunk := by
      intro k hk hopen
      obtain ⟨m, hm, rfl⟩ := List.mem_map.mp (hnumbers ▸ hk)
      exact (hw.idx m (hsub m hm)).2.2 hopen
    have hstays : ∀ {k}, HasFile d.buffer k → k ∉ batch.map (·.number) →
        HasFile (applyAll d (flush renames d batch)).buffer k := by
      rintro k ⟨f, hf, rfl⟩ hnot
      exact ⟨f, (hflushed.buffer f).mpr ⟨hf, hnot⟩, rfl⟩
    have hrest : ∀ m ∈ rest, m ∈ w.idx := fun m hm => hidx ▸ List.mem_append_right _ hm
    have hother : ∀ m ∈ rest, m.number ∉ batch.map (·.number) := by
      intro m hm hmem
      rw [hnumbers] at hmem
      exact (hsorted.2.2 _ hmem _ (List.mem_map_of_mem hm)).false
    have hmeta : ∀ m ∈ rest, MetaOk ends (applyAll d (flush renames d batch)) m := by
      intro m hm
      refine (hw.idx m (hrest m hm)).1.mono ?_
      rintro ⟨f, hf, hnum⟩
      exact ⟨f, ((hflushed.buffer f).mp hf).1, hnum⟩
    rw [hdrop]
    refine ⟨hsafe.append ⟨hsafe.last, hsafe.last.writeIndex (sorted_nodup hsorted.2.1) hmeta⟩, ?_, ?_⟩
    · exact List.forall_mem_append.mpr ⟨flush_moves, List.forall_mem_singleton.mpr rfl⟩
    · rw [applyAll_append]
      refine ⟨fun hopen => ?_, hsorted.2.1, fun m hm => ?_, fun m hm => ⟨fun hrow => ?_, fun hfile => ?_⟩,
        fun k hk => ?_⟩
      · have ho := (hw.current hopen).opened
        refine { hw.current hopen with
          opened := ⟨ho.pos, hstays ho.file fun hmem => (hgone hmem hopen).false, ho.flat, ?_, ?_, ?_, ?_⟩ }
        · rintro k ⟨f, hf, rfl⟩
          exact ho.files _ ⟨f, ((hflushed.buffer f).mp hf).1, rfl⟩
        · exact fun k hk => (hflushed.archive k hk).elim (ho.archive k) fun hmem => hgone hmem hopen
        · exact fun k hk => ((hflushed.rows k).mp hk).elim (ho.rows k) fun hmem => hgone hmem hopen
        · rintro _ ⟨⟩ m hm
          exact (hw.idx m (hrest m hm)).2.2 hopen
      · obtain ⟨_, hfile, hlt⟩ := hw.idx m (hrest m hm)
        exact ⟨(hmeta m hm).mono id, hstays hfile (hother m hm), hlt⟩
      · exact ((hflushed.rows _).mp hrow).elim (hw.pending m (hrest m hm)).1 (hother m hm)
      · exact (hflushed.archive _ hfile).elim (hw.pending m (hrest m hm)).2 (hother m hm)
      · rcases hw.complete k hk with hrow | ⟨m, hm, rfl⟩ | hcurrent
        · exact .inl ((hflushed.rows k).mpr (.inl hrow))
        · rw [← hidx] at hm
          rcases List.mem_append.mp hm with hm | hm
          · exact .inl ((hflushed.rows _).mpr (.inr (hnumbers ▸ List.mem_map_of_mem hm)))
          · exact .inr (.inl ⟨m, hm, rfl⟩)
        · exact .inr (.inr hcurrent)

end

end Minicrond.Logs
