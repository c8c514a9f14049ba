import Minicrond.Logs.ArchiveSafety

/-! Buffers without a writer: the orphan sweep, the batch of short runs and the sweep of archived files keep the
layout after each operation, and leave nothing in the buffer. -/

namespace Minicrond.Logs

open Minicrond.Library

section

variable {ends : ℕ → ℕ} {accepted : List Frame} {d : Disk} {sealed : List ChunkMeta} {f : ChunkFile}

lemma orphanLoop_batches {g : List Transfer → List Effect} {encoded : Chunk → ℕ} {batch : List Transfer} {size : ℕ}
    {fs : List ChunkFile} :
    ∃ batches : List (List Transfer), batches.flatten = batch ++ fs.filterMap (orphanTransfer sealed) ∧
      orphanLoop g encoded sealed batch size fs = batches.flatMap g := by
  induction fs generalizing batch size with
  | nil => exact ⟨[batch], by simp, by simp [orphanLoop]⟩
  | cons f fs ih =>
    have hcons : (f :: fs).filterMap (orphanTransfer sealed) =
        (orphanTransfer sealed f).toList ++ fs.filterMap (orphanTransfer sealed) := by
      cases h : orphanTransfer sealed f <;> simp [h]
    -- a batch that is written before the file
    have hspill : ∀ (xs : List Transfer) (size' : ℕ), ∃ batches : List (List Transfer),
        batches.flatten = batch ++ xs ++ fs.filterMap (orphanTransfer sealed) ∧
          g batch ++ orphanLoop g encoded sealed xs size' fs = batches.flatMap g := by
      intro xs size'
      obtain ⟨batches, hflat, he⟩ := @ih xs size'
      exact ⟨batch :: batches, by simp [hflat], by simp [he]⟩
    have hkeep : ∀ (xs : List Transfer) (size' : ℕ), ∃ batches : List (List Transfer),
        batches.flatten = batch ++ xs ++ fs.filterMap (orphanTransfer sealed) ∧
          orphanLoop g encoded sealed (batch ++ xs) size' fs = batches.flatMap g := fun xs size' => ih
    rw [hcons, ← List.append_assoc, orphanLoop]
    split_ifs with hmove hfull
    · exact hspill _ 0
    · exact hkeep _ size
    · dsimp only
      split_ifs with hfull'
      · cases h : orphanTransfer sealed f with
        | none => exact hspill [] 0
        | some t => simpa using hspill [t] (encoded t.chunk)
      · cases h : orphanTransfer sealed f with
        | none => simpa using hkeep [] size
        | some t =>
          dsimp only
          split_ifs with hagain
          · simpa using hspill [t] (encoded t.chunk)
          · simpa using hkeep [t] (size + encoded t.chunk)

lemma Layout.not_holds (h : Layout ends accepted d) {n : ℕ} (hn : piece ends accepted n = []) : ¬Holds ends n := by
  intro hholds
  obtain ⟨x, hx, he⟩ := h.attained n hholds
  have hmem : x ∈ piece ends accepted n := mem_slice.mpr ⟨hx, by have := hholds.2; omega, he.le⟩
  rw [hn] at hmem
  simp at hmem

lemma Layout.piece_last (h : Layout ends accepted d) {n : ℕ} (hne : piece ends accepted n ≠ []) :
    Holds ends n ∧ ((piece ends accepted n).getLast hne).sequence = ends n := by
  obtain ⟨hx, hlow, hhigh⟩ := mem_slice.mp (List.getLast_mem hne)
  have hholds : Holds ends n := by
    refine ⟨?_, by omega⟩
    by_contra hz
    obtain rfl := Nat.eq_zero_of_not_pos hz
    exact hne slice_self
  refine ⟨hholds, le_antisymm hhigh ?_⟩
  obtain ⟨y, hy, he⟩ := h.attained n hholds
  have hmem : y ∈ piece ends accepted n := mem_slice.mpr ⟨hy, by omega, he.le⟩
  rw [← he]
  exact Increasing.le_getLast h.increasing.slice hne hmem

lemma salvage_spec :
    (salvage f = none ∧ f.frames = []) ∨
      ∃ c hne, salvage f = some c ∧ c.number = f.number ∧ c.last = (f.frames.getLast hne).sequence ∧
        c.blob = f.frames ∧ c.fileBytes = 0 := by
  rw [salvage]
  split
  · rename_i hframes
    exact .inl ⟨rfl, hframes⟩
  · rename_i frame frames hframes
    refine .inr ⟨_, by simp [hframes], rfl, rfl, ?_, hframes.symm, rfl⟩
    simp [hframes]

lemma orphanTransfer_spec (h : Layout ends accepted d) (hsealed : ∀ m ∈ sealed, MetaOk ends d m)
    (hf : f ∈ d.buffer) :
    (orphanTransfer sealed f = none ∧ ¬Holds ends f.number) ∨
      ∃ t, orphanTransfer sealed f = some t ∧ t.number = f.number ∧ TransferOk ends accepted d t := by
  have hfile : HasFile d.buffer f.number := ⟨f, hf, rfl⟩
  have hframes := h.buffer f hf
  rw [orphanTransfer]
  cases hfind : sealed.find? (·.number = f.number) with
  | some m =>
    have hm := hsealed m (List.mem_of_find?_eq_some hfind)
    have hnum : m.number = f.number := by simpa using List.find?_some hfind
    have hholds : Holds ends f.number := hnum ▸ hm.holds (hnum ▸ hfile)
    have hlast : m.last = ends f.number := by rw [hm.last (hnum ▸ hfile), hnum]
    right
    dsimp only
    split_ifs with hmove
    · have hmin : 0 < fileChunkMin := by decide
      exact ⟨_, rfl, rfl, hholds, hlast, hfile, lt_of_lt_of_le hmin hmove⟩
    · exact ⟨_, rfl, rfl, hholds, hlast, hfile, rfl, hframes⟩
  | none =>
    dsimp only
    rcases salvage_spec (f := f) with ⟨hnone, hempty⟩ | ⟨c, hne, hsome, hnum, hlast, hblob, hbytes⟩
    · exact .inl ⟨by rw [hnone]; rfl, h.not_holds (hframes ▸ hempty)⟩
    · right
      obtain ⟨hholds, hend⟩ := h.piece_last (hframes ▸ hne)
      simp only [hframes] at hlast hblob
      refine ⟨⟨c, false⟩, by rw [hsome]; rfl, hnum, ⟨?_, ?_, ?_, hbytes, ?_⟩⟩
      · rw [Transfer.number, hnum]
        exact hholds
      · exact (hlast.trans hend).trans (congrArg ends hnum.symm)
      · rw [Transfer.number, hnum]
        exact hfile
      · rw [hblob, Transfer.number, hnum]

lemma safe_batches (renames : ℕ → Bool) {d₀ : Disk} (h₀ : Layout ends accepted d₀) {batches : List (List Transfer)}
    (hok₀ : ∀ t ∈ batches.flatten, TransferOk ends accepted d₀ t) (h : Layout ends accepted d)
    (hok : ∀ t ∈ batches.flatten, TransferOk ends accepted d t)
    (hsorted : (batches.flatten.map (·.number)).Pairwise (· < ·))
    (hall : ∀ k, Holds ends k → HasRow d k ∨ k ∈ batches.flatten.map (·.number)) :
    Safe ends accepted d (batches.flatMap (flush renames d₀)) ∧
      Flushed (batches.flatten.map (·.number)) d (applyAll d (batches.flatMap (flush renames d₀))) := by
  induction batches generalizing d with
  | nil => exact ⟨h, by simp [applyAll], rfl, by simp [applyAll], fun k hk => .inl hk⟩
  | cons batch batches ih =>
    simp only [List.flatten_cons, List.map_append, List.mem_append, List.flatMap_cons] at hok₀ hok hsorted hall ⊢
    obtain ⟨hfirst, hrest, hcross⟩ := List.pairwise_append.mp hsorted
    obtain ⟨hsafe, hflushed⟩ :=
      safe_flush renames h₀ (fun t ht => hok₀ t (.inl ht)) h (fun t ht => hok t (.inl ht))
        (sorted_nodup hfirst) fun t ht k hk hholds =>
        (hall k hholds).imp_right fun hmem => hmem.resolve_right fun hlater => by
        have := hcross t.number (List.mem_map_of_mem ht) k hlater
        omega
    have hok' : ∀ t ∈ batches.flatten, TransferOk ends accepted (applyAll d (flush renames d₀ batch)) t := by
      intro t ht
      obtain ⟨hholds, hlast, ⟨f, hf, hnum⟩, hstored⟩ := hok t (.inr ht)
      refine ⟨hholds, hlast, ⟨f, (hflushed.buffer f).mpr ⟨hf, fun hmem => ?_⟩, hnum⟩, hstored⟩
      exact (hcross f.number hmem t.number (List.mem_map_of_mem ht)).ne hnum
    obtain ⟨hsafe', hflushed'⟩ := ih (fun t ht => hok₀ t (.inr ht)) hsafe.last hok' hrest fun k hholds => by
      rw [hflushed.rows, or_assoc]
      exact hall k hholds
    refine ⟨hsafe.append hsafe', ?_⟩
    rw [applyAll_append]
    refine ⟨fun k => ?_, hflushed'.index.trans hflushed.index, fun f => ?_, fun k hk => ?_⟩
    · rw [hflushed'.rows, hflushed.rows, List.mem_append, or_assoc]
    · rw [hflushed'.buffer, hflushed.buffer, List.mem_append, not_or, and_assoc]
    · rw [List.mem_append, ← or_assoc]
      exact (hflushed'.archive k hk).imp_left (hflushed.archive k)

lemma readOrphanIndex_ok {seen idx : List ChunkMeta} (hvalid : ∀ m ∈ idx, m.valid = true)
    (hnodup : ((seen ++ idx).map (·.number)).Nodup) : readOrphanIndex seen idx = .ok (seen ++ idx) := by
  induction idx generalizing seen with
  | nil => rw [readOrphanIndex, List.append_nil]
  | cons m ms ih =>
    obtain ⟨hm, hms⟩ := List.forall_mem_cons.mp hvalid
    have hnew : seen.any (·.number = m.number) = false := by
      rw [List.any_eq_false]
      intro s hs
      rw [List.map_append, List.nodup_append] at hnodup
      simpa using hnodup.2.2 s.number (List.mem_map_of_mem hs) m.number (by simp)
    rw [readOrphanIndex, hm, hnew]
    simp only [Bool.not_true, Bool.false_eq_true, if_false]
    rw [ih hms (by simpa using hnodup), List.append_assoc]
    rfl

lemma Layout.index_ok (h : Layout ends accepted d) :
    ((d.index.getD []).map (·.number)).Nodup ∧ ∀ m ∈ d.index.getD [], MetaOk ends d m := by
  cases hidx : d.index with
  | none => simp
  | some idx => exact h.index idx hidx

lemma Layout.readOrphanIndex (h : Layout ends accepted d) :
    readOrphanIndex [] (d.index.getD []) = .ok (d.index.getD []) :=
  readOrphanIndex_ok (fun m hm => (h.index_ok.2 m hm).valid) h.index_ok.1

lemma Layout.chunkFiles_sorted (h : Layout ends accepted d) :
    ((chunkFiles d).map (·.number)).Pairwise (· < ·) := by
  have hperm := List.perm_insertionSort (fun a b : ChunkFile => a.number ≤ b.number) d.buffer
  have hnodup : ((chunkFiles d).map (·.number)).Nodup := (hperm.map _).nodup_iff.mpr h.names
  have hle : ((chunkFiles d).map (·.number)).Pairwise (· ≤ ·) :=
    List.pairwise_map.mpr (List.pairwise_insertionSort _ _)
  exact (hle.and hnodup).imp fun h => lt_of_le_of_ne h.1 h.2

lemma filterMap_numbers {fs : List ChunkFile} {g : ChunkFile → Option Transfer}
    (hg : ∀ f ∈ fs, ∀ t, g f = some t → t.number = f.number) :
    ((fs.filterMap g).map (·.number)).Sublist (fs.map (·.number)) := by
  induction fs with
  | nil => simp
  | cons f fs ih =>
    obtain ⟨hf, hfs⟩ := List.forall_mem_cons.mp hg
    cases h : g f with
    | none =>
      rw [List.filterMap_cons_none h]
      exact (ih hfs).cons _
    | some t =>
      rw [List.filterMap_cons_some h, List.map_cons, List.map_cons, hf t h]
      exact (ih hfs).cons_cons _

/-! ## Removing the buffer -/

def Removes (e : Effect) : Prop := e = .unlinkIndex ∨ ∃ n, e = .unlink n

variable {es : List Effect}

lemma removes_removeAll (h : es.Perm (removeAll d)) : ∀ e ∈ es, Removes e := by
  intro e he
  rcases List.mem_cons.mp (h.mem_iff.mp he) with rfl | he
  · exact .inl rfl
  · obtain ⟨f, _, rfl⟩ := List.mem_map.mp he
    exact .inr ⟨f.number, rfl⟩

lemma removes_moves (h : ∀ e ∈ es, Removes e) : ∀ e ∈ es, e.moves = true := by
  intro e he
  rcases h e he with rfl | ⟨n, rfl⟩ <;> rfl

lemma applyAll_removes (h : ∀ e ∈ es, Removes e) :
    (∀ f ∈ (applyAll d es).buffer, f ∈ d.buffer ∧ .unlink f.number ∉ es) ∧
      (d.index = none ∨ .unlinkIndex ∈ es → (applyAll d es).index = none) := by
  induction es generalizing d with
  | nil => simp [applyAll]
  | cons e es ih =>
    obtain ⟨he, hes⟩ := List.forall_mem_cons.mp h
    obtain ⟨hbuffer, hindex⟩ := ih (d := e.apply d) hes
    rcases he with rfl | ⟨n, rfl⟩
    · exact ⟨fun f hf => ⟨(hbuffer f hf).1, by simpa using (hbuffer f hf).2⟩, fun _ => hindex (.inl rfl)⟩
    · refine ⟨fun f hf => ?_, fun hnone => hindex (hnone.imp_right fun hmem => by simpa using hmem)⟩
      obtain ⟨hmem, hnot⟩ := hbuffer f hf
      obtain ⟨hmem, hne⟩ := mem_withoutFile.mp hmem
      exact ⟨hmem, by simpa [hne] using hnot⟩

lemma removeAll_empties (h : es.Perm (removeAll d)) :
    (applyAll d es).buffer = [] ∧ (applyAll d es).index = none := by
  obtain ⟨hbuffer, hindex⟩ := applyAll_removes (d := d) (removes_removeAll h)
  refine ⟨List.eq_nil_iff_forall_not_mem.mpr fun f hf => ?_, hindex (.inr (h.mem_iff.mpr List.mem_cons_self))⟩
  obtain ⟨hf, hnot⟩ := hbuffer f hf
  exact hnot (h.mem_iff.mpr (List.mem_cons_of_mem _ (List.mem_map.mpr ⟨f, hf, rfl⟩)))

/-! ## The sweeps -/

lemma archiveOrphan_ok (h : Layout ends accepted d) (renames : ℕ → Bool) (encoded : Chunk → ℕ) :
    archiveOrphan renames encoded d =
      .ok (orphanLoop (flush renames d) encoded (d.index.getD []) [] 0 (chunkFiles d)) := by
  rw [archiveOrphan, h.readOrphanIndex]
  rfl

lemma Layout.archiveOrphan (h : Layout ends accepted d) {renames : ℕ → Bool} {encoded : Chunk → ℕ}
    {removal : List Effect} (horphan : archiveOrphan renames encoded d = .ok es)
    (hremoval : removal.Perm (removeAll (applyAll d es))) :
    Safe ends accepted d (es ++ removal) ∧ (∀ e ∈ es ++ removal, e.moves = true) ∧
      (applyAll d (es ++ removal)).buffer = [] ∧ (applyAll d (es ++ removal)).index = none := by
  rw [archiveOrphan_ok h] at horphan
  obtain rfl := Except.ok.inj horphan
  have hsealed := h.index_ok.2
  have hspec := fun f hf => orphanTransfer_spec (f := f) h hsealed (mem_chunkFiles.mp hf)
  obtain ⟨batches, hflat, he⟩ :=
    @orphanLoop_batches (d.index.getD []) (flush renames d) encoded [] 0 (chunkFiles d)
  rw [List.nil_append] at hflat
  rw [he] at hremoval ⊢
  have hok : ∀ t ∈ batches.flatten, TransferOk ends accepted d t := by
    intro t ht
    obtain ⟨f, hf, hsome⟩ := List.mem_filterMap.mp (hflat ▸ ht)
    rcases hspec f hf with ⟨hnone, _⟩ | ⟨t', ht', _, hok⟩
    · simp [hnone] at hsome
    · rw [ht'] at hsome
      exact Option.some.inj hsome ▸ hok
  have hsorted : (batches.flatten.map (·.number)).Pairwise (· < ·) := by
    rw [hflat]
    refine h.chunkFiles_sorted.sublist (filterMap_numbers fun f hf t hsome => ?_)
    rcases hspec f hf with ⟨hnone, _⟩ | ⟨t', ht', hnum, _⟩
    · simp [hnone] at hsome
    · rw [ht'] at hsome
      exact Option.some.inj hsome ▸ hnum
  -- a file without a row has no frames
  have hempty : ∀ f ∈ d.buffer, f.number ∉ batches.flatten.map (·.number) → ¬Holds ends f.number := by
    intro f hf hnot
    rcases hspec f (mem_chunkFiles.mpr hf) with ⟨_, hholds⟩ | ⟨t, ht, hnum, _⟩
    · exact hholds
    · rw [hflat] at hnot
      exact (hnot (List.mem_map.mpr ⟨t, List.mem_filterMap.mpr ⟨f, mem_chunkFiles.mpr hf, ht⟩, hnum⟩)).elim
  obtain ⟨hsafe, hflushed⟩ := safe_batches renames h hok h hok hsorted fun k hholds => by
    refine (h.covered k hholds).imp_right ?_
    rintro ⟨f, hf, rfl⟩
    by_contra hnot
    exact hempty f hf hnot hholds
  refine ⟨hsafe.append (safe_removal hsafe.last fun e he => ?_), ?_, ?_⟩
  · rcases List.mem_cons.mp (hremoval.mem_iff.mp he) with rfl | he
    · exact .inl rfl
    · obtain ⟨f, hf, rfl⟩ := List.mem_map.mp he
      obtain ⟨hf, hnot⟩ := (hflushed.buffer f).mp hf
      exact .inr ⟨f.number, rfl, .inl (hempty f hf hnot)⟩
  · refine List.forall_mem_append.mpr ⟨fun e he => ?_, removes_moves (removes_removeAll hremoval)⟩
    obtain ⟨batch, _, he⟩ := List.mem_flatMap.mp he
    exact flush_moves e he
  · rw [applyAll_append]
    exact removeAll_empties hremoval

lemma mapM_some {α β : Type*} {g : α → Option β} {xs : List α} {ys : List β} (h : xs.mapM g = some ys) :
    (∀ y ∈ ys, ∃ x ∈ xs, g x = some y) ∧ ∀ x ∈ xs, ∃ y ∈ ys, g x = some y := by
  induction xs generalizing ys with
  | nil =>
    obtain rfl : ys = [] := by simpa using h.symm
    simp
  | cons x xs ih =>
    simp only [List.mapM_cons, Option.bind_eq_bind, Option.bind_eq_some_iff, Option.pure_def,
      Option.some.injEq] at h
    obtain ⟨y, hy, ys, hys, rfl⟩ := h
    obtain ⟨hleft, hright⟩ := ih hys
    constructor
    · refine List.forall_mem_cons.mpr ⟨⟨x, List.mem_cons_self, hy⟩, fun z hz => ?_⟩
      obtain ⟨x', hx', he⟩ := hleft z hz
      exact ⟨x', List.mem_cons_of_mem _ hx', he⟩
    · refine List.forall_mem_cons.mpr ⟨⟨y, List.mem_cons_self, hy⟩, fun z hz => ?_⟩
      obtain ⟨y', hy', he⟩ := hright z hz
      exact ⟨y', List.mem_cons_of_mem _ hy', he⟩

lemma shortChunk_spec {c : Chunk} (hsealed : ∀ m ∈ sealed, MetaOk ends d m) (hf : f ∈ d.buffer)
    (hc : shortChunk sealed f = some c) :
    c.number = f.number ∧ Holds ends f.number ∧ c.last = ends f.number ∧ c.blob = f.frames ∧ c.fileBytes = 0 := by
  simp only [shortChunk, Option.bind_eq_bind, Option.bind_eq_some_iff] at hc
  obtain ⟨m, hm, hc⟩ := hc
  have hnum : m.number = f.number := by simpa using List.find?_some hm
  have hfile : HasFile d.buffer m.number := ⟨f, hf, hnum.symm⟩
  have hholds := (hsealed m (List.mem_of_find?_eq_some hm)).holds hfile
  have hlast := (hsealed m (List.mem_of_find?_eq_some hm)).last hfile
  rw [hnum] at hholds hlast
  split_ifs at hc
  obtain rfl := Option.some.inj hc
  exact ⟨rfl, hholds, hlast, rfl, rfl⟩

lemma Layout.short (h : Layout ends accepted d) {chunks : List Chunk} {removal : List Effect}
    (hshort : loadShortRun d = some chunks) (hremoval : removal.Perm (removeAll d)) :
    Safe ends accepted d (.commit chunks :: removal) ∧ ∀ e ∈ Effect.commit chunks :: removal, e.moves = true := by
  rw [loadShortRun, h.readOrphanIndex] at hshort
  dsimp only at hshort
  split_ifs at hshort
  obtain ⟨hfrom, hto⟩ := mapM_some hshort
  have hspec : ∀ c ∈ chunks, RowOk ends accepted d c ∧ c.fileBytes = 0 := by
    intro c hc
    obtain ⟨f, hf, he⟩ := hfrom c hc
    obtain ⟨hnum, hholds, hlast, hblob, hbytes⟩ := shortChunk_spec h.index_ok.2 (mem_chunkFiles.mp hf) he
    refine ⟨⟨hnum ▸ hholds, hnum ▸ hlast, ?_⟩, hbytes⟩
    rw [if_neg (by omega), hblob, hnum, h.buffer f (mem_chunkFiles.mp hf)]
  have hrow : ∀ f ∈ d.buffer, ∃ c ∈ chunks, c.number = f.number := by
    intro f hf
    obtain ⟨c, hc, he⟩ := hto f (mem_chunkFiles.mpr hf)
    exact ⟨c, hc, (shortChunk_spec h.index_ok.2 hf he).1⟩
  have hcommit : Layout ends accepted ((Effect.commit chunks).apply d) := by
    refine h.commit (fun c hc => (hspec c hc).1) fun c _ k _ hholds => (h.covered k hholds).imp_right ?_
    rintro ⟨f, hf, rfl⟩
    exact hrow f hf
  refine ⟨⟨h, safe_removal hcommit fun e he => ?_⟩, ?_⟩
  · rcases List.mem_cons.mp (hremoval.mem_iff.mp he) with rfl | he
    · exact .inl rfl
    · obtain ⟨f, hf, rfl⟩ := List.mem_map.mp he
      exact .inr ⟨f.number, rfl, .inr (kept_commit (fun c hc => (hspec c hc).2) (.inr (hrow f hf)))⟩
  · exact List.forall_mem_cons.mpr ⟨rfl, removes_moves (removes_removeAll hremoval)⟩

lemma Layout.sweepRunFiles (h : Layout ends accepted d) :
    Safe ends accepted d (sweepRunFiles d) ∧ ∀ e ∈ sweepRunFiles d, e.moves = true := by
  have hnone : ∀ e ∈ Logs.sweepRunFiles d,
      ∃ n, e = .unlinkArchived n ∧ ∀ c ∈ d.rows, c.number = n → c.fileBytes = 0 := by
    intro e he
    obtain ⟨f, hf, rfl⟩ := List.mem_map.mp he
    refine ⟨f.number, rfl, fun c hc hnum => ?_⟩
    have hfree := (List.mem_filter.mp hf).2
    simp only [Bool.not_eq_true', List.any_eq_false] at hfree
    simpa [hnum] using hfree c hc
  generalize Logs.sweepRunFiles d = es at hnone ⊢
  constructor
  · induction es generalizing d with
    | nil => exact h
    | cons e es ih =>
      obtain ⟨⟨n, rfl, hn⟩, hrest⟩ := List.forall_mem_cons.mp hnone
      exact ⟨h, ih (h.unlinkArchived hn) hrest⟩
  · intro e he
    obtain ⟨n, rfl, _⟩ := hnone e he
    rfl

end

end Minicrond.Logs
