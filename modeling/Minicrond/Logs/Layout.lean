import Minicrond.Logs.Reader

/-! How the accepted frames of a run lie on disk: each chunk holds its slice of the frames, wherever it is stored.
The reader then returns the page that decoding all of it would give. -/

namespace Minicrond.Logs

open Minicrond.Library

section

variable {limit budget : ℤ} {p : Page} {xs ys : List Frame}

lemma consume_append : consume limit budget (xs ++ ys) p =
    if (consume limit budget xs p).2 then consume limit budget ys (consume limit budget xs p).1
    else consume limit budget xs p := by
  induction xs generalizing p with
  | nil => rfl
  | cons f fs ih =>
    simp only [List.cons_append, consume]
    split_ifs <;> simp_all

lemma consume_fresh : consume limit budget (fresh Frame.sequence p.last xs) p = consume limit budget xs p := by
  induction xs generalizing p with
  | nil => rfl
  | cons f fs ih =>
    by_cases hle : f.sequence ≤ p.last
    · rw [fresh, if_pos hle, consume, if_pos hle]
      exact ih
    · rw [fresh, if_neg hle, consume, consume, if_neg hle, if_neg hle]
      have := ih (p := p.append f)
      rw [Page.append] at this ⊢
      rw [this]

lemma consume_takes (limit budget : ℤ) (h : Increasing Frame.sequence xs) (hp : ∀ f ∈ xs, p.last < f.sequence) :
    ∃ ys, ys <+: xs ∧ (consume limit budget xs p).1.out = p.out ++ ys ∧
      (xs ≠ [] → p.out = [] → ys ≠ []) := by
  induction xs generalizing p with
  | nil => exact ⟨[], List.nil_prefix, by simp [consume], by simp⟩
  | cons f fs ih =>
    obtain ⟨hf, hfs⟩ := List.pairwise_cons.mp h
    obtain ⟨ys, hys, hout, _⟩ := ih hfs (p := p.append f) hf
    rw [consume, if_neg (not_le.mpr (hp f List.mem_cons_self))]
    split_ifs with hfull hroom
    · exact ⟨[], List.nil_prefix, by simp, fun _ he => (hfull.1 he).elim⟩
    · refine ⟨f :: ys, List.cons_prefix_cons.mpr ⟨rfl, hys⟩, ?_, by simp⟩
      rw [hout, Page.append, List.append_assoc]
      rfl
    · exact ⟨[f], List.cons_prefix_cons.mpr ⟨rfl, List.nil_prefix⟩, rfl, by simp⟩

def pendingRows (rows : List Chunk) (cursor : ℕ) : List Chunk :=
  match _h : nextChunk rows cursor with
  | none => []
  | some c => c :: pendingRows rows (max cursor c.last)
termination_by (rows.filter fun x => cursor < x.last).length
decreasing_by exact nextChunk_decreases _h

variable {rows : List Chunk} {cursor : ℕ} {c : Chunk}

lemma pendingRows_none (h : nextChunk rows cursor = none) : pendingRows rows cursor = [] := by
  rw [pendingRows]
  split
  · rfl
  · simp_all

lemma pendingRows_some (h : nextChunk rows cursor = some c) :
    pendingRows rows cursor = c :: pendingRows rows (max cursor c.last) := by
  rw [pendingRows]
  split
  · simp_all
  · simp_all

lemma nextChunk_eq_none (h : nextChunk rows cursor = none) : ∀ c ∈ rows, c.last ≤ cursor := by
  simpa [nextChunk, List.argmin_eq_none, List.filter_eq_nil_iff] using h

lemma pendingRows_spec :
    (pendingRows rows cursor).Pairwise (fun c c' => c.last < c'.last) ∧
      (∀ c ∈ pendingRows rows cursor, c ∈ rows ∧ cursor < c.last) ∧
      ∀ c ∈ rows, cursor < c.last → ∃ c' ∈ pendingRows rows cursor, c'.last = c.last := by
  induction cursor using pendingRows.induct rows with
  | case1 cursor h =>
    rw [pendingRows_none h]
    refine ⟨List.Pairwise.nil, by simp, fun c hc hlast => ?_⟩
    exact (Nat.not_lt.mpr (nextChunk_eq_none h c hc) hlast).elim
  | case2 cursor c h ih =>
    rw [pendingRows_some h]
    obtain ⟨hc, hlast, hleast⟩ := nextChunk_eq_some h
    obtain ⟨hsorted, hmem, hall⟩ := ih
    refine ⟨List.pairwise_cons.mpr ⟨fun c' hc' => ?_, hsorted⟩, ?_, fun x hx hxlast => ?_⟩
    · have := (hmem c' hc').2
      omega
    · refine List.forall_mem_cons.mpr ⟨⟨hc, hlast⟩, fun c' hc' => ⟨(hmem c' hc').1, ?_⟩⟩
      have := (hmem c' hc').2
      omega
    · rcases (hleast x hx hxlast).eq_or_lt with he | hlt
      · exact ⟨c, List.mem_cons_self, he⟩
      · obtain ⟨c', hc', he⟩ := hall x hx (by omega)
        exact ⟨c', List.mem_cons_of_mem _ hc', he⟩

lemma eachChunk_eq {d : Disk} {g : Chunk → List Frame} (hg : ∀ c ∈ d.rows, c.frames d = some (g c)) :
    eachChunk limit budget d cursor p = consume limit budget ((pendingRows d.rows cursor).flatMap g) p := by
  induction cursor using pendingRows.induct d.rows generalizing p with
  | case1 cursor h =>
    rw [pendingRows_none h, eachChunk]
    split
    · rfl
    · simp_all
  | case2 cursor c h ih =>
    rw [pendingRows_some h, List.flatMap_cons, consume_append, eachChunk]
    split
    · simp_all
    · rename_i c' h'
      obtain rfl : c' = c := Option.some.inj (h'.symm.trans h)
      rw [hg c' (nextChunk_eq_some h).1]
      cases hread : consume limit budget (g c') p with
      | mk p' more =>
        cases more with
        | true => simpa [hread] using ih
        | false => simp [hread]

lemma readFiles_eq {skip : ChunkFile → Bool} {files : List ChunkFile} :
    readFiles limit budget skip files p =
      (consume limit budget ((files.filter fun f => !skip f).flatMap (·.frames)) p).1 := by
  induction files generalizing p with
  | nil => rfl
  | cons f files ih =>
    cases hskip : skip f with
    | true =>
      rw [readFiles, if_pos hskip, ih, List.filter_cons_of_neg (by simp [hskip])]
    | false =>
      rw [readFiles, List.filter_cons_of_pos (by simp [hskip]), List.flatMap_cons, consume_append]
      cases hread : consume limit budget f.frames p with
      | mk p' more =>
        cases more with
        | true => simpa [hskip, hread] using ih
        | false => simp [hskip]

lemma readContext_eq {d : Disk} {g : Chunk → List Frame} {after : ℕ} {limit budget : ℤ}
    (hg : ∀ c ∈ d.rows, c.frames d = some (g c)) :
    readContext d after limit budget =
      (consume (clampLimit limit) budget ((pendingRows d.rows after).flatMap g ++
        ((chunkFiles d).filter fun f => !skips d after f).flatMap (·.frames)) (Page.start after)).1.out := by
  rw [readContext, eachChunk_eq hg, consume_append]
  cases hread : consume (clampLimit limit) budget ((pendingRows d.rows after).flatMap g) (Page.start after) with
  | mk p more =>
    cases more with
    | true => simp [readFiles_eq]
    | false => simp

end

def HasRow (d : Disk) (n : ℕ) : Prop := ∃ c ∈ d.rows, c.number = n

def HasFile (files : List ChunkFile) (n : ℕ) : Prop := ∃ f ∈ files, f.number = n

section

variable (ends : ℕ → ℕ) (accepted : List Frame)

def Holds (n : ℕ) : Prop := 0 < n ∧ ends (n - 1) < ends n

def piece (n : ℕ) : List Frame := slice Frame.sequence accepted (ends (n - 1)) (ends n)

structure RowOk (d : Disk) (c : Chunk) : Prop where
  holds : Holds ends c.number
  last : c.last = ends c.number
  stored : if 0 < c.fileBytes then HasFile d.archive c.number ∨ HasFile d.buffer c.number
    else c.blob = piece ends accepted c.number

structure MetaOk (d : Disk) (m : ChunkMeta) : Prop where
  valid : m.valid = true
  holds : HasFile d.buffer m.number → Holds ends m.number
  last : HasFile d.buffer m.number → m.last = ends m.number

structure Layout (d : Disk) : Prop where
  increasing : Increasing Frame.sequence accepted
  mono : Monotone ends
  bounds : ∀ x ∈ accepted, ends 0 < x.sequence ∧ ∃ n, x.sequence ≤ ends n
  attained : ∀ n, Holds ends n → ∃ x ∈ accepted, x.sequence = ends n
  row : ∀ c ∈ d.rows, RowOk ends accepted d c
  archive : ∀ f ∈ d.archive, f.frames = piece ends accepted f.number
  names : (d.buffer.map (·.number)).Nodup
  buffer : ∀ f ∈ d.buffer, f.frames = piece ends accepted f.number
  covered : ∀ n, Holds ends n → HasRow d n ∨ HasFile d.buffer n
  -- a chunk is archived after those before it
  earlier : ∀ n, HasRow d n → ∀ k < n, Holds ends k → HasRow d k
  index : ∀ idx, d.index = some idx → (idx.map (·.number)).Nodup ∧ ∀ m ∈ idx, MetaOk ends d m

end

section

variable {ends : ℕ → ℕ} {accepted : List Frame} {d : Disk} {m n after : ℕ} {x : Frame}

lemma Layout.chunk_of (h : Layout ends accepted d) (hx : x ∈ accepted) :
    ∃ k, Holds ends k ∧ ends (k - 1) < x.sequence ∧ x.sequence ≤ ends k := by
  obtain ⟨hzero, hex⟩ := h.bounds x hx
  classical
  have hfind := Nat.find_spec hex
  have hpos : 0 < Nat.find hex := by
    by_contra hz
    rw [Nat.eq_zero_of_not_pos hz] at hfind
    omega
  have hbefore : ends (Nat.find hex - 1) < x.sequence := not_le.mp (Nat.find_min hex (by omega))
  exact ⟨Nat.find hex, ⟨hpos, by omega⟩, hbefore, hfind⟩

lemma Layout.covers (h : Layout ends accepted d) {S : ℕ → Prop} {ns : List ℕ} {rest : List (ℕ × ℕ)}
    (hsorted : ns.Pairwise (· ≤ ·)) (hclosed : ∀ n ∈ ns, ∀ k < n, Holds ends k → S k)
    (hbelow : ∀ k, Holds ends k → S k → k ∉ ns → ends k ≤ m)
    (hrest : ∀ m', m ≤ m' → (∀ k, Holds ends k → S k → ends k ≤ m') → Covers Frame.sequence accepted m' rest) :
    Covers Frame.sequence accepted m (ns.map (fun n => (ends (n - 1), ends n)) ++ rest) := by
  induction ns generalizing m with
  | nil => exact hrest m le_rfl fun k hk hS => hbelow k hk hS (by simp)
  | cons n ns ih =>
    obtain ⟨hn, hsorted⟩ := List.pairwise_cons.mp hsorted
    obtain ⟨hcn, hclosed⟩ := List.forall_mem_cons.mp hclosed
    refine ⟨fun x hx hle => ?_, ih hsorted hclosed ?_ fun m' hm' => hrest m' (by omega)⟩
    · obtain ⟨k, hk, hlow, hhigh⟩ := h.chunk_of hx
      have hkn : k < n := by
        by_contra hge
        have := h.mono (show n - 1 ≤ k - 1 by omega)
        omega
      refine hhigh.trans (hbelow k hk (hcn k hkn hk) fun hmem => ?_)
      rcases List.mem_cons.mp hmem with rfl | hmem
      · omega
      · have := hn k hmem
        omega
    · intro k hk hS hmem
      by_cases hkn : k = n
      · subst hkn
        omega
      · have := hbelow k hk hS (by simp [hkn, hmem])
        omega

lemma Layout.holds_inj (h : Layout ends accepted d) {k : ℕ} (hk : Holds ends k) (hn : Holds ends n)
    (he : ends k = ends n) : k = n := by
  rcases lt_trichotomy k n with hlt | rfl | hlt
  · have := h.mono (show k ≤ n - 1 by omega)
    have := hn.2
    omega
  · rfl
  · have := h.mono (show n ≤ k - 1 by omega)
    have := hk.2
    omega

lemma Layout.openFileChunk (h : Layout ends accepted d) (hfile : HasFile d.archive n ∨ HasFile d.buffer n) :
    (openFileChunk d n).map (·.frames) = some (piece ends accepted n) := by
  rw [Logs.openFileChunk]
  cases harchive : d.archive.find? (·.number = n) with
  | some f =>
    have hnum : f.number = n := by simpa using List.find?_some harchive
    rw [Option.some_or, Option.map_some, h.archive f (List.mem_of_find?_eq_some harchive), hnum]
  | none =>
    obtain ⟨f, hf, hnum⟩ : HasFile d.buffer n := by
      refine hfile.resolve_left ?_
      rintro ⟨f, hf, hnum⟩
      simp only [List.find?_eq_none, decide_eq_true_eq] at harchive
      exact harchive f hf hnum
    cases hbuffer : d.buffer.find? (·.number = n) with
    | some f' =>
      have hnum' : f'.number = n := by simpa using List.find?_some hbuffer
      rw [Option.none_or, Option.map_some, h.buffer f' (List.mem_of_find?_eq_some hbuffer), hnum']
    | none =>
      simp only [List.find?_eq_none, decide_eq_true_eq] at hbuffer
      exact (hbuffer f hf hnum).elim

lemma Layout.frames (h : Layout ends accepted d) {c : Chunk} (hc : c ∈ d.rows) :
    c.frames d = some (piece ends accepted c.number) := by
  have hstored := (h.row c hc).stored
  rw [Chunk.frames]
  split_ifs at hstored ⊢ with hfile
  · exact h.openFileChunk hstored
  · rw [hstored]

lemma mem_chunkFiles {f : ChunkFile} : f ∈ chunkFiles d ↔ f ∈ d.buffer := by
  simp [chunkFiles]

lemma Layout.skips (h : Layout ends accepted d) {f : ChunkFile} (hf : f ∈ d.buffer)
    (hskip : skips d after f = true) :
    ends f.number ≤ after := by
  simp only [Logs.skips, Bool.and_eq_true, Option.any_eq_true, decide_eq_true_eq] at hskip
  obtain ⟨_, last, hlast, hle⟩ := hskip
  obtain ⟨idx, hidx, hsealed⟩ := Option.bind_eq_some_iff.mp hlast
  obtain ⟨e, he, rfl⟩ := Option.map_eq_some_iff.mp hsealed
  have hmem := List.mem_of_find?_eq_some he
  have hnum : e.number = f.number := by simpa using List.find?_some he
  have hmeta := (h.index idx hidx).2 e (List.mem_of_mem_filter (List.mem_reverse.mp hmem))
  rw [hmeta.last ⟨f, hf, hnum.symm⟩, hnum] at hle
  exact hle

lemma Layout.covers_rows_files (h : Layout ends accepted d) :
    Covers Frame.sequence accepted after
      (((pendingRows d.rows after).map (·.number)).map (fun n => (ends (n - 1), ends n)) ++
        ((((chunkFiles d).filter fun f => !Logs.skips d after f).map (·.number)).map
          fun n => (ends (n - 1), ends n))) := by
  obtain ⟨hsorted, hmem, hall⟩ := @pendingRows_spec d.rows after
  refine h.covers (S := HasRow d) ?_ ?_ ?_ fun m hm hrows => ?_
  · rw [List.pairwise_map]
    refine hsorted.imp_of_mem fun {c c'} hc hc' hlt => ?_
    rw [(h.row c (hmem c hc).1).last, (h.row c' (hmem c' hc').1).last] at hlt
    exact (h.mono.reflect_lt hlt).le
  · intro n hn
    obtain ⟨c, hc, rfl⟩ := List.mem_map.mp hn
    exact h.earlier c.number ⟨c, (hmem c hc).1, rfl⟩
  · rintro k hk ⟨c, hc, rfl⟩ hnot
    by_contra hgt
    obtain ⟨c', hc', he⟩ := hall c hc (by rw [(h.row c hc).last]; omega)
    have hrow' := h.row c' (hmem c' hc').1
    rw [hrow'.last, (h.row c hc).last] at he
    exact hnot (List.mem_map.mpr ⟨c', hc', h.holds_inj hrow'.holds hk he⟩)
  · rw [← List.append_nil (List.map _ _)]
    refine h.covers (S := fun _ => True) ?_ (fun _ _ _ _ _ => trivial) ?_ fun m' _ hfiles x hx => ?_
    · rw [List.pairwise_map]
      exact List.Pairwise.filter _ (List.pairwise_insertionSort _ _)
    · intro k hk _ hnot
      rcases h.covered k hk with hrow | ⟨f, hf, rfl⟩
      · exact hrows k hk hrow
      · cases hskip : Logs.skips d after f with
        | true => exact (h.skips hf hskip).trans hm
        | false =>
          refine (hnot (List.mem_map.mpr ⟨f, List.mem_filter.mpr ⟨mem_chunkFiles.mpr hf, ?_⟩, rfl⟩)).elim
          simp [hskip]
    · obtain ⟨k, hk, _, hle⟩ := h.chunk_of hx
      exact hle.trans (hfiles k hk trivial)

lemma Layout.readContext (h : Layout ends accepted d) (after : ℕ) (limit budget : ℤ) :
    readContext d after limit budget =
      (consume (clampLimit limit) budget (above Frame.sequence after accepted) (Page.start after)).1.out := by
  rw [readContext_eq (g := fun c => piece ends accepted c.number) fun c hc => h.frames hc,
    ← consume_fresh, ← fresh_of_covers h.increasing h.covers_rows_files]
  have hfiles : ((chunkFiles d).filter fun f => !Logs.skips d after f).flatMap (·.frames) =
      ((chunkFiles d).filter fun f => !Logs.skips d after f).flatMap fun f => piece ends accepted f.number := by
    apply List.flatMap_congr
    intro f hf
    exact h.buffer f (mem_chunkFiles.mp (List.mem_of_mem_filter hf))
  rw [hfiles, List.flatMap_append]
  simp only [List.flatMap_map]
  rfl

end

end Minicrond.Logs
