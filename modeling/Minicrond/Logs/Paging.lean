import Mathlib.Data.List.Dedup
import Minicrond.Logs.Recovery

/-! A client that pages through a log while it is written, rotated and archived receives the stored frames, each
once and in order. -/

namespace Minicrond.Logs

open Minicrond.Library

def mergeAll (d : Disk) : List Frame :=
  ((d.rows.filterMap (·.frames d)).flatten ++ d.buffer.flatMap (·.frames)).dedup.insertionSort
    fun f g => f.sequence ≤ g.sequence

def mergedPage (d : Disk) (after : ℕ) (limit budget : ℤ) : List Frame :=
  (consume (clampLimit limit) budget (above Frame.sequence after (mergeAll d)) (Page.start after)).1.out

section

variable {ends : ℕ → ℕ} {accepted : List Frame} {d : Disk}

lemma Layout.mem_stored (h : Layout ends accepted d) {x : Frame} :
    x ∈ (d.rows.filterMap (·.frames d)).flatten ++ d.buffer.flatMap (·.frames) ↔ x ∈ accepted := by
  rw [List.mem_append]
  constructor
  · rintro (hx | hx)
    · obtain ⟨fs, hfs, hx⟩ := List.mem_flatten.mp hx
      obtain ⟨c, hc, he⟩ := List.mem_filterMap.mp hfs
      rw [h.frames hc] at he
      obtain rfl := Option.some.inj he
      exact (mem_slice.mp hx).1
    · obtain ⟨f, hf, hx⟩ := List.mem_flatMap.mp hx
      rw [h.buffer f hf] at hx
      exact (mem_slice.mp hx).1
  · intro hx
    obtain ⟨k, hk, hbounds⟩ := h.chunk_of hx
    have hpiece : x ∈ piece ends accepted k := mem_slice.mpr ⟨hx, hbounds⟩
    rcases h.covered k hk with ⟨c, hc, rfl⟩ | ⟨f, hf, rfl⟩
    · exact .inl (List.mem_flatten.mpr ⟨_, List.mem_filterMap.mpr ⟨c, hc, h.frames hc⟩, hpiece⟩)
    · exact .inr (List.mem_flatMap.mpr ⟨f, hf, by rw [h.buffer f hf]; exact hpiece⟩)

lemma increasing_inj {xs : List Frame} (h : Increasing Frame.sequence xs) {x y : Frame} (hx : x ∈ xs) (hy : y ∈ xs)
    (he : x.sequence = y.sequence) : x = y := by
  have hnodup : (xs.map Frame.sequence).Nodup := List.pairwise_map.mpr (h.imp fun hlt => hlt.ne)
  exact List.inj_on_of_nodup_map hnodup hx hy he

lemma Layout.mergeAll (h : Layout ends accepted d) : mergeAll d = accepted := by
  have hnodup : accepted.Nodup := h.increasing.imp fun hlt he => (he ▸ hlt).false
  have hperm : (Logs.mergeAll d).Perm accepted := by
    refine (List.perm_insertionSort _ _).trans ((List.perm_ext_iff_of_nodup (List.nodup_dedup _) hnodup).mpr
      fun x => ?_)
    rw [List.mem_dedup]
    exact h.mem_stored
  have hsorted : (Logs.mergeAll d).Pairwise fun f g => f.sequence ≤ g.sequence := List.pairwise_insertionSort _ _
  have hsorted' : accepted.Pairwise fun f g => f.sequence ≤ g.sequence := h.increasing.imp fun hlt => hlt.le
  refine List.Perm.eq_of_pairwise (fun x y hx hy hle hge => ?_) hsorted hsorted' hperm
  exact increasing_inj h.increasing (hperm.mem_iff.mp hx) hy (le_antisymm hle hge)

lemma Layout.mergedPage (h : Layout ends accepted d) (after : ℕ) (limit budget : ℤ) :
    Logs.readContext d after limit budget = mergedPage d after limit budget := by
  rw [h.readContext, Logs.mergedPage, h.mergeAll]

end

structure Session where
  log : Log
  after : ℕ
  received : List Frame

inductive Action
  | log (e : Event)
  | page (limit budget : ℤ)

def Writer.Evicts (w : Writer) (line : Line) : Prop :=
  w.overflows (w.truncate line).size ∧ ¬(w.dropNew ∨ w.maxBytes < (w.truncate line).size)

def Keeps (s : Log) : Event → Prop
  | .write line _ _ => ∀ w, s.writer = some w → ¬w.Evicts line
  | _ => True

inductive SessionStep : Session → Action → Session → Prop
  | log {s : Session} {e : Event} {t : Log} (hkeeps : Keeps s.log e) (hstep : LogStep s.log e t) :
    SessionStep s (.log e) { s with log := t }
  | page {s : Session} {limit budget : ℤ} {frames : List Frame}
      (hpage : readContext s.log.disk s.after limit budget = frames) :
    SessionStep s (.page limit budget)
      { s with received := s.received ++ frames, after := (frames.getLast?.map (·.sequence)).getD s.after }

def Effect.keeps : Effect → Bool
  | .evict _ => false
  | _ => true

lemma Effect.keeps_of_moves {e : Effect} (h : e.moves = true) : e.keeps = true := by
  cases e <;> simp_all [moves, keeps]

section

variable {s t : Log} {e : Event}

lemma Writer.keeps_of_not_evicts {w : Writer} {line : Line} {timestamp : ℤ} {bytes : ℕ × ℕ} (h : ¬w.Evicts line) :
    ∀ x ∈ (w.writeLocked line timestamp bytes).1, x.keeps = true := by
  rw [writeLocked]
  dsimp only
  by_cases hdrop : w.overflows (w.truncate line).size ∧ (w.dropNew ∨ w.maxBytes < (w.truncate line).size)
  · simp [if_pos hdrop]
  · have hroom : w.makeRoom (w.truncate line).size bytes.1 = ([], w) := by
      rw [makeRoom, if_neg]
      exact fun hover => h ⟨hover, fun hd => hdrop ⟨hover, hd⟩⟩
    rw [if_neg hdrop, hroom]
    split_ifs <;> simp [rotate, finishChunk, Effect.keeps]

lemma LogStep.keeps (hstep : LogStep s e t) (hkeeps : Keeps s e) (h : Good s)
    (hs : ∀ x ∈ s.program, x.keeps = true) :
    ∀ x ∈ t.program, x.keeps = true := by
  cases hstep with
  | perform hprogram =>
    rw [hprogram] at hs
    exact (List.forall_mem_cons.mp hs).2
  | write hprogram hwriter hopen => exact Writer.keeps_of_not_evicts (hkeeps _ hwriter)
  | checkpoint hprogram hwriter hopen hthrough =>
    dsimp only
    rw [Writer.sealForArchive]
    split_ifs
    · exact fun x hx => Effect.keeps_of_moves (rotate_moves x hx)
    · simp
  | batch hprogram hwriter hthrough hbatch =>
    obtain ⟨ends, hlayout, hw⟩ := h.idle hprogram hwriter
    exact fun x hx => Effect.keeps_of_moves ((hw.batch hlayout hbatch).2.1 x hx)
  | endCheckpoint => exact hs
  | close => simp [Writer.close, Writer.finishChunk, Effect.keeps]
  | detach => exact hs
  | crash => simp
  | orphan hprogram hwriter horphan hremoval =>
    exact fun x hx => Effect.keeps_of_moves (((LogStep.orphan hprogram hwriter horphan hremoval).good h).quiet
      hwriter x hx)
  | short hprogram hwriter hshort hremoval =>
    exact fun x hx => Effect.keeps_of_moves (((LogStep.short hprogram hwriter hshort hremoval).good h).quiet
      hwriter x hx)
  | sweepFiles hprogram hwriter =>
    exact fun x hx => Effect.keeps_of_moves (((LogStep.sweepFiles hprogram hwriter).good h).quiet hwriter x hx)

lemma Effect.retained_of_keeps {d : Disk} {frames : List Frame} {x : Effect} (h : x.keeps = true) :
    ∃ added, x.retained d frames = frames ++ added := by
  cases x with
  | append n f bytes => exact ⟨[f], rfl⟩
  | evict n => simp [keeps] at h
  | _ => exact ⟨[], (List.append_nil _).symm⟩

lemma LogStep.grows (hstep : LogStep s e t) (hs : ∀ x ∈ s.program, x.keeps = true) :
    ∃ added, t.accepted = s.accepted ++ added := by
  cases hstep with
  | perform hprogram =>
    rw [hprogram] at hs
    exact Effect.retained_of_keeps (List.forall_mem_cons.mp hs).1
  | _ => exact ⟨[], (List.append_nil _).symm⟩

end

structure Paged (after₀ : ℕ) (s : Session) : Prop where
  good : Good s.log
  keeps : ∀ x ∈ s.log.program, x.keeps = true
  received : s.received = slice Frame.sequence s.log.accepted after₀ s.after
  start : after₀ ≤ s.after
  cursor : s.after = after₀ ∨ ∃ x ∈ s.log.accepted, x.sequence = s.after

section

variable {after₀ : ℕ} {s t : Session} {a : Action}

lemma Paged.log (h : Paged after₀ s) {e : Event} {l : Log} (hkeeps : Keeps s.log e) (hstep : LogStep s.log e l) :
    Paged after₀ { s with log := l } := by
  have hgood := hstep.good h.good
  obtain ⟨added, hadded⟩ := hstep.grows h.keeps
  obtain ⟨ends, hlayout⟩ := hgood.steady.layout
  have hincreasing := hlayout.increasing
  rw [hadded] at hincreasing
  obtain ⟨_, _, hcross⟩ := List.pairwise_append.mp hincreasing
  refine ⟨hgood, hstep.keeps hkeeps h.good h.keeps, ?_, h.start, h.cursor.imp_right ?_⟩
  · have hnone : slice Frame.sequence added after₀ s.after = [] := by
      rw [slice, List.filter_eq_nil_iff]
      intro f hf
      simp only [Bool.and_eq_true, decide_eq_true_eq]
      rcases h.cursor with he | ⟨x, hx, he⟩
      · omega
      · have := hcross x hx f hf
        omega
    dsimp only
    rw [h.received, hadded, slice, slice, List.filter_append]
    rw [slice] at hnone
    rw [hnone, List.append_nil]
  · rintro ⟨x, hx, he⟩
    exact ⟨x, by dsimp only; rw [hadded]; exact List.mem_append_left _ hx, he⟩

lemma Paged.page (h : Paged after₀ s) (limit budget : ℤ) {frames : List Frame}
    (hpage : readContext s.log.disk s.after limit budget = frames) :
    Paged after₀
      { s with received := s.received ++ frames, after := (frames.getLast?.map (·.sequence)).getD s.after } := by
  obtain ⟨ends, hlayout⟩ := h.good.steady.layout
  obtain ⟨rest, hsplit, _⟩ := hlayout.page s.after limit budget
  rw [hpage] at hsplit
  by_cases hne : frames = []
  · rw [hne, List.append_nil]
    exact h
  · obtain ⟨hlast, hgt⟩ := mem_above.mp (hsplit ▸ List.mem_append_left rest (List.getLast_mem hne))
    rw [List.getLast?_eq_getLast_of_ne_nil hne]
    refine ⟨h.good, h.keeps, ?_, h.start.trans hgt.le, .inr ⟨frames.getLast hne, hlast, rfl⟩⟩
    rw [h.received]
    exact (slice_getLast hlayout.increasing hsplit hne h.start).symm

lemma SessionStep.paged (hstep : SessionStep s a t) (h : Paged after₀ s) : Paged after₀ t := by
  cases hstep with
  | log hkeeps hstep => exact h.log hkeeps hstep
  | page hpage => exact h.page _ _ hpage

lemma Paged.rest (h : Paged after₀ s) :
    s.received ++ above Frame.sequence s.after s.log.accepted = above Frame.sequence after₀ s.log.accepted := by
  obtain ⟨ends, hlayout⟩ := h.good.steady.layout
  have hsplit := above_slice_append (b := s.after) hlayout.increasing fun x _ (hx : x.sequence ≤ after₀) => hx
  have hself : above Frame.sequence after₀ (slice Frame.sequence s.log.accepted after₀ s.after) =
      slice Frame.sequence s.log.accepted after₀ s.after := by
    rw [above, List.filter_eq_self]
    intro x hx
    simpa using (mem_slice.mp hx).2.1
  rw [hself, max_eq_right h.start] at hsplit
  rw [h.received]
  exact hsplit

lemma Paged.page_empty (h : Paged after₀ s) (limit budget : ℤ) :
    readContext s.log.disk s.after limit budget = [] ↔ ∀ f ∈ s.log.accepted, f.sequence ≤ s.after := by
  obtain ⟨ends, hlayout⟩ := h.good.steady.layout
  obtain ⟨rest, hsplit, hnone⟩ := hlayout.page s.after limit budget
  have habove : above Frame.sequence s.after s.log.accepted = [] ↔ ∀ f ∈ s.log.accepted, f.sequence ≤ s.after := by
    simp [above, List.filter_eq_nil_iff]
  rw [← habove]
  refine ⟨hnone, fun he => ?_⟩
  rw [he] at hsplit
  exact (List.append_eq_nil_iff.mp hsplit.symm).1

/-- At any point of any history without eviction, the client has received the stored frames up to its cursor, each
once and in order; the next page is empty only if nothing newer is stored, and is the page of the merged tiers; and
as many pages as there are frames bring all of them. -/
theorem paging_exact {options : WriterOptions} {actions : List Action}
    (hrun : Run SessionStep ⟨Log.opened options, after₀, []⟩ actions s) :
    s.received = slice Frame.sequence s.log.accepted after₀ s.after ∧ Increasing Frame.sequence s.received ∧
      mergeAll s.log.disk = s.log.accepted ∧
      (∀ limit budget,
        readContext s.log.disk s.after limit budget = [] ↔ ∀ f ∈ s.log.accepted, f.sequence ≤ s.after) ∧
      (∀ after limit budget,
        readContext s.log.disk after limit budget = mergedPage s.log.disk after limit budget) ∧
      ∀ pages, s.log.accepted.length ≤ pages.length →
        s.received ++ readPages s.log.disk pages s.after = above Frame.sequence after₀ s.log.accepted := by
  have hpaged : Paged after₀ s := by
    refine hrun.invariant (P := Paged after₀) (fun _ _ _ hstep => hstep.paged)
      ⟨good_opened options, by simp [Log.opened], slice_self.symm, le_rfl, .inl rfl⟩
  obtain ⟨ends, hlayout⟩ := hpaged.good.steady.layout
  refine ⟨hpaged.received, ?_, hlayout.mergeAll, hpaged.page_empty, hlayout.mergedPage, fun pages hpages => ?_⟩
  · rw [hpaged.received]
    exact hlayout.increasing.slice
  · rw [hlayout.readPages ((List.length_filter_le _ _).trans hpages)]
    exact hpaged.rest

theorem paging_exact_archived : ∃ s, Run SessionStep ⟨Log.opened ⟨0, 0, false⟩, 0, []⟩
      [.log (.write ⟨.stdout, 0, [104, 105], by decide⟩ 0 (40, 30)), .log .perform,
        .log (.write ⟨.stderr, 0, [111], by decide⟩ 1 (60, 50)), .log .perform, .page 1 100, .log (.checkpoint 60),
        .log .perform, .log .perform, .log .perform, .log (.batch fun _ => true), .log .perform, .page 5 100] s ∧
    s.log.disk.rows.length = 1 ∧ s.log.disk.buffer.length = 2 ∧ s.received.map (·.sequence) = [1, 2] ∧
    s.received = slice Frame.sequence s.log.accepted 0 s.after := by
  let hi : Frame := ⟨⟨.stdout, 0, [104, 105], by decide⟩, 1, 0⟩
  let o : Frame := ⟨⟨.stderr, 0, [111], by decide⟩, 2, 1⟩
  have hfirst : readContext ⟨[], [], [⟨1, [hi, o], 50⟩], none⟩ 0 1 100 = [hi] := by decide +kernel
  have hsecond : readContext ⟨[⟨1, 1, 2, 51, [hi, o], 0⟩], [], [⟨1, [hi, o], 60⟩, ⟨2, [], 0⟩],
      some [⟨1, 1, 2, 60, 51⟩]⟩ 1 5 100 = [o] := by decide +kernel
  have hkeeps : ∀ (w : Writer) (line : Line), w.maxBytes = 0 → ¬w.Evicts line := fun w line hmax h => by
    have := h.1.1
    omega
  have hrun : Run SessionStep ⟨Log.opened ⟨0, 0, false⟩, 0, []⟩
      [.log (.write ⟨.stdout, 0, [104, 105], by decide⟩ 0 (40, 30)), .log .perform,
        .log (.write ⟨.stderr, 0, [111], by decide⟩ 1 (60, 50)), .log .perform, .page 1 100, .log (.checkpoint 60),
        .log .perform, .log .perform, .log .perform, .log (.batch fun _ => true), .log .perform, .page 5 100] _ :=
    .cons (.log (fun w hw => hkeeps w _ (Option.some.inj hw ▸ rfl)) (.write rfl rfl rfl)) <|
    .cons (.log trivial (.perform rfl)) <|
    .cons (.log (fun w hw => hkeeps w _ (Option.some.inj hw ▸ rfl)) (.write rfl rfl rfl)) <|
    .cons (.log trivial (.perform rfl)) <| .cons (.page hfirst) <|
    .cons (.log trivial (.checkpoint rfl rfl rfl rfl)) <| .cons (.log trivial (.perform rfl)) <|
    .cons (.log trivial (.perform rfl)) <| .cons (.log trivial (.perform rfl)) <|
    .cons (.log trivial (.batch rfl rfl rfl rfl)) <| .cons (.log trivial (.perform rfl)) <|
    .cons (.page hsecond) (.nil _)
  exact ⟨_, hrun, rfl, rfl, rfl, (paging_exact hrun).1⟩

end

end Minicrond.Logs
