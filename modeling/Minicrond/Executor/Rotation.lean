import Mathlib.Data.List.Infix
import Minicrond.Store.QueueOrder

/-! The rotation of the drain loop over the definitions that wait in the queue: which item a step takes, given what
the loop has served. -/

namespace Minicrond.Executor

open Minicrond.Library Minicrond.Store

def queueHeadWindow : ℕ := 64

def servedLimit : ℕ := 4096

abbrev Served := List (ℕ × ℕ)

namespace Served

def last (served : Served) (definitionID : ℕ) : ℕ := (served.lookup definitionID).getD 0

def mark (served : Served) (definitionID tick : ℕ) : Served :=
  (definitionID, tick) :: served.filter (·.1 ≠ definitionID)

end Served

def nextItem (served : Served) (heads : List QueueItem) : Option QueueItem :=
  heads.foldl (fun best h =>
    match best with
    | none => some h
    | some b => if served.last h.definitionID < served.last b.definitionID then some h else some b) none

structure Rotation where
  queue : List QueueRow
  lastSeq : ℕ
  served : Served
  tick : ℕ
  taken : Option QueueItem
  services : List ℕ

namespace Rotation

def start (queue : List QueueRow) (lastSeq : ℕ) : Rotation := ⟨queue, lastSeq, [], 0, none, []⟩

def take (s : Rotation) (item : QueueItem) : Rotation :=
  { s with
    served := s.served.mark item.definitionID (s.tick + 1)
    tick := s.tick + 1
    taken := some item
    services := item.definitionID :: s.services }

def settle (s : Rotation) : Rotation :=
  { s with taken := none, served := if servedLimit < s.served.length then [] else s.served }

inductive Event
  | enqueue (row : QueueRow)
  | leave (queue : List QueueRow)
  | take (item : QueueItem)
  | fail
  | settle

inductive Step : Rotation → Event → Rotation → Prop
  | enqueue {s} (row : QueueRow) (h : row.seq = s.lastSeq + 1) :
      Step s (.enqueue row) { s with queue := s.queue ++ [row], lastSeq := s.lastSeq + 1 }
  -- started, dropped, cancelled, expired, or the definition was removed or disabled
  | leave {s} (queue : List QueueRow) (h : queue.Sublist s.queue) : Step s (.leave queue) { s with queue := queue }
  | take {s} (item : QueueItem) (ht : s.taken = none)
      (hi : nextItem s.served (queueHeads queueHeadWindow s.queue) = some item) : Step s (.take item) (s.take item)
  -- `startQueued` returned an error
  | fail {s} (item : QueueItem) (ht : s.taken = some item) : Step s .fail { s with taken := none }
  | settle {s} (item : QueueItem) (ht : s.taken = some item) : Step s .settle s.settle

/-- The item is the oldest one of a definition that was served least recently. A definition that was never served
has the index past the end of `services`. -/
def Fair (s : Rotation) (item : QueueItem) : Prop :=
  ∀ q ∈ s.queue, s.services.idxOf q.definitionID < s.services.idxOf item.definitionID ∨
    s.services.idxOf q.definitionID = s.services.idxOf item.definitionID ∧ item.seq ≤ q.seq

/-- At most as many definitions wait as the head window shows, and at most as many were served as the map keeps. -/
def Moderate (s : Rotation) : Event → Prop
  | .take _ => (waitingDefinitions s.queue).length ≤ queueHeadWindow
  | .settle => s.services.dedup.length ≤ servedLimit
  | _ => True

instance (s : Rotation) : DecidablePred s.Moderate
  | .take _ => inferInstanceAs (Decidable (_ ≤ _))
  | .settle => inferInstanceAs (Decidable (_ ≤ _))
  | .enqueue _ | .leave _ | .fail => inferInstanceAs (Decidable True)

end Rotation

namespace Served

variable {served : Served} {d e tick : ℕ}

lemma last_mark_self : (served.mark d tick).last d = tick := by
  simp [mark, last]

lemma last_mark_of_ne (h : e ≠ d) : (served.mark d tick).last e = served.last e := by
  have hfilter : (served.filter (·.1 ≠ d)).lookup e = served.lookup e := by
    induction served with
    | nil => rfl
    | cons p served ih =>
      obtain ⟨k, t⟩ := p
      by_cases hk : k = d
      · have hek : (e == k) = false := by simpa [hk] using h
        rw [List.filter_cons_of_neg (by simpa using hk), List.lookup_cons, hek]
        exact ih
      · rw [List.filter_cons_of_pos (by simpa using hk), List.lookup_cons, List.lookup_cons, ih]
  have hed : (e == d) = false := by simpa using h
  rw [last, last, mark, List.lookup_cons, hed]
  exact congrArg (·.getD 0) hfilter

lemma length_mark_le (served : Served) (d tick : ℕ) : (served.mark d tick).length ≤ served.length + 1 := by
  simpa [mark] using List.length_filter_le _ _

end Served

lemma nextItem_eq_argmin (served : Served) (heads : List QueueItem) :
    nextItem served heads = heads.argmin fun h => served.last h.definitionID := by
  rw [nextItem, List.argmin]
  congr 1
  funext best h
  cases best with
  | none => rfl
  | some b => rfl

lemma nextItem_mem {served : Served} {heads : List QueueItem} {item : QueueItem}
    (h : nextItem served heads = some item) :
    item ∈ heads := by
  rw [nextItem_eq_argmin] at h
  exact List.argmin_mem h

lemma nextItem_least {served : Served} {heads : List QueueItem} {item h : QueueItem}
    (hs : heads.Pairwise fun a b => a.seq < b.seq) (hi : nextItem served heads = some item) (hh : h ∈ heads) :
    served.last item.definitionID < served.last h.definitionID ∨
      served.last item.definitionID = served.last h.definitionID ∧ item.seq ≤ h.seq := by
  rw [nextItem_eq_argmin] at hi
  rcases (List.le_of_mem_argmin hh hi).lt_or_eq with hlt | heq
  · exact .inl hlt
  · refine .inr ⟨heq, ?_⟩
    -- Among equals the loop keeps the first head, and the heads are in the order of their enqueues.
    have hindex := List.index_of_argmin hi hh heq.ge
    have hi' := List.idxOf_lt_length_of_mem (List.argmin_mem hi)
    have hh' := List.idxOf_lt_length_of_mem hh
    rcases hindex.lt_or_eq with hlt | he
    · have hseq := List.pairwise_iff_getElem.mp hs _ _ hi' hh' hlt
      simp only [List.getElem_idxOf] at hseq
      exact hseq.le
    · rw [(List.idxOf_inj (List.argmin_mem hi)).mp he]

namespace Rotation

structure Tracks (s : Rotation) : Prop where
  inOrder : InOrder s.queue
  issued : ∀ q ∈ s.queue, q.seq ≤ s.lastSeq
  tick : s.tick = s.services.length
  last : ∀ d, s.served.last d = s.services.length - s.services.idxOf d
  keys : (s.served.map (·.1)).Nodup
  served : ∀ d, d ∈ s.served.map (·.1) → d ∈ s.services

variable {s s' : Rotation} {event : Event}

lemma Tracks.take {item : QueueItem} (h : s.Tracks) : (s.take item).Tracks := by
  refine ⟨h.inOrder, h.issued, congrArg (· + 1) h.tick, fun d => ?_, ?_, fun d hd => ?_⟩
  · by_cases hd : d = item.definitionID
    · simp [Rotation.take, hd, Served.last_mark_self, h.tick]
    · have hidx : (item.definitionID :: s.services).idxOf d = s.services.idxOf d + 1 :=
        List.idxOf_cons_ne _ fun he => hd he.symm
      simp only [Rotation.take, Served.last_mark_of_ne hd, h.last, hidx, List.length_cons]
      omega
  · simp only [Rotation.take, Served.mark, List.map_cons, List.nodup_cons]
    refine ⟨by simp, h.keys.sublist (List.filter_sublist.map _)⟩
  · simp only [Rotation.take, Served.mark, List.map_cons, List.mem_cons] at hd ⊢
    rcases hd with rfl | hd
    · exact .inl rfl
    · exact .inr (h.served d ((List.filter_sublist.map _).subset hd))

lemma Tracks.settle (h : s.Tracks) (hm : s.services.dedup.length ≤ servedLimit) : s.settle.Tracks := by
  have hkeys : s.served.length ≤ s.services.dedup.length := by
    rw [← List.length_map (·.1)]
    exact (List.subperm_of_subset h.keys fun d hd => List.mem_dedup.mpr (h.served d hd)).length_le
  have hserved : s.settle.served = s.served := if_neg (hkeys.trans hm).not_gt
  exact ⟨h.inOrder, h.issued, h.tick, hserved ▸ h.last, hserved ▸ h.keys, hserved ▸ h.served⟩

lemma Step.tracks (hs : s.Moderate event) (h : Step s event s') (ht : s.Tracks) : s'.Tracks := by
  cases h with
  | enqueue row hseq =>
    obtain ⟨hinOrder, hissued⟩ := ht.inOrder.append ht.issued hseq
    exact ⟨hinOrder, hissued, ht.tick, ht.last, ht.keys, ht.served⟩
  | leave queue hsub =>
    exact ⟨ht.inOrder.sublist hsub, fun q hq => ht.issued q (hsub.subset hq), ht.tick, ht.last, ht.keys, ht.served⟩
  | take item => exact ht.take
  | fail item => exact ⟨ht.inOrder, ht.issued, ht.tick, ht.last, ht.keys, ht.served⟩
  | settle item => exact ht.settle hs

lemma Tracks.fair {item : QueueItem} (h : s.Tracks) (hm : (waitingDefinitions s.queue).length ≤ queueHeadWindow)
    (hi : nextItem s.served (queueHeads queueHeadWindow s.queue) = some item) : s.Fair item := by
  intro q hq
  obtain ⟨head, hhead, hd, hle⟩ := h.inOrder.exists_queueHead hm hq
  have hbound := List.idxOf_le_length (a := head.definitionID) (l := s.services)
  have hbound' := List.idxOf_le_length (a := item.definitionID) (l := s.services)
  rw [← hd]
  rcases nextItem_least (h.inOrder.queueHeads_pairwise _) hi hhead with hlt | ⟨heq, hseq⟩
  · rw [h.last, h.last] at hlt
    exact .inl (by omega)
  · rw [h.last, h.last] at heq
    exact .inr ⟨by omega, hseq.trans hle⟩

lemma Fair.served_since {item : QueueItem} (h : s.Fair item) {recent older : List ℕ}
    (hs : s.services = recent ++ item.definitionID :: older) {q : QueueRow} (hq : q ∈ s.queue)
    (hne : q.definitionID ≠ item.definitionID) : q.definitionID ∈ recent := by
  have hitem : s.services.idxOf item.definitionID ≤ recent.length := by
    rw [hs, List.idxOf_append]
    split_ifs with hmem
    · exact List.idxOf_le_length
    · simp
  by_contra hnot
  have hother : recent.length < s.services.idxOf q.definitionID := by
    rw [hs, List.idxOf_append_of_notMem hnot, List.idxOf_cons_ne _ hne.symm]
    omega
  rcases h q hq with hlt | ⟨heq, _⟩
  · omega
  · omega

theorem takes_least_recently_served {queue : List QueueRow} {lastSeq : ℕ} (hqueue : InOrder queue)
    (hissued : ∀ q ∈ queue, q.seq ≤ lastSeq) {events : List Event} {item : QueueItem}
    (hrun : Run (guarded Step Moderate) (start queue lastSeq) events s)
    (htake : guarded Step Moderate s (.take item) s') :
    (∃ q ∈ s.queue, q.item = item) ∧ s.Fair item ∧
      ∀ recent older, s.services = recent ++ item.definitionID :: older →
        ∀ q ∈ s.queue, q.definitionID ≠ item.definitionID → q.definitionID ∈ recent := by
  have htracks : s.Tracks := by
    refine hrun.invariant (fun _ _ _ hstep => hstep.2.tracks hstep.1) ?_
    exact ⟨hqueue, hissued, rfl, fun _ => by simp [start, Served.last], List.nodup_nil,
      fun _ h => by simp [start] at h⟩
  obtain ⟨hm, hstep⟩ := htake
  cases hstep with
  | take _ _ hi =>
    have hfair := htracks.fair hm hi
    obtain ⟨q, hq, hitem, _⟩ := mem_queueHeads (nextItem_mem hi)
    exact ⟨⟨q, hq, hitem⟩, hfair, fun recent older hs q hq => hfair.served_since hs hq⟩

def twoJobs : List QueueRow :=
  [⟨1, "a1", 1, 0, 900000000, 150⟩, ⟨2, "a2", 1, 0, 900000000, 150⟩, ⟨3, "b1", 2, 0, 900000000, 150⟩]

theorem takes_least_recently_served_two_jobs :
    (⟨twoJobs.tail, 3, [(1, 1)], 1, none, [1]⟩ : Rotation).Fair ⟨3, "b1", 2, 900000000⟩ := by
  have hrun : Run (guarded Step Moderate) (start twoJobs 3)
      [.take ⟨1, "a1", 1, 900000000⟩, .leave twoJobs.tail, .settle] ⟨twoJobs.tail, 3, [(1, 1)], 1, none, [1]⟩ :=
    .cons ⟨by decide, .take _ rfl (by decide +kernel)⟩ <|
    .cons ⟨trivial, .leave _ (List.tail_sublist _)⟩ <|
    .cons ⟨by decide, .settle _ rfl⟩ <|
    .nil _
  have hmoderate : (waitingDefinitions twoJobs.tail).length ≤ queueHeadWindow := by decide
  exact (takes_least_recently_served (by decide : InOrder twoJobs) (by decide) hrun
    ⟨hmoderate, .take _ rfl (by decide +kernel)⟩).2.1

def serve (s : Rotation) (q : QueueRow) : Rotation :=
  { s with
    queue := s.queue.tail
    served := s.served.mark q.definitionID (s.tick + 1)
    tick := s.tick + 1
    taken := none
    services := q.definitionID :: s.services }

lemma nextItem_head {served : Served} {q : QueueRow} {rest : List QueueRow} (h : InOrder (q :: rest))
    (hq : served.last q.definitionID = 0) :
    nextItem served (queueHeads queueHeadWindow (q :: rest)) = some q.item := by
  have hmem : q ∈ q :: rest := List.mem_cons_self
  have hhead : isHead (q :: rest) q = true := by
    refine (isHead_iff hmem).mpr fun p hp _ => ?_
    rcases List.mem_cons.mp hp with rfl | hp
    · exact le_rfl
    · exact (List.rel_of_pairwise_cons h hp).le
  obtain ⟨heads, hheads⟩ : ∃ heads, queueHeads queueHeadWindow (q :: rest) = q.item :: heads := by
    rw [h.queueHeads_eq, List.filter_cons_of_pos hhead]
    exact ⟨_, rfl⟩
  rw [hheads, nextItem_eq_argmin, List.argmin_cons]
  cases (heads.argmin fun h => served.last h.definitionID) with
  | none => rfl
  | some other =>
    have hnot : ¬ served.last other.definitionID < served.last q.item.definitionID := by
      simp [QueueRow.item, hq]
    simp [hnot]

lemma run_serve_all {front rest : List QueueRow} (hq : s.queue = front ++ rest) (ht : s.taken = none)
    (horder : InOrder s.queue) (hnodup : (front.map (·.definitionID)).Nodup)
    (hnew : ∀ q ∈ front, s.served.last q.definitionID = 0) (hl : s.served.length + front.length ≤ servedLimit) :
    ∃ events, Run Step s events (front.foldl serve s) := by
  induction front generalizing s with
  | nil => exact ⟨[], .nil s⟩
  | cons q front ih =>
    rw [List.cons_append] at hq
    rw [List.map_cons, List.nodup_cons] at hnodup
    simp only [List.length_cons] at hl
    have hlength := s.served.length_mark_le q.definitionID (s.tick + 1)
    have hkept : (s.take q.item).settle.served = s.served.mark q.definitionID (s.tick + 1) :=
      if_neg (Nat.not_lt.mpr (hlength.trans (by omega)))
    have htake : Step s (.take q.item) (s.take q.item) :=
      .take _ ht (hq ▸ nextItem_head (hq ▸ horder) (hnew q List.mem_cons_self))
    have hserve : Run Step s [.take q.item, .settle, .leave s.queue.tail] (s.serve q) := by
      refine .cons htake <| .cons (.settle _ rfl) <| .cons (.leave _ (List.tail_sublist _)) ?_
      rw [hkept]
      exact .nil _
    obtain ⟨events, hrest⟩ : ∃ events, Run Step (s.serve q) events (front.foldl serve (s.serve q)) := by
      refine ih (congrArg List.tail hq) rfl (horder.sublist (List.tail_sublist _)) hnodup.2 (fun p hp => ?_) ?_
      · have hne : p.definitionID ≠ q.definitionID := fun he => hnodup.1 (he ▸ List.mem_map_of_mem hp)
        exact (Served.last_mark_of_ne hne).trans (hnew p (List.mem_cons_of_mem _ hp))
      · exact (Nat.add_le_add_right hlength _).trans (by omega)
    exact ⟨_, hserve.append hrest⟩

def crowded : List QueueRow :=
  (List.range 129).map fun i => ⟨i + 1, toString i, if i < 128 then i % 64 + 1 else 65, 0, 900000000, 150⟩

lemma crowded_inOrder : InOrder crowded :=
  List.pairwise_map.mpr (List.pairwise_lt_range.imp fun h => Nat.succ_lt_succ h)

theorem definition_overtaken :
    ∃ events s s' item, Run Step (start crowded 129) events s ∧ Step s (.take item) s' ∧
      item.definitionID ∈ s.services ∧ 65 ∉ s.services ∧
      ∃ q ∈ s.queue, q ∈ crowded ∧ q.definitionID = 65 := by
  obtain ⟨events, hrun⟩ : ∃ events, Run Step (start crowded 129) events
      ((crowded.take 64).foldl serve (start crowded 129)) := by
    refine run_serve_all (List.take_append_drop 64 crowded).symm rfl crowded_inOrder ?_ (fun _ _ => rfl) ?_
    · decide +kernel
    · decide
  refine ⟨events, _, _, ⟨65, "64", 1, 900000000⟩, hrun, .take _ ?_ ?_, ?_, ?_, ?_⟩
  · decide +kernel
  · decide +kernel
  · decide +kernel
  · decide +kernel
  · decide +kernel

end Rotation

end Minicrond.Executor
