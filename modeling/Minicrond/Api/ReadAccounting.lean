import Minicrond.Api.ReadGate
import Mathlib.Algebra.BigOperators.Group.List.Basic

/-! What the counters of the admission gate say about the reads that hold a slot and those that wait for one. -/

namespace Minicrond.Api

open Minicrond.Library

structure Request extends Read where
  nonneg : 0 ≤ cost

/-- A read in the `select` of `acquireKind`: the channel it took when it last looked, and the
releases since then. -/
structure Waiter where
  request : Request
  channel : ℕ
  missed : ℕ := 0

structure Grant where
  request : Request
  released : Bool := false

structure GateState where
  gate : ReadGate
  closed : List ℕ := []
  waiters : List Waiter := []
  grants : List Grant := []

namespace GateState

variable (s : GateState)

def start (l : ReadLimits) : GateState := { gate := newReadGate l }

def acquire (r : Request) (waiting : Bool) : GateState :=
  match s.gate.acquireKind r.toRead waiting with
  | (.admitted, g) => { s with gate := g, grants := { request := r } :: s.grants }
  | (.busy, g) => { s with gate := g }
  | (.waits, g) => { s with gate := g, waiters := { request := r, channel := g.changed } :: s.waiters }

def giveUp (waiters : List Waiter) : GateState :=
  { s with gate := { s.gate with waiting := s.gate.waiting - 1 }, waiters := waiters }

def release (r : Request) (grants : List Grant) : GateState :=
  { gate := s.gate.release r.toRead
    closed := s.gate.changed :: s.closed
    waiters := s.waiters.map fun q => { q with missed := q.missed + 1 }
    grants := grants }

def outstanding : List Request := (s.grants.filter fun x => !x.released).map Grant.request

end GateState

inductive GateEvent where
  | arrive (r : Request)
  | wake
  | giveUp
  | release

inductive GateStep : GateState → GateEvent → GateState → Prop
  | arrive {s} (r) : GateStep s (.arrive r) (s.acquire r false)
  | wake {s q before after} (hq : s.waiters = before ++ q :: after) (hclosed : q.channel ∈ s.closed) :
      GateStep s .wake (GateState.acquire { s with waiters := before ++ after } q.request true)
  -- The time is over, or the caller's context has ended.
  | giveUp {s q before after} (hq : s.waiters = before ++ q :: after) :
      GateStep s .giveUp (s.giveUp (before ++ after))
  | release {s x before after} (hx : s.grants = before ++ x :: after) :
      GateStep s .release
        (if x.released then s else s.release x.request (before ++ { x with released := true } :: after))

/-- The counters count the outstanding grants and the waiters, within the limits of the gate, and no waiter sleeps
on a channel after a release. -/
structure GateState.Accounted (l : ReadLimits) (s : GateState) : Prop where
  inflight : s.gate.inflight = s.outstanding.length
  downloads : s.gate.downloads = (s.outstanding.filter fun r => r.download).length
  bytes : s.gate.bytes = (s.outstanding.map fun r => r.cost).sum
  waiting : s.gate.waiting = s.waiters.length
  slots : s.gate.inflight ≤ (newReadGate l).slots
  maxDownloads : s.gate.downloads ≤ max 1 ((newReadGate l).slots - 1)
  budget : (newReadGate l).budget < s.gate.bytes → s.gate.inflight = 1
  maxWaiters : s.gate.waiting ≤ (newReadGate l).maxWaiters
  woken : ∀ q ∈ s.waiters, 0 < q.missed → q.channel ∈ s.closed

namespace GateState

variable {l : ReadLimits} {s : GateState} {r : Request}

structure Sound (l : ReadLimits) (s : GateState) : Prop where
  limits : s.gate.slots = (newReadGate l).slots ∧ s.gate.budget = (newReadGate l).budget ∧
    s.gate.maxWaiters = (newReadGate l).maxWaiters ∧ s.gate.maxDownloads = (newReadGate l).maxDownloads
  inflight : s.gate.inflight = s.outstanding.length
  downloads : s.gate.downloads = (s.outstanding.filter fun r => r.download).length
  bytes : s.gate.bytes = (s.outstanding.map fun r => r.cost).sum
  waiting : s.gate.waiting = s.waiters.length
  slots : s.gate.inflight ≤ s.gate.slots
  maxDownloads : s.gate.downloads ≤ s.gate.maxDownloads
  budget : s.gate.budget < s.gate.bytes → s.gate.inflight = 1
  maxWaiters : s.gate.waiting ≤ s.gate.maxWaiters
  channels : ∀ n < s.gate.changed, n ∈ s.closed
  waiters : ∀ q ∈ s.waiters, 0 < q.missed → q.channel < s.gate.changed
  current : ∀ q ∈ s.waiters, q.channel ≤ s.gate.changed

lemma newReadGate_pos (l : ReadLimits) :
    0 < (newReadGate l).slots ∧ 0 < (newReadGate l).budget ∧ 0 < (newReadGate l).maxDownloads := by
  simp only [newReadGate, defaultReadSlots, defaultReadBudgetBytes]
  split_ifs <;> omega

lemma sound_start (l : ReadLimits) : (start l).Sound l := by
  obtain ⟨hslots, hbudget, hdownloads⟩ := newReadGate_pos l
  refine ⟨⟨rfl, rfl, rfl, rfl⟩, rfl, rfl, rfl, rfl, hslots.le, hdownloads.le, fun hlt => absurd hlt hbudget.not_gt,
    ?_, nofun, nofun, nofun⟩
  change (0 : ℤ) ≤ 4 * (newReadGate l).slots
  omega

lemma Sound.accounted (h : s.Sound l) : s.Accounted l := by
  obtain ⟨hslots, hbudget, hwaiters, hdownloads⟩ := h.limits
  exact ⟨h.inflight, h.downloads, h.bytes, h.waiting, hslots ▸ h.slots, h.maxDownloads.trans_eq hdownloads,
    hbudget ▸ h.budget, hwaiters ▸ h.maxWaiters, fun q hq hm => h.channels _ (h.waiters q hq hm)⟩

lemma Sound.admit (h : s.Sound l) (r : Request) (hslot : s.gate.inflight < s.gate.slots)
    (hroom : s.gate.inflight = 0 ∨ s.gate.bytes + r.cost ≤ s.gate.budget)
    (hcap : r.download = true → s.gate.downloads < s.gate.maxDownloads) :
    Sound l { s with
      gate := { s.gate with
        inflight := s.gate.inflight + 1
        downloads := if r.download = true then s.gate.downloads + 1 else s.gate.downloads
        bytes := s.gate.bytes + r.cost }
      grants := { request := r } :: s.grants } := by
  have houtstanding : ∀ g, outstanding { s with gate := g, grants := { request := r } :: s.grants } =
      r :: s.outstanding := fun _ => rfl
  refine { h with inflight := ?_, downloads := ?_, bytes := ?_, slots := hslot, maxDownloads := ?_, budget := ?_ }
  · rw [houtstanding, List.length_cons, Nat.cast_add, Nat.cast_one, h.inflight]
  · rw [houtstanding, List.filter_cons, h.downloads]
    split_ifs
    case pos => rw [List.length_cons, Nat.cast_add, Nat.cast_one]
    case neg => rfl
  · rw [houtstanding, List.map_cons, List.sum_cons, ← h.bytes]
    exact add_comm _ _
  · dsimp only
    split_ifs with hd
    case pos => exact hcap hd
    case neg => exact h.maxDownloads
  · intro hover
    obtain hzero | hfits := hroom
    · exact congrArg (· + 1) hzero
    · exact absurd hover hfits.not_gt

lemma Sound.enqueue (h : s.Sound l) (r : Request) (hqueue : s.gate.waiting < s.gate.maxWaiters) :
    Sound l { s with
      gate := { s.gate with waiting := s.gate.waiting + 1 }
      waiters := { request := r, channel := s.gate.changed } :: s.waiters } := by
  refine { h with waiting := ?_, maxWaiters := hqueue, waiters := ?_, current := ?_ }
  · rw [List.length_cons, Nat.cast_add, Nat.cast_one, ← h.waiting]
  · exact List.forall_mem_cons.mpr ⟨nofun, h.waiters⟩
  · exact List.forall_mem_cons.mpr ⟨le_rfl, h.current⟩

lemma Sound.acquire {waiting : Bool} (h : Sound l { s with gate := s.gate.left waiting }) (r : Request) :
    (s.acquire r waiting).Sound l := by
  rw [GateState.acquire]
  obtain hbusy | ⟨hslot, hroom, hcap, hadmitted⟩ | ⟨hqueue, hwaits⟩ := s.gate.acquireKind_cases r.toRead waiting
  · rw [hbusy]
    exact h
  · rw [hadmitted]
    exact h.admit r hslot hroom hcap
  · rw [hwaits]
    exact h.enqueue r hqueue

lemma Sound.leave (h : s.Sound l) {q : Waiter} {before after : List Waiter}
    (hq : s.waiters = before ++ q :: after) :
    Sound l { s with gate := s.gate.left true, waiters := before ++ after } := by
  have hsubset : ∀ p ∈ before ++ after, p ∈ s.waiters := fun p hp => by
    rw [hq]
    exact (List.Sublist.append_left (List.sublist_cons_self q after) before).subset hp
  have hwaiting : s.gate.waiting = (before ++ after).length + 1 := by
    rw [h.waiting, hq, List.length_append, List.length_append, List.length_cons]
    omega
  refine { h with waiting := ?_, maxWaiters := ?_, waiters := ?_, current := ?_ }
  · change s.gate.waiting - 1 = _
    rw [hwaiting]
    exact add_sub_cancel_right _ _
  · exact (sub_le_self _ one_pos.le).trans h.maxWaiters
  · exact fun p hp => h.waiters p (hsubset p hp)
  · exact fun p hp => h.current p (hsubset p hp)

lemma outstanding_release {x : Grant} {before after : List Grant} (hx : s.grants = before ++ x :: after)
    (hreleased : x.released = false) :
    ∃ front back, s.outstanding = front ++ x.request :: back ∧
      (s.release x.request (before ++ { x with released := true } :: after)).outstanding = front ++ back := by
  refine ⟨(before.filter fun x => !x.released).map Grant.request,
    (after.filter fun x => !x.released).map Grant.request, ?_, ?_⟩
  · rw [outstanding, hx, List.filter_append, List.filter_cons_of_pos (by rw [hreleased]; rfl), List.map_append,
      List.map_cons]
  · rw [outstanding, release, List.filter_append, List.filter_cons_of_neg (by exact Bool.false_ne_true),
      List.map_append]

lemma Sound.release (h : s.Sound l) {x : Grant} {before after : List Grant} (hx : s.grants = before ++ x :: after)
    (hreleased : x.released = false) :
    (s.release x.request (before ++ { x with released := true } :: after)).Sound l := by
  obtain ⟨front, back, hold, hrest⟩ := outstanding_release hx hreleased
  have hperm : s.outstanding.Perm (x.request :: (front ++ back)) := hold ▸ List.perm_middle
  generalize front ++ back = rest at hrest hperm
  have hinflight : s.gate.inflight = rest.length + 1 := by
    rw [h.inflight, hperm.length_eq, List.length_cons, Nat.cast_add, Nat.cast_one]
  have hdownloads : s.gate.downloads = (rest.filter fun r => r.download).length +
      if x.request.download then 1 else 0 := by
    rw [h.downloads, (hperm.filter _).length_eq, List.filter_cons]
    split_ifs
    case pos => rw [List.length_cons, Nat.cast_add, Nat.cast_one]
    case neg => rw [add_zero]
  have hbytes : s.gate.bytes = x.request.cost + (rest.map fun r => r.cost).sum := by
    rw [h.bytes, (hperm.map _).sum_eq, List.map_cons, List.sum_cons]
  have hcost := x.request.nonneg
  refine ⟨h.limits, ?_, ?_, ?_, ?_, ?_, ?_, ?_, h.maxWaiters, ?_, ?_, ?_⟩
  · rw [hrest]
    change s.gate.inflight - 1 = _
    omega
  · rw [hrest]
    dsimp only [GateState.release, ReadGate.release]
    split_ifs at hdownloads ⊢ <;> omega
  · rw [hrest]
    change s.gate.bytes - x.request.cost = _
    omega
  · exact h.waiting.trans (congrArg Nat.cast (List.length_map _).symm)
  · exact (sub_le_self _ one_pos.le).trans h.slots
  · have hmax := h.maxDownloads
    dsimp only [GateState.release, ReadGate.release]
    split_ifs <;> omega
  · intro hover
    change s.gate.budget < s.gate.bytes - x.request.cost at hover
    -- alone in flight with more than the budget, it leaves nothing reserved
    have hone := h.budget (by omega)
    obtain rfl : rest = [] := List.length_eq_zero_iff.mp (by omega)
    rw [List.map_nil, List.sum_nil] at hbytes
    have hpos := (newReadGate_pos l).2.1
    rw [← h.limits.2.1] at hpos
    omega
  · intro n hn
    rcases Nat.lt_succ_iff_lt_or_eq.mp hn with hlt | rfl
    · exact List.mem_cons_of_mem _ (h.channels n hlt)
    · exact List.mem_cons_self
  · intro q hq _
    obtain ⟨p, hp, rfl⟩ := List.mem_map.mp hq
    exact Nat.lt_succ_of_le (h.current p hp)
  · intro q hq
    obtain ⟨p, hp, rfl⟩ := List.mem_map.mp hq
    exact Nat.le_succ_of_le (h.current p hp)

end GateState

lemma GateStep.sound {l : ReadLimits} {s t : GateState} {e : GateEvent} (hstep : GateStep s e t) (h : s.Sound l) :
    t.Sound l := by
  cases hstep with
  | arrive r => exact @GateState.Sound.acquire _ _ false h r
  | @wake q before after hq hclosed => exact @GateState.Sound.acquire _ _ true (h.leave hq) q.request
  | giveUp hq => exact h.leave hq
  | release hx =>
    split_ifs with hreleased
    case pos => exact h
    case neg => exact h.release hx (Bool.eq_false_of_not_eq_true hreleased)

/-- In every run of acquires and releases the counters are exact and within the limits, and no waiter sleeps
through a release. -/
theorem read_gate_accounted (l : ReadLimits) {events : List GateEvent} {s : GateState}
    (hrun : Run GateStep (.start l) events s) : s.Accounted l :=
  (hrun.invariant (fun _ _ _ hstep => hstep.sound) (GateState.sound_start l)).accounted

theorem read_gate_accounted_oversized :
    ∃ events s, Run GateStep (.start ⟨1, 10⟩) events s ∧ s.gate.inflight = 1 ∧ s.Accounted ⟨1, 10⟩ := by
  have hrun : Run GateStep (.start ⟨1, 10⟩)
      [.arrive ⟨⟨20, 1, true⟩, by decide⟩, .arrive ⟨⟨5, 1, false⟩, by decide⟩, .release, .release, .wake] _ :=
    .cons (.arrive _) <|
    .cons (.arrive _) <|
    .cons (@GateStep.release _ _ [] [] rfl) <|
    .cons (@GateStep.release _ _ [] [] rfl) <|
    .cons (@GateStep.wake _ _ [] [] rfl (by decide)) <|
    .nil _
  exact ⟨_, _, hrun, by decide, read_gate_accounted _ hrun⟩

/-! ## The reads of the gate -/

def Waiter.queued (q : Waiter) : Read × ℕ := (q.request.toRead, q.channel)

/-- The grants and waiters as the reads that hold a slot and those in the queue: a second call of a release does
nothing, and a channel is closed when its number is below the current one. -/
def GateState.reads (s : GateState) : Reads where
  gate := s.gate
  held := s.outstanding.map Request.toRead
  queued := s.waiters.map Waiter.queued

def GateState.Numbered (s : GateState) : Prop := ∀ n ∈ s.closed, n < s.gate.changed

namespace GateState

variable {s : GateState} {r : Request} {waiting : Bool}

lemma reads_acquire : (s.acquire r waiting).reads = s.reads.acquire r.toRead waiting := by
  rw [GateState.acquire, Reads.acquire, show s.reads.gate = s.gate from rfl]
  obtain hbusy | ⟨-, -, -, hadmitted⟩ | ⟨-, hwaits⟩ := s.gate.acquireKind_cases r.toRead waiting
  · rw [hbusy]
    rfl
  · rw [hadmitted]
    rfl
  · rw [hwaits]
    rfl

lemma queued_waiters {q : Waiter} {before after : List Waiter} (hq : s.waiters = before ++ q :: after) :
    s.reads.queued = before.map Waiter.queued ++ (q.request.toRead, q.channel) :: after.map Waiter.queued := by
  rw [reads, hq, List.map_append, List.map_cons, Waiter.queued]

lemma reads_release {grants : List Grant} : (s.release r grants).reads =
    { s.reads with
      gate := s.gate.release r.toRead
      held := (s.release r grants).outstanding.map Request.toRead } := by
  simp [reads, release, Waiter.queued, Function.comp_def]

lemma Numbered.acquire (h : s.Numbered) : (s.acquire r waiting).Numbered := by
  rw [GateState.acquire]
  obtain hbusy | ⟨-, -, -, hadmitted⟩ | ⟨-, hwaits⟩ := s.gate.acquireKind_cases r.toRead waiting
  · rw [hbusy]
    exact h
  · rw [hadmitted]
    exact h
  · rw [hwaits]
    exact h

lemma Numbered.release {grants : List Grant} (h : s.Numbered) : (s.release r grants).Numbered := by
  intro n hn
  rcases List.mem_cons.mp hn with rfl | hn
  · exact Nat.lt_succ_self _
  · exact Nat.lt_succ_of_lt (h n hn)

end GateState

lemma GateStep.reads {s t : GateState} {e : GateEvent} (h : GateStep s e t) (hs : s.Numbered) :
    t.Numbered ∧ (t.reads = s.reads ∨ ∃ i, ReadStep s.reads i t.reads) := by
  cases h with
  | arrive r =>
    exact ⟨hs.acquire, .inr ⟨.arrive r.toRead, GateState.reads_acquire ▸ ReadStep.arrive s.reads r.toRead⟩⟩
  | @wake q before after hq hclosed =>
    refine ⟨GateState.Numbered.acquire hs, .inr ⟨.wake q.request.toRead, ?_⟩⟩
    rw [GateState.reads_acquire]
    have hstep := ReadStep.wake (GateState.queued_waiters hq) (hs _ hclosed)
    rwa [← List.map_append] at hstep
  | @giveUp q before after hq =>
    have hstep := ReadStep.giveUp (GateState.queued_waiters hq)
    rw [← List.map_append] at hstep
    exact ⟨hs, .inr ⟨_, hstep⟩⟩
  | @release x before after hx =>
    split_ifs with hreleased
    · exact ⟨hs, .inl rfl⟩
    obtain ⟨front, back, hold, hrest⟩ := GateState.outstanding_release hx (Bool.eq_false_of_not_eq_true hreleased)
    have hheld : s.reads.held = front.map Request.toRead ++ x.request.toRead :: back.map Request.toRead := by
      rw [GateState.reads, hold, List.map_append, List.map_cons]
    have hstep := ReadStep.release hheld
    rw [← List.map_append, ← hrest] at hstep
    exact ⟨hs.release, .inr ⟨.release x.request.toRead, GateState.reads_release ▸ hstep⟩⟩

/-- Every run of the gate with its grants and waiters is a run of the reads, so what holds for the reads
holds for it. -/
lemma gate_refines_reads {l : ReadLimits} {events : List GateEvent} {s : GateState}
    (h : Run GateStep (.start l) events s) : ∃ is, Run ReadStep ⟨newReadGate l, [], []⟩ is s.reads := by
  have hstep : ∀ s e t a, GateStep s e t → s.Numbered ∧ s.reads = a →
      ∃ is b, Run ReadStep a is b ∧ t.Numbered ∧ t.reads = b := by
    rintro s e t _ h ⟨hs, rfl⟩
    obtain ⟨ht, heq | ⟨i, hi⟩⟩ := h.reads hs
    · exact ⟨[], _, .nil _, ht, heq⟩
    · exact ⟨[i], _, .cons hi (.nil _), ht, rfl⟩
  have hnone : (GateState.start l).Numbered := by simp [GateState.Numbered, GateState.start]
  obtain ⟨is, _, hrun, -, rfl⟩ := h.simulates ReadStep _ hstep ⟨hnone, rfl⟩
  exact ⟨is, hrun⟩

end Minicrond.Api
