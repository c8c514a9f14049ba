import Minicrond.Library.Machine
import Mathlib.Algebra.Order.Ring.Int
import Mathlib.Tactic.Ring

/-! The admission gate that log pages, raw downloads and metrics share, and what downloads leave for
the other reads. -/

namespace Minicrond.Api

open Minicrond.Library

structure ReadLimits where
  slots : ℤ
  budgetBytes : ℤ

def defaultReadSlots : ℤ := 4

def defaultReadBudgetBytes : ℤ := 33554432

def logPageCost : ℤ := 4194304

def rawPageCost : ℤ := 4194304

def metricsCost : ℤ := 8388608

def minReadBudgetBytes : ℤ := metricsCost

structure ReadGate where
  slots : ℤ
  budget : ℤ
  maxWaiters : ℤ
  maxDownloads : ℤ
  inflight : ℤ := 0
  downloads : ℤ := 0
  bytes : ℤ := 0
  waiting : ℤ := 0
  -- The number of the channel that the next release closes.
  changed : ℕ := 0
  deriving DecidableEq

def newReadGate (l : ReadLimits) : ReadGate :=
  let slots := if l.slots ≤ 0 then defaultReadSlots else l.slots
  let budget := if l.budgetBytes ≤ 0 then defaultReadBudgetBytes else l.budgetBytes
  { slots, budget, maxWaiters := 4 * slots, maxDownloads := max 1 (slots - 1) }

structure Read where
  cost : ℤ
  wait : ℤ
  download : Bool
  deriving DecidableEq

inductive Pass where
  | admitted
  | busy
  | waits
  deriving DecidableEq

namespace ReadGate

variable (g : ReadGate)

def acquireKind (r : Read) (waiting : Bool) : Pass × ReadGate :=
  let g := if waiting = true then { g with waiting := g.waiting - 1 } else g
  if r.download = true ∧ g.maxDownloads ≤ g.downloads then (.busy, g)
  else if g.inflight < g.slots ∧ (g.inflight = 0 ∨ g.bytes + r.cost ≤ g.budget) then
    (.admitted, { g with
      inflight := g.inflight + 1
      downloads := if r.download = true then g.downloads + 1 else g.downloads
      bytes := g.bytes + r.cost })
  else if r.wait ≤ 0 ∨ g.maxWaiters ≤ g.waiting then (.busy, g)
  else (.waits, { g with waiting := g.waiting + 1 })

def release (r : Read) : ReadGate :=
  { g with
    inflight := g.inflight - 1
    downloads := if r.download = true then g.downloads - 1 else g.downloads
    bytes := g.bytes - r.cost
    changed := g.changed + 1 }

end ReadGate

structure Reads where
  gate : ReadGate
  held : List Read := []
  queued : List (Read × ℕ) := []
  deriving DecidableEq

def Reads.acquire (s : Reads) (r : Read) (waiting : Bool) : Reads :=
  match s.gate.acquireKind r waiting with
  | (.admitted, g) => { s with gate := g, held := r :: s.held }
  | (.busy, g) => { s with gate := g }
  | (.waits, g) => { s with gate := g, queued := (r, g.changed) :: s.queued }

inductive ReadEvent where
  | arrive (r : Read)
  | wake (r : Read)
  | giveUp (r : Read)
  | release (r : Read)

inductive ReadStep : Reads → ReadEvent → Reads → Prop
  | arrive (s r) : ReadStep s (.arrive r) (s.acquire r false)
  | wake {s r n before after} (hq : s.queued = before ++ (r, n) :: after) (hn : n < s.gate.changed) :
      ReadStep s (.wake r) (Reads.acquire { s with queued := before ++ after } r true)
  -- The wait is over or the caller's context has ended.
  | giveUp {s r n before after} (hq : s.queued = before ++ (r, n) :: after) :
      ReadStep s (.giveUp r)
        { s with gate := { s.gate with waiting := s.gate.waiting - 1 }, queued := before ++ after }
  | release {s r before after} (hh : s.held = before ++ r :: after) :
      ReadStep s (.release r) { s with gate := s.gate.release r, held := before ++ after }

def Read.isDownload (r : Read) : Prop := r.download = true ∧ r.cost = rawPageCost

def DownloadsOnly (_ : Reads) (i : ReadEvent) : Prop := ∀ r, i = .arrive r → r.isDownload

def ReadGate.Open (g : ReadGate) : Prop :=
  ∀ cost ∈ [logPageCost, metricsCost], ∀ wait, (g.acquireKind ⟨cost, wait, false⟩ false).1 = .admitted

structure Downloading (l : ReadLimits) (s : Reads) : Prop where
  slots : s.gate.slots = l.slots
  budget : s.gate.budget = l.budgetBytes
  maxDownloads : s.gate.maxDownloads = l.slots - 1
  held : ∀ r ∈ s.held, r.isDownload
  queued : ∀ q ∈ s.queued, q.1.isDownload
  inflight : s.gate.inflight = s.held.length
  downloads : s.gate.downloads = s.held.length
  bytes : s.gate.bytes = rawPageCost * s.held.length
  capped : (s.held.length : ℤ) ≤ l.slots - 1

def ReadGate.left (g : ReadGate) (waiting : Bool) : ReadGate :=
  { g with waiting := if waiting = true then g.waiting - 1 else g.waiting }

lemma ReadGate.acquireKind_cases (g : ReadGate) (r : Read) (waiting : Bool) :
    g.acquireKind r waiting = (.busy, g.left waiting) ∨
      (g.inflight < g.slots ∧ (g.inflight = 0 ∨ g.bytes + r.cost ≤ g.budget) ∧
        (r.download = true → g.downloads < g.maxDownloads) ∧
        g.acquireKind r waiting = (.admitted, { g.left waiting with
          inflight := g.inflight + 1
          downloads := if r.download = true then g.downloads + 1 else g.downloads
          bytes := g.bytes + r.cost })) ∨
      ((g.left waiting).waiting < g.maxWaiters ∧
        g.acquireKind r waiting = (.waits, { g.left waiting with waiting := (g.left waiting).waiting + 1 })) := by
  have hfirst : g.acquireKind r waiting = (g.left waiting).acquireKind r false := by cases waiting <;> rfl
  rw [hfirst]
  simp only [ReadGate.left]
  generalize (if waiting = true then g.waiting - 1 else g.waiting) = v
  simp only [ReadGate.acquireKind, Bool.false_eq_true, if_false]
  by_cases hcap : r.download = true ∧ g.maxDownloads ≤ g.downloads
  · rw [if_pos hcap]
    exact .inl rfl
  rw [if_neg hcap]
  by_cases hroom : g.inflight < g.slots ∧ (g.inflight = 0 ∨ g.bytes + r.cost ≤ g.budget)
  · rw [if_pos hroom]
    exact .inr (.inl ⟨hroom.1, hroom.2, fun hd => not_le.mp fun hle => hcap ⟨hd, hle⟩, rfl⟩)
  rw [if_neg hroom]
  by_cases hfull : r.wait ≤ 0 ∨ g.maxWaiters ≤ v
  · rw [if_pos hfull]
    exact .inl rfl
  · rw [if_neg hfull]
    exact .inr (.inr ⟨not_le.mp fun hle => hfull (.inr hle), rfl⟩)

section

variable {l : ReadLimits} {s t : Reads} {i : ReadEvent} {r : Read}

lemma downloading_new (hslots : 2 ≤ l.slots) (hbudget : minReadBudgetBytes ≤ l.budgetBytes) :
    Downloading l ⟨newReadGate l, [], []⟩ := by
  have hpos : 0 < l.budgetBytes := lt_of_lt_of_le (by decide) hbudget
  constructor
  · exact if_neg (by omega)
  · exact if_neg (by omega)
  · simp only [newReadGate, if_neg (show ¬ l.slots ≤ 0 by omega)]
    omega
  · simp
  · simp
  · rfl
  · rfl
  · rfl
  · simp only [List.length_nil, Nat.cast_zero]
    omega

lemma Reads.acquire_cases (s : Reads) (r : Read) (waiting : Bool) :
    ∃ w, s.acquire r waiting = { s with gate := { s.gate with waiting := w } } ∨
      s.acquire r waiting =
        { s with gate := { s.gate with waiting := w }, queued := (r, s.gate.changed) :: s.queued } ∨
      (r.download = true → s.gate.downloads < s.gate.maxDownloads) ∧
        s.acquire r waiting =
          { s with
            gate := { s.gate with
              waiting := w
              inflight := s.gate.inflight + 1
              downloads := if r.download = true then s.gate.downloads + 1 else s.gate.downloads
              bytes := s.gate.bytes + r.cost }
            held := r :: s.held } := by
  obtain hbusy | ⟨-, -, hcap, hadmitted⟩ | ⟨-, hwaits⟩ := s.gate.acquireKind_cases r waiting
  · exact ⟨_, .inl (by rw [Reads.acquire, hbusy]; rfl)⟩
  · exact ⟨_, .inr (.inr ⟨hcap, by rw [Reads.acquire, hadmitted]; rfl⟩)⟩
  · exact ⟨_, .inr (.inl (by rw [Reads.acquire, hwaits]; rfl))⟩

lemma Downloading.acquire (h : Downloading l s) (hr : r.isDownload) (waiting : Bool) :
    Downloading l (s.acquire r waiting) := by
  have hcount := h.downloads
  have hcap := h.maxDownloads
  obtain ⟨w, hbusy | hwaits | ⟨hroom, hadmitted⟩⟩ := s.acquire_cases r waiting
  · rw [hbusy]
    exact { h with }
  · rw [hwaits]
    exact { h with queued := List.forall_mem_cons.mpr ⟨hr, h.queued⟩ }
  · rw [hadmitted]
    have hlt := hroom hr.1
    refine { h with
      held := List.forall_mem_cons.mpr ⟨hr, h.held⟩
      inflight := ?_
      downloads := ?_
      bytes := ?_
      capped := ?_ }
    · simp only [List.length_cons, Nat.cast_add, Nat.cast_one, h.inflight]
    · simp only [hr.1, if_true, List.length_cons, Nat.cast_add, Nat.cast_one, hcount]
    · simp only [h.bytes, hr.2, List.length_cons, Nat.cast_add, Nat.cast_one]
      ring
    · simp only [List.length_cons, Nat.cast_add, Nat.cast_one]
      omega

lemma Downloading.release {before after : List Read} (h : Downloading l s) (hh : s.held = before ++ r :: after) :
    Downloading l { s with gate := s.gate.release r, held := before ++ after } := by
  obtain ⟨hdownload, hcost⟩ := h.held r (by simp [hh])
  have hlength : (s.held.length : ℤ) = (before ++ after).length + 1 := by
    simp only [hh, List.length_append, List.length_cons]
    omega
  have hcapped := h.capped
  refine { h with held := fun q hq => h.held q ?_, inflight := ?_, downloads := ?_, bytes := ?_, capped := ?_ }
  · rw [hh]
    exact (List.Sublist.append_left (List.sublist_cons_self r after) before).subset hq
  · simp only [ReadGate.release, h.inflight, hlength, add_sub_cancel_right]
  · simp only [ReadGate.release, hdownload, if_true, h.downloads, hlength, add_sub_cancel_right]
  · simp only [ReadGate.release, h.bytes, hcost, hlength]
    ring
  · dsimp only
    omega

lemma ReadStep.downloading (hstep : ReadStep s i t) (honly : DownloadsOnly s i) (h : Downloading l s) :
    Downloading l t := by
  have hrest {before after : List (Read × ℕ)} {q : Read × ℕ} (hq : s.queued = before ++ q :: after) :
      q.1.isDownload ∧ ∀ p ∈ before ++ after, p.1.isDownload := by
    refine ⟨h.queued q (by simp [hq]), fun p hp => h.queued p ?_⟩
    rw [hq]
    exact (List.Sublist.append_left (List.sublist_cons_self q after) before).subset hp
  cases hstep with
  | arrive r => exact h.acquire (honly r rfl) false
  | @wake r n before after hq =>
    have hbefore : Downloading l { s with queued := before ++ after } := { h with queued := (hrest hq).2 }
    exact hbefore.acquire (hrest hq).1 true
  | giveUp hq => exact { h with queued := (hrest hq).2 }
  | release hh => exact h.release hh

lemma downloads_reach (hslots : 2 ≤ l.slots) (hbudget : minReadBudgetBytes ≤ l.budgetBytes) (n : ℕ)
    (hn : (n : ℤ) ≤ l.slots - 1) (hbytes : rawPageCost * n ≤ l.budgetBytes) :
    ∃ is s, Run (guarded ReadStep DownloadsOnly) ⟨newReadGate l, [], []⟩ is s ∧ s.held.length = n := by
  induction n with
  | zero => exact ⟨[], _, .nil _, rfl⟩
  | succ n ih =>
    rw [Nat.cast_add, Nat.cast_one] at hn hbytes
    have hcost : rawPageCost * n ≤ l.budgetBytes := by
      simp only [rawPageCost] at *
      omega
    obtain ⟨is, s, hrun, hlength⟩ := ih (by omega) hcost
    have h : Downloading l s :=
      hrun.invariant (fun _ _ _ hstep hd => hstep.2.downloading hstep.1 hd) (downloading_new hslots hbudget)
    have hslot : s.gate.inflight < s.gate.slots := by
      rw [h.inflight, h.slots, hlength]
      omega
    have hroom : s.gate.bytes + rawPageCost ≤ s.gate.budget := by
      rw [h.bytes, h.budget, hlength]
      simp only [rawPageCost] at *
      omega
    have hcap : ¬ s.gate.maxDownloads ≤ s.gate.downloads := by
      rw [h.downloads, h.maxDownloads, hlength]
      omega
    refine ⟨is ++ [.arrive ⟨rawPageCost, 0, true⟩], _, hrun.append (.cons ⟨?_, .arrive _ _⟩ (.nil _)), ?_⟩
    · rintro r ⟨⟩
      exact ⟨rfl, rfl⟩
    · simp [Reads.acquire, ReadGate.acquireKind, hcap, hslot, hroom, hlength]

lemma ReadGate.admitted_iff {g : ReadGate} {cost wait : ℤ} :
    (g.acquireKind ⟨cost, wait, false⟩ false).1 = .admitted ↔
      g.inflight < g.slots ∧ (g.inflight = 0 ∨ g.bytes + cost ≤ g.budget) := by
  simp only [ReadGate.acquireKind, Bool.false_eq_true, false_and, if_false]
  split_ifs <;> simp_all

lemma Downloading.open_iff (h : Downloading l s) :
    s.gate.Open ↔ s.held = [] ∨ rawPageCost * s.held.length + metricsCost ≤ l.budgetBytes := by
  have hcapped := h.capped
  have hslot : (s.held.length : ℤ) < l.slots := by omega
  simp only [ReadGate.Open, ReadGate.admitted_iff, h.inflight, h.bytes, h.budget, h.slots, hslot, true_and,
    Nat.cast_eq_zero, List.length_eq_zero_iff, List.forall_mem_cons, List.not_mem_nil, false_implies, implies_true,
    and_true, forall_const]
  refine ⟨And.right, fun hroom => ⟨hroom.imp_right fun hle => ?_, hroom⟩⟩
  simp only [logPageCost, metricsCost] at *
  omega

end

/-- Downloads leave room for a log page and a metrics request whenever the budget covers the metrics request beside
as many downloads as the gate lets run at once, and under no smaller budget. -/
theorem downloads_leave_room_iff {l : ReadLimits} (hslots : 2 ≤ l.slots)
    (hbudget : minReadBudgetBytes ≤ l.budgetBytes) :
    (∀ is s, Run (guarded ReadStep DownloadsOnly) ⟨newReadGate l, [], []⟩ is s → s.gate.Open) ↔
      rawPageCost * (l.slots - 1) + metricsCost ≤ l.budgetBytes := by
  have hdownloading {is s} (hrun : Run (guarded ReadStep DownloadsOnly) ⟨newReadGate l, [], []⟩ is s) :
      Downloading l s :=
    hrun.invariant (fun _ _ _ hstep hd => hstep.2.downloading hstep.1 hd) (downloading_new hslots hbudget)
  constructor
  · intro hopen
    by_contra hsmall
    -- One more download than leaves room for the metrics request still fits, up to the cap.
    obtain ⟨n, hn⟩ : ∃ n : ℕ, (n : ℤ) = min (l.slots - 1) (l.budgetBytes / rawPageCost) :=
      ⟨(min (l.slots - 1) (l.budgetBytes / rawPageCost)).toNat, by
        simp only [minReadBudgetBytes, metricsCost, rawPageCost] at *
        omega⟩
    have hbytes : rawPageCost * n ≤ l.budgetBytes := by
      simp only [rawPageCost] at *
      omega
    obtain ⟨is, s, hrun, hlength⟩ := downloads_reach hslots hbudget n (by omega) hbytes
    have hroom := (hdownloading hrun).open_iff.mp (hopen is s hrun)
    rw [← List.length_eq_zero_iff, hlength] at hroom
    simp only [minReadBudgetBytes, metricsCost, rawPageCost] at *
    omega
  · intro hlarge is s hrun
    have h := hdownloading hrun
    have hcapped := h.capped
    refine h.open_iff.mpr (.inr ?_)
    simp only [metricsCost, rawPageCost] at *
    omega

theorem downloads_leave_room_iff_defaults :
    ¬ ∃ is s, Run (guarded ReadStep DownloadsOnly) ⟨newReadGate ⟨4, 33554432⟩, [], []⟩ is s ∧ ¬ s.gate.Open := by
  rintro ⟨is, s, hrun, hclosed⟩
  exact hclosed ((downloads_leave_room_iff (l := ⟨4, 33554432⟩) (by decide) (by decide)).mpr (by decide) is s hrun)

theorem download_locks_out_metrics :
    ∃ s, Run (guarded ReadStep DownloadsOnly) ⟨newReadGate ⟨2, minReadBudgetBytes⟩, [], []⟩
        [.arrive ⟨rawPageCost, 500000000, true⟩] s ∧
      (s.gate.acquireKind ⟨metricsCost, 500000000, false⟩ false).1 = .waits := by
  refine ⟨_, .cons ⟨?_, .arrive _ _⟩ (.nil _), by decide⟩
  rintro r ⟨⟩
  exact ⟨rfl, rfl⟩

end Minicrond.Api
