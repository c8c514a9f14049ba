import Mathlib.Data.List.Sort
import Mathlib.Data.String.Basic
import Minicrond.Library.Machine
import Minicrond.Library.PagedSweep
import Minicrond.Store.Operations

/-! The runs that retention may delete: their order, the selection of a page of them and what a deletion leaves. -/

namespace Minicrond.Store

open Minicrond.Library Minicrond.Time

namespace RunRow

def sortUs (r : RunRow) : ℤ := r.endedUs.getD r.queuedUs

def newer (a b : RunRow) : Bool := b.sortUs < a.sortUs || (a.sortUs = b.sortUs && b.runID < a.runID)

end RunRow

def DB.terminalRuns (db : DB) (definitionID : ℕ) : List RunRow :=
  db.runs.filter fun r => r.definitionID = definitionID && r.status.terminal

def DB.history (db : DB) (definitionID : ℕ) : List RunRow :=
  (db.terminalRuns definitionID).insertionSort fun a b => b.newer a = false

def protectedRun (now : ℤ) (keys : List IdempotencyRow) (r : RunRow) : Bool :=
  keys.any fun i => i.runID = r.runID && keyExpiry now < i.createdUs

structure RetentionLimits where
  keep : ℤ
  olderThan : Option ℤ
deriving DecidableEq, Repr

structure RetentionCandidate where
  id : String
  sortUs : ℤ
deriving DecidableEq, Repr

def beyondBoundary (lim : RetentionLimits) (history : List RunRow) (r : RunRow) : Bool :=
  0 < lim.keep && (history[(max lim.keep 1 - 1).toNat]?).any (·.newer r)

def tooOld (lim : RetentionLimits) (r : RunRow) : Bool := lim.olderThan.any fun t => r.endedUs.any (· < t)

def eligible (lim : RetentionLimits) (now : ℤ) (keys : List IdempotencyRow) (history : List RunRow) (r : RunRow) :
    Bool :=
  (history.head?.map (·.runID) ≠ some r.runID) && (beyondBoundary lim history r || tooOld lim r) &&
    !protectedRun now keys r

def RetentionCandidate.precedes (cursor : Option RetentionCandidate) (r : RunRow) : Bool :=
  cursor.all fun c => r.sortUs < c.sortUs || (r.sortUs = c.sortUs && r.runID < c.id)

def RunRow.candidate (r : RunRow) : RetentionCandidate := ⟨r.runID, r.sortUs⟩

def retentionCandidates (definitionID : ℕ) (lim : RetentionLimits) (now : ℤ) (cursor : Option RetentionCandidate)
    (limit : ℕ) (db : DB) : Option (List RetentionCandidate) :=
  if limit = 0 then none
  else
    let history := db.history definitionID
    some (((history.filter fun r =>
      eligible lim now db.idempotency history r && RetentionCandidate.precedes cursor r).take limit).map
        RunRow.candidate)

/-! ## The order of a history -/

section Order

variable {a b c : RunRow} {db db' : DB} {id : ℕ}

lemma RunRow.newer_iff : a.newer b = true ↔ b.sortUs < a.sortUs ∨ a.sortUs = b.sortUs ∧ b.runID < a.runID := by
  simp [RunRow.newer]

lemma RunRow.newer_irrefl (a : RunRow) : a.newer a = false := by
  simp [RunRow.newer]

lemma RunRow.not_newer_iff :
    a.newer b = false ↔ a.sortUs < b.sortUs ∨ a.sortUs = b.sortUs ∧ a.runID ≤ b.runID := by
  rw [← Bool.not_eq_true, RunRow.newer_iff, not_or, not_and, not_lt, not_lt]
  constructor
  · rintro ⟨hle, htie⟩
    exact hle.lt_or_eq.imp id fun heq => ⟨heq, htie heq⟩
  · rintro (hlt | ⟨heq, hle⟩)
    · exact ⟨hlt.le, fun heq => absurd heq hlt.ne⟩
    · exact ⟨heq.le, fun _ => hle⟩

instance : IsTrans RunRow fun a b => b.newer a = false where
  trans a b c hab hbc := by
    rw [RunRow.not_newer_iff] at hab hbc ⊢
    rcases hab with hab | ⟨hab, hab'⟩ <;> rcases hbc with hbc | ⟨hbc, hbc'⟩
    · exact .inl (hbc.trans hab)
    · exact .inl (hbc ▸ hab)
    · exact .inl (hab ▸ hbc)
    · exact .inr ⟨hbc.trans hab, hbc'.trans hab'⟩

instance : Std.Total fun a b : RunRow => b.newer a = false where
  total a b := by
    simp only [RunRow.not_newer_iff]
    rcases lt_trichotomy a.sortUs b.sortUs with hlt | heq | hgt
    · exact .inr (.inl hlt)
    · rcases le_total a.runID b.runID with hle | hle
      · exact .inr (.inr ⟨heq, hle⟩)
      · exact .inl (.inr ⟨heq.symm, hle⟩)
    · exact .inl (.inl hgt)

lemma RunRow.eq_of_not_newer (hab : b.newer a = false) (hba : a.newer b = false) : a.runID = b.runID := by
  rw [RunRow.not_newer_iff] at hab hba
  rcases hab with hab | ⟨hab, hab'⟩ <;> rcases hba with hba | ⟨hba, hba'⟩
  · omega
  · omega
  · omega
  · exact le_antisymm hba' hab'

lemma RunRow.newer_asymm (h : a.newer b = true) : b.newer a = false := by
  rw [RunRow.newer_iff] at h
  rw [RunRow.not_newer_iff]
  exact h.imp id fun h => ⟨h.1.symm, h.2.le⟩

lemma DB.mem_terminalRuns :
    a ∈ db.terminalRuns id ↔ a ∈ db.runs ∧ a.definitionID = id ∧ a.status.terminal = true := by
  simp [DB.terminalRuns]

lemma DB.mem_history : a ∈ db.history id ↔ a ∈ db.runs ∧ a.definitionID = id ∧ a.status.terminal = true := by
  rw [DB.history, List.mem_insertionSort, DB.mem_terminalRuns]

lemma DB.history_ids (id : ℕ) (hdb : (db.runs.map (·.runID)).Nodup) : ((db.history id).map (·.runID)).Nodup := by
  rw [DB.history, ((List.perm_insertionSort _ _).map _).nodup_iff]
  exact hdb.sublist (List.filter_sublist.map _)

lemma DB.history_newest_first (id : ℕ) (hdb : (db.runs.map (·.runID)).Nodup) :
    (db.history id).Pairwise fun a b => a.newer b = true := by
  refine ((List.pairwise_insertionSort _ (db.terminalRuns id)).and
    (List.pairwise_map.mp (DB.history_ids id hdb))).imp ?_
  rintro a b ⟨hab, hne⟩
  by_contra hba
  exact hne (RunRow.eq_of_not_newer hab (Bool.not_eq_true _ ▸ hba))

lemma DB.history_filter {keep : RunRow → Bool} (hdb : (db.runs.map (·.runID)).Nodup)
    (hruns : db'.runs = db.runs.filter keep) : db'.history id = (db.history id).filter keep := by
  have hdb' : (db'.runs.map (·.runID)).Nodup := by
    rw [hruns]
    exact hdb.sublist (List.filter_sublist.map _)
  have hperm : (db'.history id).Perm ((db.history id).filter keep) := by
    refine (List.perm_insertionSort _ _).trans ?_
    rw [DB.terminalRuns, hruns, List.filter_comm]
    exact ((List.perm_insertionSort _ _).filter keep).symm
  refine hperm.eq_of_pairwise (fun a b _ _ hab hba => ?_) (DB.history_newest_first id hdb')
    ((DB.history_newest_first id hdb).filter keep)
  simp [RunRow.newer_asymm hab] at hba

end Order

/-! ## What a deletion changes for the other runs -/

section Eligible

variable {lim : RetentionLimits} {now : ℤ} {keys : List IdempotencyRow} {history : List RunRow} {r x : RunRow}
    {before rest : List RunRow}

lemma not_newer_of_le {i j : ℕ} (hsorted : history.Pairwise fun a b => a.newer b = true)
    (hi : history[i]? = some r) (hj : history[j]? = some x) (hij : i ≤ j) : x.newer r = false := by
  rcases hij.lt_or_eq with hlt | rfl
  · obtain ⟨hi', rfl⟩ := List.getElem?_eq_some_iff.mp hi
    obtain ⟨hj', rfl⟩ := List.getElem?_eq_some_iff.mp hj
    exact RunRow.newer_asymm (List.pairwise_iff_getElem.mp hsorted i j hi' hj' hlt)
  · rw [Option.some.inj (hi.symm.trans hj)]
    exact RunRow.newer_irrefl x

lemma not_beyondBoundary {i : ℕ} (hsorted : history.Pairwise fun a b => a.newer b = true)
    (hi : history[i]? = some r) (hle : i ≤ (max lim.keep 1 - 1).toNat) : beyondBoundary lim history r = false := by
  rw [beyondBoundary, Bool.and_eq_false_iff]
  refine .inr ?_
  cases hb : history[(max lim.keep 1 - 1).toNat]? with
  | none => rfl
  | some b => exact not_newer_of_le hsorted hi hb hle

lemma tooOld_of_newer (hr : r.endedUs.isSome = true) (hx : x.endedUs.isSome = true) (hnewer : r.newer x = true)
    (hold : tooOld lim r = true) : tooOld lim x = true := by
  obtain ⟨er, her⟩ := Option.isSome_iff_exists.mp hr
  obtain ⟨ex, hex⟩ := Option.isSome_iff_exists.mp hx
  have hle : ex ≤ er := by
    rw [RunRow.newer_iff, RunRow.sortUs, RunRow.sortUs, her, hex, Option.getD_some, Option.getD_some] at hnewer
    omega
  cases ht : lim.olderThan with
  | none => simp [tooOld, ht] at hold
  | some t =>
    simp only [tooOld, ht, her, hex, Option.any_some, decide_eq_true_eq] at hold ⊢
    omega

lemma getElem?_filter_append {p : RunRow → Bool} {n : ℕ}
    (hkeep : ∀ i r, i ≤ n → before[i]? = some r → p r = true) :
    (before.filter p ++ rest)[n]? = (before ++ rest)[n]? := by
  have htaken : (before.take (n + 1)).filter p = before.take (n + 1) := by
    refine List.filter_eq_self.mpr fun r hr => ?_
    obtain ⟨i, hi, rfl⟩ := List.mem_iff_getElem.mp hr
    rw [List.length_take] at hi
    exact hkeep i _ (by omega) (by rw [List.getElem_take, List.getElem?_eq_getElem])
  rcases Nat.lt_or_ge n before.length with hlt | hge
  · rw [← List.take_append_drop (n + 1) before, List.filter_append, htaken, List.append_assoc, List.append_assoc,
      List.getElem?_append_left (by rw [List.length_take]; omega),
      List.getElem?_append_left (by rw [List.length_take]; omega)]
  · rw [List.take_of_length_le (by omega)] at htaken
    rw [htaken]

lemma eligible_congr {history' : List RunRow} (hhead : history'.head?.map (·.runID) = history.head?.map (·.runID))
    (hboundary : beyondBoundary lim history' x = beyondBoundary lim history x ∨ tooOld lim x = true) :
    eligible lim now keys history' x = eligible lim now keys history x := by
  rw [eligible, eligible, hhead]
  rcases hboundary with hsame | hold
  · rw [hsame]
  · simp only [hold, Bool.or_true]

lemma eligible_stable (hsorted : history.Pairwise fun a b => a.newer b = true)
    (hended : ∀ r ∈ history, r.endedUs.isSome = true) : Stable (eligible lim now keys) history := by
  intro before rest hsplit x hx
  have hhead : (before.filter (fun r => !eligible lim now keys history r) ++ rest).head?.map (·.runID) =
      history.head?.map (·.runID) := by
    rw [hsplit]
    cases before with
    | nil => rfl
    | cons a before => simp [eligible]
  refine eligible_congr hhead ?_
  cases hold : tooOld lim x with
  | true => exact .inr rfl
  | false =>
    have hnew : ∀ r ∈ before, tooOld lim r = false := by
      intro r hr
      have hnewer : r.newer x = true := (List.pairwise_append.mp (hsplit ▸ hsorted)).2.2 r hr x hx
      refine Bool.eq_false_iff.mpr fun h => ?_
      have := tooOld_of_newer (hended r (by simp [hsplit, hr])) (hended x (by simp [hsplit, hx])) hnewer h
      simp [hold] at this
    rw [beyondBoundary, beyondBoundary, getElem?_filter_append, ← hsplit]
    · exact .inl rfl
    -- No run up to the boundary has gone: it is neither too old nor beyond the boundary.
    · intro i r hi hr
      have hir : history[i]? = some r := by
        rw [hsplit, List.getElem?_append_left (List.getElem?_eq_some_iff.mp hr).1, hr]
      simp [eligible, not_beyondBoundary hsorted hir hi, hnew r (List.mem_of_getElem? hr)]

def DB.newerCount (db : DB) (r : RunRow) : ℕ := (db.terminalRuns r.definitionID).countP (·.newer r)

/-- What retention is for: neither the newest terminal run, nor among those to keep and young enough, nor held by a
key. -/
def expendable (lim : RetentionLimits) (now : ℤ) (db : DB) (r : RunRow) : Bool :=
  r.status.terminal && 0 < db.newerCount r &&
    (0 < lim.keep && max lim.keep 1 ≤ db.newerCount r || tooOld lim r) && !protectedRun now db.idempotency r

lemma DB.newerCount_eq {db : DB} (hdb : (db.runs.map (·.runID)).Nodup)
    (hsplit : db.history r.definitionID = before ++ r :: rest) : db.newerCount r = before.length := by
  have hsorted := DB.history_newest_first r.definitionID hdb
  rw [hsplit] at hsorted
  obtain ⟨-, htail, hcross⟩ := List.pairwise_append.mp hsorted
  have hbefore : before.countP (·.newer r) = before.length :=
    List.countP_eq_length.mpr fun x hx => hcross x hx r List.mem_cons_self
  have hrest : rest.countP (·.newer r) = 0 :=
    List.countP_eq_zero.mpr fun x hx => by
      simp [RunRow.newer_asymm ((List.pairwise_cons.mp htail).1 x hx)]
  rw [DB.newerCount, ← (List.perm_insertionSort (fun a b => b.newer a = false) _).countP_eq, ← DB.history, hsplit,
    List.countP_append, List.countP_cons, hbefore, hrest, RunRow.newer_irrefl]
  simp

lemma beyondBoundary_iff (hsorted : (before ++ r :: rest).Pairwise fun a b => a.newer b = true) :
    beyondBoundary lim (before ++ r :: rest) r = (0 < lim.keep && max lim.keep 1 ≤ before.length) := by
  rw [beyondBoundary]
  congr 1
  by_cases hlt : (max lim.keep 1 - 1).toNat < before.length
  · have hle : max lim.keep 1 ≤ (before.length : ℤ) := by omega
    have hnewer := (List.pairwise_append.mp hsorted).2.2 _ (List.getElem_mem hlt) r List.mem_cons_self
    rw [List.getElem?_append_left hlt, List.getElem?_eq_getElem hlt, Option.any_some, hnewer, decide_eq_true hle]
  · have hgt : ¬ max lim.keep 1 ≤ (before.length : ℤ) := by omega
    have hr : (before ++ r :: rest)[before.length]? = some r := by simp
    simp only [hgt, decide_false]
    cases hb : (before ++ r :: rest)[(max lim.keep 1 - 1).toNat]? with
    | none => rfl
    | some b => exact not_newer_of_le hsorted hr hb (by omega)

lemma eligible_history {db : DB} (hdb : (db.runs.map (·.runID)).Nodup) (hr : r ∈ db.history r.definitionID) :
    eligible lim now db.idempotency (db.history r.definitionID) r = expendable lim now db r := by
  obtain ⟨before, rest, hsplit⟩ := List.append_of_mem hr
  have hsorted := DB.history_newest_first r.definitionID hdb
  rw [hsplit] at hsorted
  have hterminal := (DB.mem_history.mp hr).2.2
  rw [eligible, expendable, hterminal, DB.newerCount_eq hdb hsplit, hsplit, beyondBoundary_iff hsorted]
  cases before with
  | nil => simp
  | cons a before =>
    have hne : a.runID ≠ r.runID := by
      intro heq
      have hids := DB.history_ids r.definitionID hdb
      rw [hsplit] at hids
      simp [heq] at hids
    simp [hne]

end Eligible

/-! ## End times -/

def Op.Dated : Op → Prop
  | .create r | .admitIdempotent _ _ r _ => r.status.terminal = true → r.endedAt.isSome = true
  | _ => True

def DB.Dated (db : DB) : Prop := ∀ x ∈ db.runs, x.status.terminal = true → x.endedUs.isSome = true

section Dated

variable {specHash : Definition → String} {op : Op} {db db' : DB}

lemma Change.dated (h : Change op db db') (hop : op.Dated) (hdb : db.Dated) : db'.Dated := by
  intro x hx ht
  rcases h.mem hx with hx | ⟨y, _, hmoves⟩ | ⟨r, hr, ⟨henqueue, rfl⟩ | rfl⟩
  · exact hdb x hx ht
  · exact hmoves.ended ht
  · cases op with
    | create | admitIdempotent =>
      obtain rfl := Option.some.inj hr
      simpa [runArgs] using hop ht
    | enqueue => cases henqueue
    | _ => cases hr
  · simp [runArgs, Status.terminal, Status.rank] at ht

lemma DB.Dated.of_run {ops : List Op}
    (h : Library.Run (guarded (Step specHash) fun _ op => op.Dated) DB.empty ops db) : db.Dated := by
  refine h.invariant (fun _ _ _ hstep hdb => ?_) (by simp [DB.Dated, DB.empty])
  obtain ⟨hop, -, rfl | hcommits⟩ := hstep
  · exact hdb
  · exact hcommits.change.dated hop hdb

end Dated

end Minicrond.Store
