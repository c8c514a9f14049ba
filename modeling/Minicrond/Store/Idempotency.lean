import Minicrond.Store.QueueInvariant

/-! Idempotency keys under a clock that never runs backwards: a live key keeps its run and
answers every request. -/

namespace Minicrond.Store

open Minicrond.Library Minicrond.Time Transaction

def idempotentRun (now : ℤ) (idem : Idempotency) : Tx String := do
  let db ← get
  match db.idempotency.find? fun row => sameKey idem row && keyExpiry now < row.createdUs with
  | none => throw .noRows
  | some row =>
    refuse (row.requestHash ≠ idem.requestHash) .idempotencyConflict
    return row.runID

structure Clocked where
  clock : ℤ
  db : DB

/-- The readings of an operation between two instants. Keys are looked up and inserted inside their transaction; a
deletion may use a reading from before it. -/
def Op.Reads (t t' : ℤ) : Op → Prop
  | .admitIdempotent now later _ _ => t ≤ now ∧ now ≤ later ∧ later ≤ t'
  | .enqueue now later _ _ _ _ => t ≤ now ∧ now ≤ later ∧ later ≤ t'
  | .deleteRuns _ now => t ≤ t' ∧ now ≤ t'
  | .pruneMetadata now => t ≤ t' ∧ now ≤ t'
  | _ => t ≤ t'

def ClockedStep (specHash : Definition → String) (s : Clocked) (op : Op) (s' : Clocked) : Prop :=
  op.Reads s.clock s'.clock ∧ Step specHash s.db op s'.db

/-- The operation creates the run `id` under the key, which it looked up at `now` and stamped with `created`. -/
inductive Creates (idem : Idempotency) (now : ℤ) (id : String) (created : ℤ) (db db' : DB) : Op → Prop
  | admitted {later : ℤ} {r : Run} (h : admitIdempotentRun now later r idem db = .ok (none, db')) (hid : r.id = id)
      (hc : unixMicro later = created) : Creates idem now id created db db' (.admitIdempotent now later r idem)
  | enqueue {later : ℤ} {r : Run} {lim : QueueLimits} {unique : Bool} (hk : idem.key ≠ "")
      (h : enqueueRun now later r (some idem) lim unique db = .ok (none, db')) (hid : r.id = id)
      (hc : unixMicro later = created) : Creates idem now id created db db'
        (.enqueue now later r (some idem) lim unique)

def Idempotency.SameKey (a b : Idempotency) : Prop :=
  a.principal = b.principal ∧ a.operation = b.operation ∧ a.key = b.key

/-- What a request is answered under a key whose run is `id`: the run, or a conflict when it asks
for something else. -/
def replayed {α : Type} (idem request : Idempotency) (answer : α) (db : DB) : Except StoreError (α × DB) :=
  if request.requestHash = idem.requestHash then .ok (answer, db) else .error .idempotencyConflict

/-! ## What an operation does to keys that are live after it -/

structure KeysKept (t : ℤ) (db db' : DB) : Prop where
  found : ∀ idem row, db.idempotency.find? (sameKey idem) = some row → keyExpiry t < row.createdUs →
    db'.idempotency.find? (sameKey idem) = some row
  runs : ∀ row ∈ db.idempotency, keyExpiry t < row.createdUs → (∃ r ∈ db.runs, r.runID = row.runID) →
    ∃ r ∈ db'.runs, r.runID = row.runID
  new : ∀ row ∈ db'.idempotency, row ∈ db.idempotency ∨ ∃ r ∈ db'.runs, r.runID = row.runID

section

variable {t t' now later : ℤ} {db db' : DB} {idem idem' : Idempotency} {row : IdempotencyRow} {o : Option String}
    {r : Run}

lemma keyExpiry_mono (h : now ≤ later) : keyExpiry now ≤ keyExpiry later := by
  simp only [keyExpiry, unixMicro]
  exact Int.ediv_le_ediv (by decide) (by omega)

lemma sameKey_iff :
    sameKey idem row = true ↔ row.principal = idem.principal ∧ row.operation = idem.operation ∧
      row.key = idem.key := by
  simp [sameKey, and_assoc]

lemma Idempotency.SameKey.sameKey_eq (h : idem.SameKey idem') : sameKey idem = sameKey idem' := by
  obtain ⟨hp, ho, hk⟩ := h
  funext row
  rw [sameKey, sameKey, hp, ho, hk]

lemma KeysKept.of_eq (hk : db'.idempotency = db.idempotency)
    (hr : ∀ r ∈ db.runs, ∃ r' ∈ db'.runs, r'.runID = r.runID) : KeysKept t db db' where
  found idem row h _ := by rw [hk, h]
  runs row _ _ := by
    rintro ⟨r, hmem, he⟩
    obtain ⟨r', hmem', he'⟩ := hr r hmem
    exact ⟨r', hmem', he'.trans he⟩
  new row h := .inl (hk ▸ h)

lemma KeysKept.of_runs (hk : db'.idempotency = db.idempotency) (hr : db'.runs = db.runs) : KeysKept t db db' :=
  .of_eq hk fun r h => ⟨r, hr ▸ h, rfl⟩

lemma KeysKept.of_updateWhere {sel : RunRow → Bool} {f : RunRow → RunRow} (hk : db'.idempotency = db.idempotency)
    (hr : db'.runs = updateWhere sel f db.runs) (hf : ∀ r, (f r).runID = r.runID) : KeysKept t db db' := by
  refine .of_eq hk fun r h => ⟨_, hr ▸ mem_updateWhere.mpr ⟨r, h, rfl⟩, ?_⟩
  split_ifs
  · exact hf r
  · rfl

lemma KeysKept.of_append {row : RunRow} (hk : db'.idempotency = db.idempotency)
    (hr : db'.runs = db.runs ++ [row]) :
    KeysKept t db db' :=
  .of_eq hk fun r h => ⟨r, hr ▸ List.mem_append_left _ h, rfl⟩

lemma reserveIdempotency_none (h : db.idempotency.find? (sameKey idem) = none)
    (hr : reserveIdempotency now idem db = .ok (o, db')) : o = none ∧ db' = db := by
  simp only [reserveIdempotency, bind_ok, get_ok] at hr
  obtain ⟨_, _, ⟨rfl, rfl⟩, hr⟩ := hr
  simp only [h, pure_ok] at hr
  exact ⟨hr.1.symm, hr.2.symm⟩

lemma reserveIdempotency_expired
    (h : db.idempotency.find? (sameKey idem) = some row) (hlive : row.createdUs ≤ keyExpiry now)
    (hr : reserveIdempotency now idem db = .ok (o, db')) :
    o = none ∧ db' = { db with idempotency := deleteWhere (sameKey idem) db.idempotency } := by
  simp only [reserveIdempotency, bind_ok, get_ok] at hr
  obtain ⟨_, _, ⟨rfl, rfl⟩, hr⟩ := hr
  simp only [h, if_neg hlive.not_gt, bind_ok, set_ok, pure_ok] at hr
  obtain ⟨_, _, rfl, rfl, rfl⟩ := hr
  exact ⟨rfl, rfl⟩

lemma replay_eq {α : Type} {answer : α} :
    (do refuse (row.requestHash ≠ idem.requestHash) .idempotencyConflict
        return answer : Tx α) db = replayed row.toIdempotency idem answer db := by
  rw [replayed]
  by_cases hhash : idem.requestHash = row.requestHash
  · rw [bind_of_ok ((refuse_ok (u := ())).mpr ⟨by simp [hhash], rfl⟩), if_pos hhash]
    rfl
  · have hne : (decide (row.requestHash ≠ idem.requestHash)) = true := by simpa using fun he => hhash he.symm
    rw [hne, bind_of_error refuse_true, if_neg hhash]

lemma reserveIdempotency_live (h : db.idempotency.find? (sameKey idem) = some row)
    (hlive : keyExpiry now < row.createdUs) :
    reserveIdempotency now idem db = replayed row.toIdempotency idem (some row.runID) db := by
  rw [reserveIdempotency, bind_of_ok (get_ok.mpr ⟨rfl, rfl⟩), ← replay_eq]
  simp only [h, if_pos hlive]

lemma admitIdempotentRun_live (h : db.idempotency.find? (sameKey idem) = some row)
    (hlive : keyExpiry now < row.createdUs) :
    admitIdempotentRun now later r idem db = replayed row.toIdempotency idem (some row.runID) db := by
  have hr := reserveIdempotency_live h hlive
  rw [admitIdempotentRun]
  by_cases hhash : idem.requestHash = row.requestHash
  · rw [replayed, if_pos hhash] at hr ⊢
    rw [bind_of_ok hr]
    rfl
  · rw [replayed, if_neg hhash] at hr ⊢
    rw [bind_of_error hr]

lemma enqueueRun_live {lim : QueueLimits} {unique : Bool} (hk : idem.key ≠ "")
    (h : db.idempotency.find? (sameKey idem) = some row) (hlive : keyExpiry now < row.createdUs) :
    enqueueRun now later r (some idem) lim unique db = replayed row.toIdempotency idem (some row.runID) db := by
  have hkey : (some idem).filter (·.key ≠ "") = some idem := by simp [hk]
  have hr : reserveKey now (some idem) db = _ := reserveIdempotency_live h hlive
  rw [enqueueRun, hkey]
  by_cases hhash : idem.requestHash = row.requestHash
  · rw [replayed, if_pos hhash] at hr ⊢
    rw [bind_of_ok hr]
    rfl
  · rw [replayed, if_neg hhash] at hr ⊢
    rw [bind_of_error hr]

lemma idempotentRun_live (h : db.idempotency.find? (sameKey idem) = some row)
    (hlive : keyExpiry now < row.createdUs) :
    idempotentRun now idem db = replayed row.toIdempotency idem row.runID db := by
  have hfind : db.idempotency.find? (fun x => sameKey idem x && keyExpiry now < x.createdUs) = some row := by
    rw [List.find?_eq_some_iff_append] at h ⊢
    obtain ⟨hp, before, after, hsplit, hbefore⟩ := h
    refine ⟨by simp [hp, hlive], before, after, hsplit, fun x hx => ?_⟩
    have hno := hbefore x hx
    simp only [Bool.not_eq_eq_eq_not, Bool.not_true] at hno
    simp [hno]
  rw [idempotentRun, bind_of_ok (get_ok.mpr ⟨rfl, rfl⟩), ← replay_eq]
  simp only [hfind]

lemma reserveIdempotency_kept (hle : now ≤ t) (hr : reserveIdempotency now idem db = .ok (o, db')) :
    (∀ idem' row, db.idempotency.find? (sameKey idem') = some row → keyExpiry t < row.createdUs →
      db'.idempotency.find? (sameKey idem') = some row) ∧ db'.idempotency ⊆ db.idempotency := by
  cases hf : db.idempotency.find? (sameKey idem) with
  | none =>
    obtain ⟨_, rfl⟩ := reserveIdempotency_none hf hr
    exact ⟨fun _ _ h _ => h, List.Subset.refl _⟩
  | some old =>
    rcases lt_or_ge (keyExpiry now) old.createdUs with hlive | hexp
    · rw [reserveIdempotency_live hf hlive, replayed] at hr
      split_ifs at hr
      simp only [Except.ok.injEq, Prod.mk.injEq] at hr
      obtain ⟨_, rfl⟩ := hr
      exact ⟨fun _ _ h _ => h, List.Subset.refl _⟩
    · obtain ⟨_, rfl⟩ := reserveIdempotency_expired hf hexp hr
      refine ⟨fun idem' row h hrow => find?_deleteWhere h ?_, deleteWhere_sublist.subset⟩
      -- A row of the reserved key would be the expired one.
      cases hs : sameKey idem row with
      | false => rfl
      | true =>
        have hkeys : idem.SameKey idem' := by
          obtain ⟨hp, ho, hk⟩ := sameKey_iff.mp hs
          obtain ⟨hp', ho', hk'⟩ := sameKey_iff.mp (List.find?_some h)
          exact ⟨hp.symm.trans hp', ho.symm.trans ho', hk.symm.trans hk'⟩
        rw [hkeys.sameKey_eq, h] at hf
        obtain rfl := Option.some_injective _ hf
        have := keyExpiry_mono hle
        omega

lemma insertIdempotency_eq {id : String} {nowUs : ℤ} {u : Unit}
    (h : insertIdempotency idem id nowUs db = .ok (u, db')) : (∀ row ∈ db.idempotency, sameKey idem row = false) ∧
      db' = { db with idempotency := db.idempotency ++ [⟨idem, id, nowUs⟩] } := by
  simp only [insertIdempotency, bind_ok, get_ok, refuse_ok, modify_ok, List.any_eq_false] at h
  obtain ⟨_, _, ⟨rfl, rfl⟩, _, _, ⟨hfresh, rfl⟩, rfl⟩ := h
  exact ⟨fun row hrow => by simpa using hfresh row hrow, rfl⟩

lemma KeysKept.of_insert {keys : List IdempotencyRow} {row : RunRow} {key : IdempotencyRow}
    (hfound : ∀ idem row, db.idempotency.find? (sameKey idem) = some row → keyExpiry t < row.createdUs →
      keys.find? (sameKey idem) = some row) (hsub : keys ⊆ db.idempotency)
    (hk : db'.idempotency = keys ++ [key]) (hr : db'.runs = db.runs ++ [row]) (hid : key.runID = row.runID) :
    KeysKept t db db' where
  found idem row h hlive := by rw [hk, List.find?_append, hfound idem row h hlive, Option.some_or]
  runs row _ _ := by
    rintro ⟨r, hmem, he⟩
    exact ⟨r, hr ▸ List.mem_append_left _ hmem, he⟩
  new x hx := by
    rw [hk, List.mem_append, List.mem_singleton] at hx
    rcases hx with hx | rfl
    · exact .inl (hsub hx)
    · exact .inr ⟨row, hr ▸ List.mem_append_right _ (List.mem_singleton_self _), hid.symm⟩

lemma KeysKept.of_reserve (hle : now ≤ t) (hr : reserveIdempotency now idem db = .ok (o, db'))
    (hruns : db'.runs = db.runs) : KeysKept t db db' where
  found := (reserveIdempotency_kept hle hr).1
  runs row _ _ h := by rwa [hruns]
  new row h := .inl ((reserveIdempotency_kept hle hr).2 h)

lemma find?_inserted {keys : List IdempotencyRow} (hfresh : ∀ row ∈ keys, sameKey idem row = false) (id : String)
    (nowUs : ℤ) :
    (keys ++ [(⟨idem, id, nowUs⟩ : IdempotencyRow)]).find? (sameKey idem) = some ⟨idem, id, nowUs⟩ := by
  have hnone : keys.find? (sameKey idem) = none := List.find?_eq_none.mpr fun row h => by simp [hfresh row h]
  have hself : sameKey idem ⟨idem, id, nowUs⟩ = true := by simp [sameKey]
  rw [List.find?_append, hnone, Option.none_or, List.find?_singleton, if_pos hself]

def Holds (idem : Idempotency) (id : String) (created : ℤ) (db : DB) : Prop :=
  db.idempotency.find? (sameKey idem) = some ⟨idem, id, created⟩ ∧ ∃ r ∈ db.runs, r.runID = id

lemma admitIdempotentRun_keys (hle : now ≤ t) (h : admitIdempotentRun now later r idem db = .ok (o, db')) :
    KeysKept t db db' ∧ (o = none → Holds idem r.id (unixMicro later) db') := by
  simp only [admitIdempotentRun, bind_ok] at h
  obtain ⟨replay, db₁, hreserve, h⟩ := h
  obtain ⟨hfound, hsub⟩ := reserveIdempotency_kept hle hreserve
  obtain ⟨keys, rfl⟩ := reserveIdempotency_ok hreserve
  cases replay with
  | some id =>
    simp only [pure_ok] at h
    obtain ⟨rfl, rfl⟩ := h
    exact ⟨.of_reserve hle hreserve rfl, fun he => by simp at he⟩
  | none =>
    simp only [bind_ok, pure_ok] at h
    obtain ⟨_, _, hcreate, _, _, hinsert, rfl, rfl⟩ := h
    obtain ⟨_, rfl⟩ := createRun_ok hcreate
    obtain ⟨hfresh, rfl⟩ := insertIdempotency_eq hinsert
    refine ⟨.of_insert hfound hsub rfl rfl rfl, fun _ => ⟨find?_inserted hfresh _ _, runArgs r, ?_, rfl⟩⟩
    exact List.mem_append_right _ (List.mem_singleton_self _)

lemma enqueueRun_keys {idem : Option Idempotency} {lim : QueueLimits} {unique : Bool}
    (hle : now ≤ t) (h : enqueueRun now later r idem lim unique db = .ok (o, db')) :
    KeysKept t db db' ∧
      ∀ key, idem = some key → key.key ≠ "" → o = none → Holds key r.id (unixMicro later) db' := by
  simp only [enqueueRun, bind_ok] at h
  obtain ⟨replay, db₁, hreserve, h⟩ := h
  have hkey : ∀ key, idem = some key → key.key ≠ "" → idem.filter (·.key ≠ "") = some key := by
    rintro key rfl hne
    simp [hne]
  generalize idem.filter (·.key ≠ "") = key at hreserve h hkey
  cases replay with
  | some id =>
    simp only [pure_ok] at h
    obtain ⟨rfl, rfl⟩ := h
    refine ⟨?_, fun _ _ _ he => by simp at he⟩
    cases key with
    | none => simp [reserveKey, pure_ok] at hreserve
    | some k =>
      obtain ⟨keys, rfl⟩ := reserveIdempotency_ok hreserve
      exact .of_reserve hle hreserve rfl
  | none =>
    simp only [bind_ok, get_ok] at h
    obtain ⟨_, _, ⟨rfl, rfl⟩, h⟩ := h
    cases hl : checkLimits r lim unique (queuePayloadBytes r idem) db₁ with
    | some e => simp only [hl, throw_ok] at h
    | none =>
      simp only [hl, bind_ok, pure_ok] at h
      obtain ⟨_, _, hcreate, _, _, hqueue, _, _, hinsert, rfl, rfl⟩ := h
      obtain ⟨_, rfl⟩ := createRun_ok hcreate
      obtain rfl := insertQueue_ok hqueue
      cases key with
      | none =>
        simp only [reserveKey, insertKey, pure_ok] at hreserve hinsert
        obtain ⟨_, rfl⟩ := hreserve
        obtain ⟨_, rfl⟩ := hinsert
        exact ⟨.of_append rfl rfl, fun key he hne _ => by simpa using hkey key he hne⟩
      | some k =>
        obtain ⟨hfound, hsub⟩ := reserveIdempotency_kept hle hreserve
        obtain ⟨keys, rfl⟩ := reserveIdempotency_ok hreserve
        obtain ⟨hfresh, rfl⟩ := insertIdempotency_eq hinsert
        refine ⟨.of_insert hfound hsub rfl rfl rfl, fun key he hne _ => ?_⟩
        obtain rfl := Option.some_injective _ (hkey key he hne)
        exact ⟨find?_inserted hfresh _ _, runArgs { r with status := .queued },
          List.mem_append_right _ (List.mem_singleton_self _), rfl⟩

end

/-! ## Steps and runs -/

section

variable {specHash : Definition → String} {op : Op} {t : ℤ} {db db' : DB}

lemma Change.keysKept (h : Change op db db') (hop : op.keepsKeys = true) : KeysKept t db db' := by
  cases h with
  | rest reg keys hkeys => exact .of_runs (hkeys hop) rfl
  | insert r keys he =>
    obtain ⟨rfl, rfl⟩ | ⟨_, _, _, rfl⟩ := he
    · exact .of_append rfl rfl
    · cases hop
  | enqueue now later r idem lim unique keys he => simp [he, Op.keepsKeys] at hop
  | leave reg ids sel f p hsel hp hf | advance sel f hf => exact .of_updateWhere rfl rfl fun x => (hf x).runID
  | delete ids now he => simp [he, Op.keepsKeys] at hop

lemma KeysKept.deleteRuns {ids : List String} {now : ℤ} (hle : now ≤ t) (h : (deleteRuns ids now).Commits db db') :
    KeysKept t db db' := by
  obtain ⟨_, h⟩ := h
  rw [Store.deleteRuns, modify_ok] at h
  subst h
  refine ⟨fun _ _ h _ => h, fun row hrow hlive => ?_, fun row h => .inl h⟩
  rintro ⟨r, hr, he⟩
  refine ⟨r, mem_deleteWhere.mpr ⟨hr, ?_⟩, he⟩
  -- A key that is live after the step was live at the older reading.
  have hprotected : (db.idempotency.any fun i => i.runID = r.runID && keyExpiry now < i.createdUs) = true := by
    refine List.any_eq_true.mpr ⟨row, hrow, ?_⟩
    have := keyExpiry_mono hle
    simp only [he, decide_true, Bool.true_and, decide_eq_true_eq]
    omega
  simp [deletable, hprotected]

lemma KeysKept.pruneMetadata {now : ℤ} (hle : now ≤ t) (h : (pruneMetadata now).Commits db db') :
    KeysKept t db db' := by
  obtain ⟨_, h⟩ := h
  obtain ⟨_, rfl⟩ := pruneMetadata_ok h
  refine ⟨fun idem row h hlive => find?_deleteWhere h ?_, fun _ _ _ h => h,
    fun row h => .inl (mem_deleteWhere.mp h).1⟩
  have := keyExpiry_mono hle
  simp only [decide_eq_false_iff_not, not_le]
  omega

lemma Op.Reads.mono {t' : ℤ} (h : op.Reads t t') : t ≤ t' := by
  cases op with
  | admitIdempotent | enqueue => exact h.1.trans (h.2.1.trans h.2.2)
  | deleteRuns | pruneMetadata => exact h.1
  | _ => exact h

lemma ClockedStep.kept {s s' : Clocked} (h : ClockedStep specHash s op s') : KeysKept s'.clock s.db s'.db := by
  obtain ⟨hreads, _, he | h⟩ := h
  · rw [he]
    exact .of_runs rfl rfl
  cases op with
  | admitIdempotent =>
    obtain ⟨_, h⟩ := h
    exact (admitIdempotentRun_keys (hreads.2.1.trans hreads.2.2) h).1
  | enqueue =>
    obtain ⟨_, h⟩ := h
    exact (enqueueRun_keys (hreads.2.1.trans hreads.2.2) h).1
  | deleteRuns => exact .deleteRuns hreads.2 h
  | pruneMetadata => exact .pruneMetadata hreads.2 h
  | _ => exact (Op.Commits.change h).keysKept rfl

def LiveKeysHaveRuns (s : Clocked) : Prop :=
  ∀ row ∈ s.db.idempotency, keyExpiry s.clock < row.createdUs → ∃ r ∈ s.db.runs, r.runID = row.runID

variable {s s' : Clocked} {idem : Idempotency} {now created : ℤ} {id : String}

lemma ClockedStep.liveKeys (h : ClockedStep specHash s op s') (hs : LiveKeysHaveRuns s) : LiveKeysHaveRuns s' := by
  intro row hrow hlive
  rcases h.kept.new row hrow with hold | hnew
  · have := keyExpiry_mono h.1.mono
    exact h.kept.runs row hold hlive (hs row hold (by omega))
  · exact hnew

lemma ClockedStep.holds (h : ClockedStep specHash s op s')
    (hs : keyExpiry s.clock < created → Holds idem id created s.db) (hlive : keyExpiry s'.clock < created) :
    Holds idem id created s'.db := by
  have := keyExpiry_mono h.1.mono
  obtain ⟨hfound, hrun⟩ := hs (by omega)
  exact ⟨h.kept.found idem _ hfound hlive, h.kept.runs _ (List.mem_of_find?_eq_some hfound) hlive hrun⟩

lemma Creates.holds (h : ClockedStep specHash s op s') (hc : Creates idem now id created s.db s'.db op) :
    Holds idem id created s'.db := by
  cases hc with
  | admitted hok hid hcreated =>
    rw [← hid, ← hcreated]
    exact (admitIdempotentRun_keys (h.1.2.1.trans h.1.2.2) hok).2 rfl
  | enqueue hkey hok hid hcreated =>
    rw [← hid, ← hcreated]
    exact (enqueueRun_keys (h.1.2.1.trans h.1.2.2) hok).2 _ rfl hkey rfl

lemma replayed_ne_none {request : Idempotency} {db db' : DB} :
    replayed idem request (some id) db ≠ .ok (none, db') := by
  rw [replayed]
  split_ifs <;> simp

end

theorem idempotency_keys {specHash : Definition → String} {t : ℤ} {before : List Op} {s : Clocked}
    (h : Library.Run (ClockedStep specHash) ⟨t, DB.empty⟩ before s) :
    (∀ row ∈ s.db.idempotency, ∀ now, s.clock ≤ now → keyExpiry now < row.createdUs →
      ∃ r ∈ s.db.runs, r.runID = row.runID) ∧
      ∀ op s₁ idem now₀ id created, ClockedStep specHash s op s₁ → Creates idem now₀ id created s.db s₁.db op →
        ∀ ops s₂, Library.Run (ClockedStep specHash) s₁ ops s₂ →
          ∀ request now, request.SameKey idem → s₂.clock ≤ now → keyExpiry now < created →
            (∃ r ∈ s₂.db.runs, r.runID = id) ∧
            idempotentRun now request s₂.db = replayed idem request id s₂.db ∧
            (∀ later r, admitIdempotentRun now later r request s₂.db = replayed idem request (some id) s₂.db) ∧
            (∀ later r lim unique, request.key ≠ "" →
              enqueueRun now later r (some request) lim unique s₂.db = replayed idem request (some id) s₂.db) ∧
            ∀ op' db' id' created', ¬ Creates request now id' created' s₂.db db' op' := by
  refine ⟨fun row hrow now hle hlive => ?_, fun op s₁ idem now₀ id created hstep hnew ops s₂ hrun request now hkey
    hle hlive => ?_⟩
  · have hs : LiveKeysHaveRuns s :=
      h.invariant (fun _ _ _ hstep => hstep.liveKeys) (by simp [LiveKeysHaveRuns, DB.empty])
    have := keyExpiry_mono hle
    exact hs row hrow (by omega)
  · have hholds : keyExpiry s₂.clock < created → Holds idem id created s₂.db :=
      hrun.invariant (P := fun s => keyExpiry s.clock < created → Holds idem id created s.db)
        (fun _ _ _ hstep hs => hstep.holds hs) fun _ => hnew.holds hstep
    have := keyExpiry_mono hle
    obtain ⟨hfound, hexists⟩ := hholds (by omega)
    rw [← hkey.sameKey_eq] at hfound
    refine ⟨hexists, idempotentRun_live hfound hlive, fun later r => admitIdempotentRun_live hfound hlive,
      fun later r lim unique hne => enqueueRun_live hne hfound hlive, fun op' db' id' created' hc => ?_⟩
    cases hc with
    | admitted hok => exact replayed_ne_none ((admitIdempotentRun_live hfound hlive).symm.trans hok)
    | enqueue hne hok => exact replayed_ne_none ((enqueueRun_live hne hfound hlive).symm.trans hok)

def backupKey : Idempotency := ⟨"admin", "trigger", "k1", "h1"⟩

def backupKeyed : DB := { backupDefined with
  runs := [runArgs { backupRun with status := .pending }]
  idempotency := [⟨backupKey, "r1", 3⟩] }

lemma backup_defined :
    Library.Run (ClockedStep fun _ => "hash") ⟨0, DB.empty⟩ [.putDefinition backup 0 "api" false 0]
      ⟨1000, backupDefined⟩ :=
  .cons ⟨by simp [Op.Reads], trivial, .inr ⟨_, rfl⟩⟩ (.nil _)

theorem idempotency_keys_backup :
    idempotentRun hour backupKey backupKeyed = .ok ("r1", backupKeyed) ∧
      admitIdempotentRun hour hour backupRun { backupKey with requestHash := "h2" } backupKeyed =
        .error .idempotencyConflict := by
  have hstep : ClockedStep (fun _ => "hash") ⟨1000, backupDefined⟩
      (.admitIdempotent 2000 3000 { backupRun with status := .pending } backupKey) ⟨4000, backupKeyed⟩ :=
    ⟨by simp [Op.Reads], by simp [Op.Issued], .inr ⟨none, rfl⟩⟩
  have hnew : Creates backupKey 2000 "r1" 3 backupDefined backupKeyed
      (.admitIdempotent 2000 3000 { backupRun with status := .pending } backupKey) := .admitted rfl rfl rfl
  have hkeys := (idempotency_keys backup_defined).2 _ _ _ _ _ _ hstep hnew [] _ (.nil _)
  exact ⟨(hkeys backupKey hour ⟨rfl, rfl, rfl⟩ (by decide) (by decide)).2.1,
    (hkeys { backupKey with requestHash := "h2" } hour ⟨rfl, rfl, rfl⟩ (by decide) (by decide)).2.2.1 hour
      backupRun⟩

end Minicrond.Store
