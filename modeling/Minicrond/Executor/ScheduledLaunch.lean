import Minicrond.Executor.Launches

/-! A scheduled occurrence is launched at most once, and only when its row is stored, for every job that skips the
runs it cannot record. -/

namespace Minicrond.Executor.Launches

open Minicrond.Library Minicrond.Store Minicrond.Time
open Queue (QueueOptions)
open History (Attempt WriteResult)

def fires (k : Occurrence) (x : RunRow) : Bool := x.occurrence = some k

def Call.launching : Call → Option RunRow
  | .trigger _ (.launching r) => some (runArgs r)
  | .drain _ (.launching run) => some run
  | _ => none

def Call.launches (k : Occurrence) (p : Call) : ℕ := p.launching.toList.countP (fires k)

inductive Turn (D : ℕ) (s : Daemon) (p : Call) (s' : Daemon) (out : List Call) : Prop
  | keep (h : ∀ k, s'.launched.countP (fires k) + (out.map (·.launches k)).sum ≤
      s.launched.countP (fires k) + p.launches k)
  | grant (q : Call) (x : RunRow) (hl : s'.launched = s.launched) (hout : out = [q]) (hq : q.launching = some x)
      (hfree : ∀ us id, x.occurrence = some (D, us) → ¬ s.db.Spent (D, us) id)

structure Advance (D : ℕ) (s : Daemon) (p : Call) (s' : Daemon) (out : List Call) : Prop where
  books : Books s'
  grows : Extends s s'
  sound : ∀ q ∈ out, q.Sound D s'
  launched : ∀ x ∈ s'.launched, x ∈ s.launched ∨ Launchable D s' x
  turn : Turn D s p s' out

section

variable {D : ℕ} {s s' : Daemon} {p q : Call} {out : List Call} {x : RunRow} {r : Run} {db' : DB}

lemma Advance.quiet (hk : Keeps s s') (hl : s'.launched = s.launched) (hs : ∀ q ∈ out, q.Sound D s')
    (hq : ∀ q ∈ out, q.launching = none) : Advance D s p s' out where
  books := hk.1
  grows := hk.2
  sound := hs
  launched x hx := .inl (hl ▸ hx)
  turn := by
    refine .keep fun k => ?_
    have : out.map (·.launches k) = out.map fun _ => 0 :=
      List.map_congr_left fun q h => by simp [Call.launches, hq q h]
    simp [hl, this]

lemma Advance.grant (hk : Keeps s s') (hl : s'.launched = s.launched) (hs : q.Sound D s')
    (hq : q.launching = some x) (hfree : ∀ us id, x.occurrence = some (D, us) → ¬ s.db.Spent (D, us) id) :
    Advance D s p s' [q] where
  books := hk.1
  grows := hk.2
  sound := by simpa using hs
  launched x hx := .inl (hl ▸ hx)
  turn := .grant q x hl rfl hq hfree

lemma Advance.launch (hb : Books s) (hp : p.launching = some x) (hx : Launchable D s x) :
    Advance D s p (s.launch x) [] where
  books := hb.launch x
  grows := extends_launch x
  sound := by simp
  launched y hy := by
    rcases List.mem_append.mp hy with hy | hy
    · exact .inl hy
    · obtain rfl := List.mem_singleton.mp hy
      exact .inr (hx.mono (extends_launch y))
  turn := by
    refine .keep fun k => ?_
    simp [Daemon.launch, Call.launches, hp]

lemma launchable_insert (hr : runArgs r ∈ s.db.runs) (ha : r.id ∈ s.acknowledged) (hs : r.status = .pending) :
    Launchable D s (runArgs r) where
  acknowledged _ _ := ha
  spent _ _ hk := ⟨runArgs r, hr, rfl, hk, by simp [runArgs, hs]⟩

section

variable {c : Queue.TriggerCall} {pc : TriggerPc} {pc' : Option TriggerPc}

lemma advance_trigger (hskip : c.d.id = D → c.isJob = true ∧ s.options.skipsUnrecorded c.d = true)
    (hk : Keeps s s') (hl : s'.launched = s.launched) (hs : ∀ t ∈ pc', t.Sound D c s')
    (hq : ∀ r, pc' ≠ some (.launching r)) :
    Advance D s p s' (pc'.toList.map (.trigger c)) := by
  cases pc' with
  | none => exact .quiet hk hl (by simp) (by simp)
  | some t =>
    have hsound : Call.Sound D s' (.trigger c t) := ⟨fun hd => hk.2.options ▸ hskip hd, hs t rfl⟩
    refine .quiet hk hl (by simpa using hsound) ?_
    cases t with
    | launching r => exact (hq r rfl).elim
    | _ => simp [Call.launching]

lemma grant_trigger (hskip : c.d.id = D → c.isJob = true ∧ s.options.skipsUnrecorded c.d = true) (hk : Keeps s s')
    (hl : s'.launched = s.launched) (hr : Launchable D s' (runArgs r))
    (hfree : ∀ us id, (runArgs r).occurrence = some (D, us) → ¬ s.db.Spent (D, us) id) :
    Advance D s p s' ((some (TriggerPc.launching r)).toList.map (.trigger c)) :=
  .grant (q := .trigger c (.launching r)) hk hl ⟨fun hd => hk.2.options ▸ hskip hd, hr⟩ rfl hfree

lemma TriggerStep.advance (hb : Books s)
    (hskip : c.d.id = D → c.isJob = true ∧ s.options.skipsUnrecorded c.d = true) (hpc : pc.Sound D c s)
    (h : TriggerStep c s pc s' pc') : Advance D s (.trigger c pc) s' (pc'.toList.map (.trigger c)) := by
  have hsame : Keeps s s := ⟨hb, Extends.refl s⟩
  cases h with
  | declined => exact advance_trigger hskip hsame rfl (by simp) (by simp)
  | overlap | full => exact advance_trigger hskip hsame rfl (by simp [TriggerPc.Sound]) (by simp)
  | queue id now hid =>
    exact advance_trigger hskip ⟨hb.issue hid, extends_issue⟩ rfl (by simp [TriggerPc.Sound, Daemon.issue])
      (by simp)
  | direct id now hid =>
    refine advance_trigger hskip ⟨hb.issue hid, extends_issue⟩ rfl ?_ (by simp)
    simp [TriggerPc.Sound, Daemon.issue, Queue.TriggerCall.newRun]
  | enqueued now later h => exact advance_trigger hskip (keeps_enqueue hb hpc ⟨_, h⟩) rfl (by simp) (by simp)
  | enqueueSkipped => exact advance_trigger hskip hsame rfl (by simp [TriggerPc.Sound]) (by simp)
  | enqueueRefused | enqueueUnavailable => exact advance_trigger hskip hsame rfl (by simp) (by simp)
  | enqueueAmbiguous now later h => exact advance_trigger hskip (keeps_enqueue hb hpc h) rfl (by simp) (by simp)
  | skip id now hid =>
    exact advance_trigger hskip ⟨hb.issue hid, extends_issue⟩ rfl (by simp [TriggerPc.Sound, Daemon.issue])
      (by simp)
  | recordedKeyed now later hk h =>
    exact advance_trigger hskip (keeps_admitIdempotentRun hb hpc h) rfl (by simp) (by simp)
  | notRecordedKeyed => exact advance_trigger hskip hsame rfl (by simp) (by simp)
  | recorded hk h => exact advance_trigger hskip (h.keeps hb hpc) h.launched (by simp) (by simp)
  | admitted now later hk h =>
    obtain ⟨hr, _, hs⟩ := hpc
    have hkeeps := keeps_admitIdempotentRun hb hr ⟨_, h⟩
    obtain ⟨_, ⟨ho, _⟩ | ⟨_, hadmits, rfl⟩⟩ := admitIdempotentRun_ok h
    · exact (ho rfl).elim
    · exact grant_trigger hskip (hkeeps.acknowledge ⟨_, List.mem_append_right _ (List.mem_singleton_self _), rfl⟩)
        rfl (launchable_insert (List.mem_append_right _ (List.mem_singleton_self _))
          (List.mem_append_right _ (List.mem_singleton_self _)) hs)
        fun _ _ hk => hadmits.not_spent hk
  | replayed now later hk h =>
    exact advance_trigger hskip (keeps_admitIdempotentRun hb hpc.1 ⟨_, h⟩) rfl (by simp) (by simp)
  | notAdmitted => exact advance_trigger hskip hsame rfl (by simp) (by simp)
  | admitAmbiguous now later hk h =>
    exact advance_trigger hskip (keeps_admitIdempotentRun hb hpc.1 h) rfl (by simp) (by simp)
  | bypassed => exact advance_trigger hskip hsame rfl (by simpa [TriggerPc.Sound] using hpc) (by simp)
  | inserted hk h =>
    obtain ⟨hr, _, hs⟩ := hpc
    have hkeeps := (keeps_create hb hr h).setDown false
    cases h with
    | ok h =>
      obtain ⟨hadmits, rfl⟩ := createRun_ok h
      exact grant_trigger hskip (hkeeps.acknowledge ⟨_, List.mem_append_right _ (List.mem_singleton_self _), rfl⟩)
        rfl (launchable_insert (List.mem_append_right _ (List.mem_singleton_self _))
          (List.mem_append_right _ (List.mem_singleton_self _)) hs)
        fun _ _ hk => hadmits.not_spent hk
  | unavailable hk h =>
    exact advance_trigger hskip ((keeps_create hb hpc.1 h).setDown true) rfl
      (by simpa [TriggerPc.Sound, Daemon.setDown, Daemon.write] using hpc) (by simp)
  | rejected hk h => exact advance_trigger hskip (keeps_create hb hpc.1 h) rfl (by simp) (by simp)
  | skipUnrecorded kept => exact advance_trigger hskip (hsame.defer hpc.1 kept) rfl (by simp) (by simp)
  | @deferred r kept hs =>
    -- the run goes without a stored row, so its definition does not skip unrecorded runs
    obtain ⟨hr, hd, _⟩ := hpc
    have hne : (runArgs r).definitionID ≠ D := fun h => hs (hskip (hd.symm.trans h))
    have hocc : ∀ us, (runArgs r).occurrence ≠ some (D, us) := fun us h =>
      hne (RunRow.occurrence_eq_some.mp h).2.1
    exact grant_trigger hskip (hsame.defer hr kept) rfl ⟨fun h => (hne h).elim, fun us _ h => (hocc us h).elim⟩
      fun us _ h => (hocc us h).elim
  | launched => exact .launch hb rfl hpc
  | refused => exact advance_trigger hskip hsame rfl (by simp) (by simp)

end

section

variable {item : QueueItem} {pc : DrainPc} {pc' : Option DrainPc}

lemma advance_drain (hk : Keeps s s') (hl : s'.launched = s.launched) (hs : ∀ t ∈ pc', t.Sound D item s')
    (hq : ∀ x, pc' ≠ some (.launching x)) : Advance D s p s' (pc'.toList.map (.drain item)) := by
  cases pc' with
  | none => exact .quiet hk hl (by simp) (by simp)
  | some t =>
    have hsound : Call.Sound D s' (.drain item t) := hs t rfl
    refine .quiet hk hl (by simpa using hsound) ?_
    cases t with
    | launching x => exact (hq x rfl).elim
    | _ => simp [Call.launching]

lemma keeps_drop {reason : String} {now : ℤ} (hb : Books s)
    (h : (dropQueued item.runID reason now).Commits s.db db') :
    Keeps s (s.write db') := by
  have he : RunsEffect (.drop item.runID reason now) s.db db' := .of_commits s.options.specHash _ trivial h
  exact keeps_write hb he (by simp [Op.inserts])

lemma keeps_dequeue {result : WriteResult} {revision : ℕ} {hash bootID : String} (hb : Books s)
    (h : Attempt (dequeueRun item.runID revision hash bootID) s.db result db') : Keeps s (s.write db') := by
  have he : RunsEffect (.dequeue item.runID revision hash bootID) s.db db' :=
    runsEffect_attempt (fun _ => .of_commits s.options.specHash (.dequeue ..) trivial) h
  exact keeps_write hb he (by simp [Op.inserts])

lemma dequeued_row {run : RunRow} {revision : ℕ} {hash bootID : String} {u : Unit} (hb : Books s)
    (hid : run.runID = item.runID) (hknown : Known s.issued run.runID run.occurrence)
    (h : dequeueRun item.runID revision hash bootID s.db = .ok (u, db')) :
    (∃ y ∈ db'.runs, y.runID = item.runID ∧ y.occurrence = run.occurrence ∧ y.status ≠ .queued) ∧
      ∀ k id, run.occurrence = some k → ¬ s.db.Spent k id := by
  obtain ⟨⟨y, hy, hyid, hys⟩, rfl⟩ := dequeueRun_ok h
  have ho : y.occurrence = run.occurrence := (hyid.trans hid.symm ▸ hb.rows y hy).unique hb.ids hknown
  refine ⟨⟨_, mem_updateWhere.mpr ⟨y, hy, rfl⟩, ?_⟩, fun k id hk => hb.indexed.not_spent hy (ho.trans hk) hys⟩
  simp only [hyid, hys, decide_true, Bool.and_self, if_true]
  exact ⟨hyid, ho, by simp [RunRow.dequeue]⟩

lemma DrainStep.advance (hb : Books s) (hpc : pc.Sound D item s) (h : DrainStep item s pc s' pc') :
    Advance D s (.drain item pc) s' (pc'.toList.map (.drain item)) := by
  have hsame : Keeps s s := ⟨hb, Extends.refl s⟩
  cases h with
  | failed => exact advance_drain hsame rfl (by simp) (by simp)
  | read hr hs =>
    obtain ⟨hmem, hid⟩ := DB.run_eq_some hr
    exact advance_drain hsame rfl (by simpa [DrainPc.Sound] using ⟨hid, hb.rows _ hmem⟩) (by simp)
  | inconsistent now hr hs h => exact advance_drain (keeps_drop hb h) rfl (by simp) (by simp)
  | looked => exact advance_drain hsame rfl (by simpa [DrainPc.Sound] using hpc) (by simp)
  | dropped now h => exact advance_drain (keeps_drop hb h) rfl (by simp) (by simp)
  | dequeued h =>
    obtain ⟨hid, hknown⟩ := hpc
    have hkeeps := keeps_dequeue hb h
    cases h with
    | ok h =>
      obtain ⟨⟨y, hy, hyid, hyo, hys⟩, hfree⟩ := dequeued_row hb hid hknown h
      refine .grant (q := .drain item (.launching _)) (hkeeps.acknowledge ⟨y, hy, hyid⟩) rfl ?_ rfl
        fun us id hk => hfree _ id hk
      refine ⟨fun _ _ => List.mem_append_right _ (List.mem_singleton.mpr hid), fun us _ hk => ?_⟩
      exact ⟨y, hy, hyid.trans hid.symm, hyo.trans hk, hys⟩
  | notDequeued h => exact advance_drain (keeps_dequeue hb h) rfl (by simp) (by simp)
  | launched => exact .launch hb rfl hpc

end

end

/-! ## Whole runs -/

structure Once (D : ℕ) (c : State) : Prop where
  books : Books c.shared
  calls : ∀ p ∈ c.procs, p.Sound D c.shared
  launched : ∀ x ∈ c.shared.launched, Launchable D c.shared x
  once : ∀ us, c.shared.Retains (D, us) →
    c.shared.launched.countP (fires (D, us)) + c.total (Call.launches (D, us)) ≤ 1

section

variable {D : ℕ} {c c' : State} {s s' : Daemon} {procs : List Call} {k : Occurrence}

lemma Call.Sound.launchable {p : Call} {x : RunRow} (h : p.Sound D s) (hx : p.launching = some x) :
    Launchable D s x := by
  cases p with
  | missed => simp [Call.launching] at hx
  | trigger c pc =>
    cases pc with
    | launching r =>
      obtain rfl : runArgs r = x := by simpa [Call.launching] using hx
      exact h.2
    | _ => simp [Call.launching] at hx
  | drain item pc =>
    cases pc with
    | launching run =>
      obtain rfl : run = x := by simpa [Call.launching] using hx
      exact h
    | _ => simp [Call.launching] at hx

lemma Once.none_of_unspent {us : ℤ} (hc : Once D c) (hk : c.shared.Retains (D, us))
    (hfree : ∀ id, ¬ c.shared.db.Spent (D, us) id) :
    c.shared.launched.countP (fires (D, us)) + c.total (Call.launches (D, us)) = 0 := by
  have hfires : ∀ x, Launchable D c.shared x → fires (D, us) x = false := by
    intro x hx
    simpa [fires] using fun h => hfree _ (hx.spent us hk h)
  have hlaunched : c.shared.launched.countP (fires (D, us)) = 0 := by
    rw [List.countP_eq_zero]
    intro x hx
    simp [hfires x (hc.launched x hx)]
  have htotal : c.total (Call.launches (D, us)) = 0 := by
    rw [Config.total, List.sum_eq_zero_iff]
    intro n hn
    obtain ⟨p, hp, rfl⟩ := List.mem_map.mp hn
    rw [Call.launches, List.countP_eq_zero]
    intro x hx
    simp [hfires x ((hc.calls p hp).launchable (by simpa using hx))]
  omega

lemma Turn.once {p : Call} {out : List Call} {us : ℤ} (hc : Once D c) (h : Turn D c.shared p c'.shared out)
    (hk : c.shared.Retains (D, us))
    (htotal : c'.total (Call.launches (D, us)) + p.launches (D, us) =
      c.total (Call.launches (D, us)) + (out.map (·.launches (D, us))).sum) :
    c'.shared.launched.countP (fires (D, us)) + c'.total (Call.launches (D, us)) ≤ 1 := by
  have honce := hc.once us hk
  cases h with
  | keep h =>
    have := h (D, us)
    omega
  | grant q x hl hout hq hfree =>
    subst hout
    have hq' : q.launches (D, us) = if fires (D, us) x then 1 else 0 := by
      simp [Call.launches, hq, List.countP_singleton]
    rw [List.map_singleton, List.sum_singleton, hq'] at htotal
    rw [hl]
    by_cases hx : fires (D, us) x = true
    · have := hc.none_of_unspent hk fun id => hfree us id (by simpa [fires] using hx)
      rw [if_pos hx] at htotal
      omega
    · rw [if_neg hx] at htotal
      omega

lemma Local.advance {p : Call} {out : List Call} (hb : Books s) (hp : p.Sound D s) (h : Local s p s' out) :
    Advance D s p s' out := by
  cases h with
  | trigger h => exact h.advance hb hp.1 hp.2
  | missed h => exact .quiet (h.keeps hb hp) h.launched (by simp) (by simp)
  | drain h => exact h.advance hb hp

lemma Once.call (hc : Once D c) (h : Interleave Local c c') : Once D c' := by
  obtain ⟨p, out, hp, hl, hprocs⟩ := h.mem_procs
  have ha := hl.advance hc.books (hc.calls p hp)
  refine ⟨ha.books, fun q hq => ?_, fun x hx => ?_, fun us hk => ?_⟩
  · rcases hprocs q hq with hq | hq
    · exact (hc.calls q hq).mono ha.grows
    · exact ha.sound q hq
  · rcases ha.launched x hx with hx | hx
    · exact (hc.launched x hx).mono ha.grows
    · exact hx
  · obtain ⟨p, out, hp, hl, htotal⟩ := h.total (Call.launches (D, us))
    exact (hl.advance hc.books (hc.calls p hp)).turn.once hc (ha.grows.retains _ hk) htotal

lemma Once.keeps (hc : Once D ⟨s, procs⟩) (hk : Keeps s s') (hl : s'.launched = s.launched) :
    Once D ⟨s', procs⟩ where
  books := hk.1
  calls p hp := (hc.calls p hp).mono hk.2
  launched x hx := (hc.launched x (hl ▸ hx)).mono hk.2
  once us hr := hl ▸ hc.once us (hk.2.retains _ hr)

lemma Once.spawn (hc : Once D c) {p : Call} (hp : p.Sound D c.shared) (hq : p.launching = none) :
    Once D (c.spawn p) where
  books := hc.books
  calls q hq := by
    rcases List.mem_append.mp hq with hq | hq
    · exact hc.calls q hq
    · exact List.mem_singleton.mp hq ▸ hp
  launched := hc.launched
  once us hr := by
    have hnone : p.launches (D, us) = 0 := by simp [Call.launches, hq]
    rw [Config.total_spawn, hnone, Nat.add_zero]
    exact hc.once us hr

lemma once_boot (options : QueueOptions) : Once D (boot options) where
  books := ⟨DB.indexed_empty, List.nodup_nil, by simp [boot, DB.empty], by simp [boot], by simp [boot]⟩
  calls := by simp [boot]
  launched := by simp [boot]
  once := by simp [boot, Config.total]

end

def Skips (D : ℕ) (c : State) : Event → Prop
  | .trigger t => t.d.id = D → t.isJob = true ∧ c.shared.options.skipsUnrecorded t.d = true
  | _ => True

section

variable {D : ℕ} {c c' : State} {e : Event}

lemma Once.restart {s : Daemon} {procs : List Call} {db' : DB} {options : QueueOptions} {nowUs : ℤ}
    (hc : Once D ⟨s, procs⟩) (h : Store.Step options.specHash s.db (.recover nowUs) db') :
    Once D ⟨{ s.write db' with options := options, down := false, closing := false, spool := [] }, []⟩ := by
  obtain ⟨hb, hs⟩ := keeps_write hc.books h.runsEffect (by simp [Op.inserts])
  refine ⟨⟨hb.indexed, hb.ids, hb.rows, by simp, hb.stored⟩, by simp, fun x hx => ?_, fun us hk => ?_⟩
  · have hx := (hc.launched x hx).mono hs
    exact ⟨hx.acknowledged, hx.spent⟩
  · have honce := hc.once us (hs.retains _ hk)
    exact (Nat.add_le_add_left (Nat.zero_le _) _).trans honce

lemma Step.once (h : guarded Step (Skips D) c e c') (hc : Once D c) : Once D c' := by
  obtain ⟨hskip, h⟩ := h
  cases h with
  | call h => exact hc.call h
  | trigger t => exact hc.spawn ⟨hskip, trivial⟩ rfl
  | @missed s procs d hash count scheduled id now hid =>
    have hissued : Once D ⟨s.issue (missedRun s.options d hash count scheduled id now), procs⟩ :=
      hc.keeps ⟨hc.books.issue hid, extends_issue⟩ rfl
    exact hissued.spawn (List.mem_append_right _ (List.mem_singleton_self _)) rfl
  | drain hq => exact hc.spawn trivial rfl
  | written hr h => exact hc.keeps (keeps_create hc.books (hc.books.spool _ hr) h) rfl
  | retired h =>
    refine hc.keeps ⟨⟨hc.books.indexed, hc.books.ids, hc.books.rows, fun r hr => ?_, hc.books.stored⟩, ?_⟩ rfl
    · exact hc.books.spool r (h.subset hr)
    · exact ⟨rfl, fun _ h => h, fun _ h => h, fun _ h => h, fun _ _ _ h => h⟩
  | store op hop h =>
    refine hc.keeps (keeps_write hc.books h.runsEffect fun r hr => ?_) rfl
    cases op <;> simp [background, Op.inserts] at hop hr
  | health down => exact hc.keeps ⟨hc.books.setDown down, extends_setDown down⟩ rfl
  | shutdown =>
    have hb := hc.books
    refine hc.keeps ⟨⟨hb.indexed, hb.ids, hb.rows, hb.spool, hb.stored⟩, ?_⟩ rfl
    exact ⟨rfl, fun _ h => h, fun _ h => h, fun _ h => h, fun _ _ _ h => h⟩
  | restart options nowUs h => exact hc.restart h

end

theorem scheduled_launch {D : ℕ} {options : QueueOptions} {events : List Event} {c : State}
    (h : Library.Run (guarded Step (Skips D)) (boot options) events c) :
    (∀ x ∈ c.shared.launched, x.definitionID = D → x.trigger = .schedule →
      x.runID ∈ c.shared.acknowledged ∧ ∃ row ∈ c.shared.db.runs ++ c.shared.deleted, row.runID = x.runID) ∧
    ∀ us, c.shared.Retains (D, us) →
      (∀ x ∈ c.shared.launched, x.occurrence = some (D, us) → c.shared.db.Spent (D, us) x.runID) ∧
      (c.shared.launched.filter (fires (D, us))).length ≤ 1 := by
  have hc : Once D c := h.invariant (fun _ _ _ => Step.once) (once_boot options)
  refine ⟨fun x hx hd ht => ?_, fun us hk => ⟨fun x hx => (hc.launched x hx).spent us hk, ?_⟩⟩
  · have ha := (hc.launched x hx).acknowledged hd ht
    exact ⟨ha, hc.books.stored _ ha⟩
  · rw [← List.countP_eq_length_filter]
    exact (Nat.le_add_right _ _).trans (hc.once us hk)

def recordedOnly : QueueOptions := { Queue.oneSlot with skipsUnrecorded := fun _ => true }

def minuteTrigger : Queue.TriggerCall :=
  ⟨{ backup with id := 1, revision := 1 }, "hash", .schedule, some minute, none, 1, "", .waiting⟩

def minuteRun (id : String) : Run := minuteTrigger.newRun recordedOnly id .pending minute

def minuteStored : DB := { backupDefined with runs := [runArgs (minuteRun "r1")] }

def minuteLaunched : Daemon where
  db := minuteStored
  options := recordedOnly
  down := false
  closing := false
  spool := []
  issued := [minuteRun "r1"]
  acknowledged := ["r1"]
  launched := [runArgs (minuteRun "r1")]
  deleted := []

/-- After a crash and a restart the catch-up triggers the occurrence again, and the store refuses its row. -/
def minuteRefused : Daemon :=
  { minuteLaunched with
    db := { minuteStored with runs :=
      [{ runArgs (minuteRun "r1") with
        status := .interrupted, endReason := some "crash_recovery", endedUs := some 120000000 }] }
    issued := [minuteRun "r1", minuteRun "r2"] }

lemma run_minuteLaunched :
    Library.Run (guarded Step (Skips 1)) (boot recordedOnly)
      [.store (.putDefinition backup 0 "api" false 0), .trigger minuteTrigger, .call, .call, .call]
      ⟨minuteLaunched, []⟩ :=
  .cons ⟨trivial, .store _ rfl ⟨trivial, .inr ⟨_, rfl⟩⟩⟩ <|
  .cons ⟨fun _ => ⟨rfl, rfl⟩, .trigger _⟩ <|
  .cons ⟨trivial, .call (.mk [] [] (.trigger (.direct "r1" minute (by simp [Daemon.Fresh, Daemon.write]))))⟩ <|
  .cons ⟨trivial, .call (.mk [] [] (.trigger (.inserted rfl (.ok rfl))))⟩ <|
  .cons ⟨trivial, .call (.mk [] [] (.trigger (.launched rfl)))⟩ <|
  .nil _

lemma run_minuteRefused :
    Library.Run (guarded Step (Skips 1)) ⟨minuteLaunched, []⟩ [.restart, .trigger minuteTrigger, .call, .call]
      ⟨minuteRefused, []⟩ :=
  .cons ⟨trivial, .restart recordedOnly 120000000 ⟨trivial, .inr ⟨_, rfl⟩⟩⟩ <|
  .cons ⟨fun _ => ⟨rfl, rfl⟩, .trigger _⟩ <|
  .cons ⟨trivial, .call (.mk [] [] (.trigger (.direct "r2" minute (by
    simp [Daemon.Fresh, Daemon.write, minuteLaunched, minuteRun, Queue.TriggerCall.newRun]))))⟩ <|
  .cons ⟨trivial, .call (.mk [] [] (.trigger (.rejected rfl (.refused rfl) (by simp))))⟩ <|
  .nil _

theorem scheduled_launch_minute :
    runArgs (minuteRun "r1") ∈ minuteRefused.launched ∧ "r1" ∈ minuteRefused.acknowledged ∧
      minuteRefused.db.Spent (1, 60000000) "r1" ∧
      (minuteRefused.launched.filter (fires (1, 60000000))).length ≤ 1 := by
  have hlaunched : runArgs (minuteRun "r1") ∈ minuteRefused.launched := List.mem_singleton_self _
  obtain ⟨hstored, honce⟩ := scheduled_launch (run_minuteLaunched.append run_minuteRefused)
  obtain ⟨hspent, hcount⟩ := honce 60000000 (by simp [Daemon.Retains, minuteRefused, minuteLaunched])
  exact ⟨hlaunched, (hstored _ hlaunched rfl rfl).1, hspent _ hlaunched rfl, hcount⟩

end Minicrond.Executor.Launches
