import Minicrond.Executor.HistoryBooks

/-! Deferred history keeps its order and loses nothing: the stages of a run are stored one after the other, and
each one that has happened is stored or waits in the run's item. -/

namespace Minicrond.Executor.History

open Minicrond.Library Minicrond.Store Minicrond.Time

section

variable {j : Job} {s s' : State} {base happened happened' reached reached' stored stored' : List Stage}
  {outcome outcome' : Option Terminal} {it it' : FinalItem} {v : FinalItemView} {stage : Stage}
  {result : WriteResult} {db' : DB} {pc : WriterPc} {update : FinalItem → FinalItem}

/-! ## The steps of the run -/

lemma State.spool_new {now : ℤ} (hc : s.closing = false) (hi : s.item = none) :
    s.spool false now update = some { s with item := some (update (s.newItem now)), refs := s.refs + 1 } := by
  simp [State.spool, hc, hi]

lemma State.spool_eq_some {full : Bool} {now : ℤ}
    (h : s.spool full now update = some s') : ∃ it refs, s' = { s with item := some it, refs := refs } := by
  rw [State.spool] at h
  cases hc : s.closing with
  | true => simp [hc] at h
  | false =>
    cases hi : s.item with
    | some it =>
      simp only [hc, hi, Bool.false_eq_true, if_false, Option.some.injEq] at h
      exact ⟨update it, s.refs, by simp [← h]⟩
    | none =>
      simp only [hc, hi, Bool.false_eq_true, if_false, Option.ite_none_left_eq_some, Option.some.injEq] at h
      exact ⟨_, _, by simp [← h.2]; exact ⟨rfl, rfl⟩⟩

lemma RecordStep.account {before : List Stage} {update : FinalItem → FinalItem} {x : Tx Unit} {tries : ℕ}
    {pc pc' : RecordPc} (h : RecordStep false update x tries s pc s' pc')
    (ha : Account j base s (pc.happened before stage) (pc.reached before stage) outcome)
    (hdirect : pc.direct = true → s.item = none)
    (hsorted : (before ++ [stage]).Pairwise fun a b => a.rank < b.rank) (hknown : .create ∈ before)
    (hadds : ∀ it, Adds stage outcome it (update it))
    (hx : ∀ n result db', pc = .writing n → Attempt x s.db result db' →
      Sound j outcome db' ∧ Wrote stage (storedStages s.db j.r.id) (storedStages db' j.r.id) result ∧
        ∀ e, result ≠ .refused e) :
    Account j base s' (pc'.happened before stage) (pc'.reached before stage) outcome ∧
      (pc'.direct = true → s'.item = none) ∧ pc' ≠ .rejected ∧ s'.spawned = s.spawned := by
  obtain ⟨_, _, hcross⟩ := List.pairwise_append.mp hsorted
  have hnew : stage ∉ before := fun hmem => lt_irrefl _ (hcross stage hmem stage (by simp))
  have hlast : stage = .start → .terminal ∉ before := by
    rintro rfl hmem
    exact absurd (hcross .terminal hmem .start (by simp)) (by decide)
  have hwrite : ∀ {n result db'}, pc = .writing n → Attempt x s.db result db' →
      Sound j outcome db' ∧ Wrote stage (storedStages s.db j.r.id) (storedStages db' j.r.id) result ∧
        storedStages db' j.r.id <+: before ++ [stage] ∧ (∀ y ∈ before, y ∈ storedStages db' j.r.id) ∧
        ∀ e, result ≠ .refused e := by
    rintro n result db' rfl hat
    obtain ⟨hsound, hwrote, hrefused⟩ := hx n result db' rfl hat
    have hstored : ∀ y ∈ before, y ∈ storedStages s.db j.r.id := ha.stored_of_none (hdirect rfl)
    refine ⟨hsound, hwrote, hwrote.ordered hsorted ?_ (by simp) fun y hy hlt => ?_, fun y hy => ?_, hrefused⟩
    · refine ha.order.trans ?_
      cases n with
      | zero => exact List.prefix_append _ _
      | succ n => exact List.prefix_rfl
    · rcases List.mem_append.mp hy with hy | hy
      · exact hstored y hy
      · exact absurd (List.mem_singleton.mp hy ▸ hlt) (lt_irrefl _)
    · exact hwrote.grows.subset (hstored y hy)
  cases h with
  | unrecorded h => simp [ha.recorded] at h
  | spooled _ h =>
    obtain ⟨it, hi, rfl⟩ := Option.map_eq_some_iff.mp h
    exact ⟨ha.addToItem hi (hadds it) hnew hlast, fun hd => by simp [RecordPc.direct] at hd, nofun, rfl⟩
  | absent _ h => exact ⟨ha, fun _ => h, nofun, rfl⟩
  | healthy => exact ⟨ha, hdirect, nofun, rfl⟩
  | degraded => exact ⟨ha.advance (List.prefix_append _ _) (fun _ => id) ha.ends, hdirect, nofun, rfl⟩
  | written hat =>
    obtain ⟨hsound, hwrote, horder, hsub, _⟩ := hwrite rfl hat
    refine ⟨?_, fun hd => by simp [RecordPc.direct] at hd, nofun, rfl⟩
    refine (ha.write (hdirect rfl) hsound hwrote horder fun y hy => ?_).frame rfl rfl rfl rfl rfl
    rcases List.mem_append.mp hy with hy | hy
    · exact hsub y hy
    · exact List.mem_singleton.mp hy ▸ hwrote.written nofun
  | again hat =>
    obtain ⟨hsound, hwrote, horder, hsub, _⟩ := hwrite rfl hat
    exact ⟨ha.write (hdirect rfl) hsound hwrote horder hsub, fun _ => hdirect rfl, nofun, rfl⟩
  | rejected hat =>
    obtain ⟨_, _, _, _, hrefused⟩ := hwrite rfl hat
    exact (hrefused _ rfl).elim
  | failed hat =>
    obtain ⟨hsound, hwrote, horder, hsub, _⟩ := hwrite rfl hat
    refine ⟨?_, fun _ => hdirect rfl, nofun, rfl⟩
    exact (ha.write (hdirect rfl) hsound hwrote horder hsub).frame rfl rfl rfl rfl rfl
  | spool now h =>
    rw [State.spool_new ha.opened (hdirect rfl), Option.some.injEq] at h
    subst h
    refine ⟨ha.spoolNew (hdirect rfl) (hadds _) List.prefix_rfl hknown hlast, ?_, nofun, rfl⟩
    exact fun hd => by simp [RecordPc.direct] at hd
  | overflow now h => simp [State.spool_new ha.opened (hdirect rfl)] at h
  | registered => exact ⟨ha, hdirect, nofun, rfl⟩
  | abandoned h => simp [ha.opened] at h

structure Kept (j : Job) (base : List Stage) (s : State) (pc : RunPc) : Prop
    extends Account j base s (pc.happened s.spawned) (pc.reached s.spawned) pc.outcome where
  regular : pc.regular = true
  direct : pc.direct = true → s.item = none
  process : pc.Process s.spawned

lemma classify_terminal (err : Option WaitError) (cause : Option Cause) (success : List ℤ) :
    (classify err cause success).1.terminal = true := by
  have hexit : ∀ code signal, (classifyExit cause success code signal).1.terminal = true := by
    intro code signal
    rcases cause with _ | (_ | _)
    · simp only [classifyExit]
      split_ifs <;> rfl
    · rfl
    · rfl
  rcases err with _ | (_ | _)
  · exact hexit 0 ""
  · exact hexit _ _
  · rfl

lemma adds_setStart (info : StartInfo) (it : FinalItem) : Adds .start outcome it (it.setStart info) := by
  refine ⟨rfl, fun x => ?_, nofun, fun h => (h rfl).elim, fun _ => rfl, nofun⟩
  cases x <;> simp [FinalItem.awaits, FinalItem.setStart]

lemma adds_setDone (t : Terminal) (it : FinalItem) : Adds .terminal (some t) it (it.setDone t) := by
  refine ⟨rfl, fun x => ?_, nofun, fun _ => rfl, fun h => (h rfl).elim, fun _ => rfl⟩
  cases x <;> simp [FinalItem.awaits, FinalItem.setDone]

lemma Attempt.refused_eq {x : Tx Unit} {db : DB} {e : StoreError} (h : Attempt x db (.refused e) db') :
    db' = db := by
  cases h
  rfl

lemma begun_sorted (spawned : Option StartInfo) :
    (begun spawned ++ [Stage.terminal]).Pairwise fun a b => a.rank < b.rank := by
  cases spawned <;> simp [begun, Stage.rank]

lemma create_mem_begun (spawned : Option StartInfo) : .create ∈ begun spawned := by
  cases spawned <;> simp [begun]

lemma Kept.persist {info : StartInfo} {pc pc' : RecordPc} (h : persistStart j false info s pc s' pc')
    (hk : Kept j base s (.persisting info pc)) : Kept j base s' (.persisting info pc') := by
  have hsub : ∀ x ∈ storedStages s.db j.r.id, x ∈ [Stage.create, .start] := by
    intro x hx
    have hmem := hk.order.subset hx
    simp only [RunPc.reached, RecordPc.reached] at hmem
    split at hmem
    · exact List.mem_append_left [.start] hmem
    · exact List.mem_append_left [.start] hmem
    · exact List.mem_append_left [.start] hmem
    · exact hmem
  have hx : ∀ n result db', pc = .writing n → Attempt (startRun j.r.id info.process info.started) s.db result db' →
      Sound j none db' ∧ Wrote .start (storedStages s.db j.r.id) (storedStages db' j.r.id) result ∧
        ∀ e, result ≠ .refused e := by
    rintro n result db' rfl hat
    have hcreate := hk.stored_of_none (hk.direct rfl) .create (by simp [RunPc.happened, RecordPc.happened])
    have hterminal : .terminal ∉ storedStages s.db j.r.id := fun hmem => by simpa using hsub _ hmem
    obtain ⟨hsound, hwrote⟩ := hat.start hk.sound hcreate hterminal
    refine ⟨hsound, hwrote, ?_⟩
    rintro e rfl
    have hmem := hwrote.written nofun
    rw [hat.refused_eq] at hmem
    -- the running transition is tried once, before it can be stored
    obtain rfl : n = 0 := by
      cases n with
      | zero => rfl
      | succ n => simpa [RunPc.regular] using hk.regular
    simpa [RunPc.reached, RecordPc.reached] using hk.order.subset hmem
  obtain ⟨ha, hdirect, hrejected, hspawned⟩ := RecordStep.account h hk.toAccount hk.direct (by decide) (by simp)
    (adds_setStart info) hx
  refine ⟨ha, ?_, hdirect, hspawned ▸ hk.process⟩
  cases h with
  | again _ _ hn => simp at hn
  | rejected => exact (hrejected rfl).elim
  | _ => rfl

lemma Kept.complete {t : Terminal} {pc pc' : RecordPc} (h : complete j false t s pc s' pc')
    (hk : Kept j base s (.completing t pc)) : Kept j base s' (.completing t pc') := by
  have hx : ∀ n result db', pc = .writing n → Attempt (finishRun j.r.id t.toOutcome) s.db result db' →
      Sound j (some t) db' ∧ Wrote .terminal (storedStages s.db j.r.id) (storedStages db' j.r.id) result ∧
        ∀ e, result ≠ .refused e := by
    rintro n result db' rfl hat
    exact hat.finish hk.sound (hk.ends t rfl) (hk.stored_of_none (hk.direct rfl) .create (create_mem_begun _))
  obtain ⟨ha, hdirect, hrejected, hspawned⟩ := RecordStep.account h hk.toAccount hk.direct (begun_sorted _)
    (create_mem_begun _) (adds_setDone t) hx
  refine ⟨?_, ?_, hdirect, trivial⟩
  · rw [hspawned]
    exact ha
  · cases pc' with
    | rejected => exact (hrejected rfl).elim
    | _ => rfl

lemma Account.defer (ha : Account j base s [] [.create] none) (hi : s.item = none) (now : ℤ) {t : Option Terminal}
    (ht : ∀ x, t = some x → x.status.terminal = true) :
    Account j base { s with item := some (deferRow t (s.newItem now)), refs := s.refs + 1 }
      ((RunPc.registering t).happened s.spawned) ((RunPc.registering t).reached s.spawned) t := by
  have hstored : storedStages s.db j.r.id <+: [.create] := ha.order
  have hsub : ∀ x ∈ storedStages s.db j.r.id, x = .create := fun x hx => by simpa using hstored.subset hx
  have hstart : .start ∉ storedStages s.db j.r.id := fun hx => by simpa using hsub _ hx
  have hterminal : .terminal ∉ storedStages s.db j.r.id := fun hx => by simpa using hsub _ hx
  have hpending : (deferRow t (s.newItem now)).pending = (RunPc.registering t).happened s.spawned := by
    cases t <;> rfl
  have hadvanced : Account j base s [] ((RunPc.registering t).reached s.spawned) t := by
    refine ha.advance ?_ (by simp) ht
    cases t with
    | none => exact List.prefix_rfl
    | some t => exact List.prefix_append [Stage.create] [.terminal]
  refine ⟨ha.opened, ha.recorded, hadvanced.sound, ht, ha.grown, hadvanced.order, fun x hx => .inr ?_,
    fun x hx => ?_, ?_, ?_⟩
  · rw [← hpending] at hx
    exact hx
  · rw [← hpending]
    exact hx
  · rintro _ ⟨⟩
    refine ⟨?_, fun _ => ⟨hstart, hterminal⟩, fun _ => hterminal, fun hd => ?_⟩
    · cases t <;> simp [RunPc.happened]
    · cases t with
      | none => simp [deferRow, FinalItem.setCreate, State.newItem] at hd
      | some t => rfl
  · exact (hi ▸ ha.writer : s.writer.Agrees _ none).of_none _

lemma Account.insert (hj : j.r.status = .pending) (ha : Account j base s [] [.create] none) (hi : s.item = none)
    (hat : Attempt (createRun j.r) s.db result db') :
    Account j base { s with db := db' } [] [.create] none ∧
      (result = .ok → Account j base { s with db := db' } [.create] [.create] none) := by
  obtain ⟨hsound, hwrote⟩ := hat.create hj ha.sound
  have horder : storedStages db' j.r.id <+: [.create] := by
    refine hwrote.ordered (by decide) ha.order (by simp) fun x hx hlt => ?_
    rw [List.mem_singleton.mp hx] at hlt
    exact absurd hlt (lt_irrefl _)
  refine ⟨ha.write hi hsound hwrote horder nofun, fun hok => ha.write hi hsound hwrote horder fun x hx => ?_⟩
  rw [List.mem_singleton.mp hx]
  exact hwrote.written (by simp [hok])

lemma RunStep.kept {pc pc' : RunPc} (hj : j.r.status = .pending) (h : RunStep j false s pc s' pc')
    (hk : Kept j base s pc) : Kept j base s' pc' := by
  obtain ⟨ha, hregular, hdirect, hprocess⟩ := hk
  cases h with
  | bypassed | cancelled | attempted =>
    exact ⟨ha.advance (List.prefix_append [] _) (fun _ => id) ha.ends, rfl, hdirect, hprocess⟩
  | inserted hat =>
    exact ⟨((ha.insert hj (hdirect rfl) hat).2 rfl).frame rfl rfl rfl rfl rfl, rfl, nofun, hprocess⟩
  | unavailable hat =>
    exact ⟨(ha.insert hj (hdirect rfl) hat).1.frame rfl rfl rfl rfl rfl, rfl, hdirect, hprocess⟩
  | declined hat => exact ⟨(ha.insert hj (hdirect rfl) hat).1, rfl, hdirect, hprocess⟩
  | defer now h =>
    rw [State.spool_new ha.opened (hdirect rfl), Option.some.injEq] at h
    subst h
    refine ⟨ha.defer (hdirect rfl) now fun x hx => ?_, rfl, nofun, hprocess⟩
    simp only [Job.deferred, Option.ite_none_right_eq_some, Option.some.injEq] at hx
    rw [← hx.2]
    rfl
  | lost now h => simp [State.spool_new ha.opened (hdirect rfl)] at h
  | @registered t =>
    cases t with
    | none => exact ⟨ha, rfl, nofun, hprocess⟩
    | some t => exact ⟨ha, rfl, nofun, hprocess⟩
  | abandoned h | turnedAway h | refused _ h => simp [ha.opened] at h
  | skip => exact ⟨ha.frame rfl rfl rfl rfl rfl, rfl, nofun, hprocess⟩
  | @launched recorded =>
    obtain rfl : recorded = true := hregular
    exact ⟨ha.frame rfl rfl rfl ha.recorded.symm rfl, rfl, nofun, hprocess⟩
  | refuse | refuseAgain | unpersisted | killed | rejected => simp [RunPc.regular] at hregular
  | notSpawned x =>
    have hnone : s.spawned = none := hprocess
    have hbegun : begun s.spawned = [.create] := by
      rw [hnone]
      rfl
    refine ⟨?_, rfl, nofun, trivial⟩
    simp only [RunPc.happened, RunPc.reached, RecordPc.happened, RecordPc.reached, hbegun]
    refine (ha.advance List.prefix_rfl (by simp [RunPc.outcome]) ?_).frame rfl rfl rfl rfl rfl
    rintro _ ⟨⟩
    rfl
  | spawned info => exact ⟨ha.frame rfl rfl rfl rfl rfl, rfl, nofun, rfl⟩
  | persist h => exact Kept.persist h ⟨ha, hregular, hdirect, hprocess⟩
  | persisted =>
    have hsome : s.spawned.isSome = true := hprocess
    have hbegun : begun s.spawned = [.create, .start] := by
      rw [begun, if_pos hsome]
    refine ⟨?_, rfl, nofun, trivial⟩
    simp only [RunPc.happened, RunPc.reached, hbegun]
    exact ha
  | exited err cause x =>
    refine ⟨(ha.advance List.prefix_rfl (by simp [RunPc.outcome]) ?_).frame rfl rfl rfl rfl rfl, rfl, nofun,
      trivial⟩
    rintro _ ⟨⟩
    exact classify_terminal err cause _
  | complete h => exact Kept.complete h ⟨ha, hregular, hdirect, hprocess⟩
  | completed => exact ⟨ha, rfl, nofun, trivial⟩
  | announced | retried | dropped => exact ⟨ha.frame rfl rfl rfl rfl rfl, rfl, nofun, trivial⟩
  | unretried => exact ⟨ha, rfl, nofun, trivial⟩

/-! ## The steps of the writer -/

lemma RunPc.reached_sorted (pc : RunPc) (spawned : Option StartInfo) :
    (pc.reached spawned).Pairwise fun a b => a.rank < b.rank := by
  have hbegun := begun_sorted spawned
  have hbegun' := (List.pairwise_append.mp hbegun).1
  have hstart : [Stage.create, .start].Pairwise fun a b => a.rank < b.rank := by decide
  cases pc with
  | registering t => cases t <;> simp [reached, Stage.rank]
  | persisting info pc =>
    simp only [reached, RecordPc.reached]
    split
    · exact List.pairwise_singleton _ _
    · exact List.pairwise_singleton _ _
    · exact List.pairwise_singleton _ _
    · exact hstart
  | completing t pc =>
    simp only [reached, RecordPc.reached]
    split
    · exact hbegun'
    · exact hbegun'
    · exact hbegun'
    · exact hbegun
  | supervising => exact hbegun'
  | announcing | retrying | ended => exact hbegun
  | _ => simp [reached, Stage.rank]

lemma RunPc.reached_eq (pc : RunPc) (spawned : Option StartInfo) (hd : pc.direct = false)
    (hr : pc.regular = true) : pc.reached spawned = pc.happened spawned := by
  cases pc with
  | admitting | inserting | deferring | declined => cases hd
  | registering t => cases t <;> rfl
  | persisting info pc | completing info pc =>
    cases pc with
    | looking | registering | recorded => rfl
    | checking | writing | spooling => cases hd
    | rejected => cases hr
  | refusing => cases hr
  | _ => rfl

namespace Account

lemma writerTo (ha : Account j base s happened reached outcome)
    (hw : pc.Agrees (storedStages s.db j.r.id) s.item) :
    Account j base { s with writer := pc } happened reached outcome :=
  ⟨ha.opened, ha.recorded, ha.sound, ha.ends, ha.grown, ha.order, ha.kept, ha.pending, ha.entry, hw⟩

lemma writeItem (ha : Account j base s happened happened outcome) (hi : s.item = some it)
    (hsorted : happened.Pairwise fun a b => a.rank < b.rank) (hmem : stage ∈ happened)
    (hsound : Sound j outcome db')
    (hwrote : Wrote stage (storedStages s.db j.r.id) (storedStages db' j.r.id) result)
    (hawaits : ∀ x, x.rank < stage.rank → it.awaits x = false) :
    Account j base { s with db := db' } happened happened outcome := by
  have hpending : s.pending = it.pending := by simp [State.pending, hi]
  have hbefore : ∀ x ∈ happened, x.rank < stage.rank → x ∈ storedStages s.db j.r.id := by
    intro x hx hlt
    refine (ha.kept x hx).resolve_right fun hp => ?_
    rw [hpending, FinalItem.mem_pending, hawaits x hlt] at hp
    cases hp
  have hentry := ha.entry it hi
  refine ⟨ha.opened, ha.recorded, hsound, ha.ends, ha.grown.trans hwrote.grows,
    hwrote.ordered hsorted ha.order hmem hbefore, fun x hx => ?_, ha.pending, fun x hx => ?_,
      ha.writer.mono hwrote.grows.subset⟩
  · exact (ha.kept x hx).imp_left fun hs => hwrote.grows.subset hs
  · obtain rfl := Option.some_injective _ (hi.symm.trans hx)
    refine ⟨hentry.known, fun hc => ?_, fun hs => ?_, hentry.done⟩
    · obtain ⟨hstart, hterminal⟩ := hentry.create hc
      have hstage : stage = .create := by
        cases stage with
        | create => rfl
        | start | terminal =>
          have hnot := hawaits .create (by decide)
          simp [FinalItem.awaits, hc] at hnot
      subst hstage
      exact ⟨fun h => hstart ((hwrote.mem h).resolve_right (by simp)),
        fun h => hterminal ((hwrote.mem h).resolve_right (by simp))⟩
    · have hstage : stage ≠ .terminal := by
        rintro rfl
        have hnot := hawaits .start (by decide)
        simp [FinalItem.awaits, hs] at hnot
      exact fun h => hentry.start hs ((hwrote.mem h).resolve_right fun he => hstage he.symm)

lemma created (ha : Account j base s happened reached outcome) (hi : s.item = some it) (hc : it.create = false) :
    .create ∈ storedStages s.db j.r.id := by
  refine (ha.kept .create (ha.entry it hi).known).resolve_right fun hp => ?_
  simp [State.pending, hi, FinalItem.mem_pending, FinalItem.awaits, hc] at hp

lemma mem_happened (ha : Account j base s happened reached outcome) (hi : s.item = some it)
    (h : it.awaits stage = true) :
    stage ∈ happened := by
  refine ha.pending stage ?_
  simpa [State.pending, hi] using FinalItem.mem_pending.mpr h

lemma writeStart (ha : Account j base s happened happened outcome) (hi : s.item = some it)
    (hsorted : happened.Pairwise fun a b => a.rank < b.rank) {info : StartInfo} (hs : it.start = some info)
    (hc : it.create = false) (hat : Attempt (startRun j.r.id info.process info.started) s.db result db') :
    Account j base { s with db := db' } happened happened outcome ∧
      Wrote .start (storedStages s.db j.r.id) (storedStages db' j.r.id) result := by
  have hawaits : it.awaits .start = true := by simp [FinalItem.awaits, hs]
  obtain ⟨hsound, hwrote⟩ := hat.start ha.sound (ha.created hi hc) ((ha.entry it hi).start hawaits)
  refine ⟨ha.writeItem hi hsorted (ha.mem_happened hi hawaits) hsound hwrote fun x hx => ?_, hwrote⟩
  cases x with
  | create => exact hc
  | start | terminal => simp [Stage.rank] at hx

lemma writeTerminal (ha : Account j base s happened happened outcome) (hi : s.item = some it)
    (hsorted : happened.Pairwise fun a b => a.rank < b.rank) {t : Terminal} (hd : it.done = some t)
    (hc : it.create = false) (hs : it.start = none)
    (hat : Attempt (finishRun j.r.id t.toOutcome) s.db result db') :
    Account j base { s with db := db' } happened happened outcome ∧
      Wrote .terminal (storedStages s.db j.r.id) (storedStages db' j.r.id) result ∧ ∀ e, result ≠ .refused e := by
  have hawaits : it.awaits .terminal = true := by simp [FinalItem.awaits, hd]
  obtain rfl : outcome = some t := ((ha.entry it hi).done hawaits).symm.trans hd
  obtain ⟨hsound, hwrote, hrefused⟩ := hat.finish ha.sound (ha.ends t rfl) (ha.created hi hc)
  refine ⟨ha.writeItem hi hsorted (ha.mem_happened hi hawaits) hsound hwrote fun x hx => ?_, hwrote, hrefused⟩
  cases x with
  | create => exact hc
  | start => simp [FinalItem.awaits, hs]
  | terminal => simp [Stage.rank] at hx

lemma strike (ha : Account j base s happened reached outcome) (hi : s.item = some it)
    (hsub : ∀ x, it'.awaits x = true → it.awaits x = true)
    (hstored : ∀ x, it.awaits x = true → it'.awaits x = true ∨ x ∈ storedStages s.db j.r.id)
    (hdone : it'.done = it.done) (hw : pc.Agrees (storedStages s.db j.r.id) (some it')) :
    Account j base { s with item := some it', writer := pc } happened reached outcome := by
  have hpending : s.pending = it.pending := by simp [State.pending, hi]
  have hentry := ha.entry it hi
  refine ⟨ha.opened, ha.recorded, ha.sound, ha.ends, ha.grown, ha.order, fun x hx => ?_, fun x hx => ?_, ?_, hw⟩
  · rcases ha.kept x hx with hs | hp
    · exact .inl hs
    · rw [hpending, FinalItem.mem_pending] at hp
      exact (hstored x hp).symm.imp_right FinalItem.mem_pending.mpr
  · refine ha.pending x ?_
    rw [hpending, FinalItem.mem_pending]
    exact hsub x (FinalItem.mem_pending.mp hx)
  · rintro _ ⟨⟩
    refine ⟨hentry.known, fun hc => hentry.create (hsub .create hc), fun hs => hentry.start (hsub .start hs), ?_⟩
    rw [hdone]
    exact hentry.done

lemma retire (ha : Account j base s happened reached outcome) (hi : s.item = some it)
    (hstored : ∀ x, it.awaits x = true → x ∈ storedStages s.db j.r.id) :
    Account j base { s with item := none, writer := .recovering } happened reached outcome := by
  refine ⟨ha.opened, ha.recorded, ha.sound, ha.ends, ha.grown, ha.order,
    fun x hx => .inl ?_, by simp [State.pending], by simp, trivial⟩
  rcases ha.kept x hx with hs | hp
  · exact hs
  · refine hstored x (FinalItem.mem_pending.mp ?_)
    simpa [State.pending, hi] using hp

end Account

lemma State.modifyItem_of_ref {f : FinalItem → FinalItem} {ref : ℕ} (hi : s.item = some it) (hr : it.ref = ref) :
    s.modifyItem ref f = { s with item := some (f it) } := by
  simp [State.modifyItem, hi, hr]

lemma retires_iff (hi : s.item = some it) (h : s.retires v = true) :
    it.create = false ∧ it.start = none ∧ (it.done.isSome = true → v.done.isSome = true) := by
  simp only [State.retires, hi, Option.any_some, Bool.and_eq_true, Bool.not_eq_true', Bool.or_eq_true,
    Option.isNone_iff_eq_none, decide_eq_true_eq] at h
  obtain ⟨⟨⟨_, hcreate⟩, hstart⟩, hdone⟩ := h
  refine ⟨hcreate, hstart, fun hd => hdone.resolve_right fun hn => ?_⟩
  simp [hn] at hd

lemma WriterStep.account {pc pc' : WriterPc} (hj : j.r.status = .pending) (h : WriterStep j true s pc s' pc')
    (ha : Account j base s happened reached outcome) (hw : pc.Agrees (storedStages s.db j.r.id) s.item)
    (hsorted : reached.Pairwise fun a b => a.rank < b.rank) (hreached : s.item ≠ none → reached = happened) :
    Account j base { s' with writer := pc' } happened reached outcome := by
  have heq : ∀ it, s.item = some it → reached = happened := fun it hi => hreached (by simp [hi])
  cases h with
  | @snapshot it now hi => exact ha.writerTo ⟨it, hi, ⟨rfl, id, fun _ => ⟨rfl, id⟩⟩, fun _ => id⟩
  | leave | keep => exact ha.writerTo trivial
  | turn => exact ha.writerTo hw
  | createNothing hv =>
    obtain ⟨it, hi, hr, hawaits⟩ := hw
    exact ha.writerTo ⟨it, hi, hr, hawaits, Bool.eq_false_iff.mpr fun hc => by simp [hr.create hc] at hv⟩
  | create hv hat | createRefused hv hat =>
    obtain ⟨it, hi, hr, hawaits⟩ := hw
    obtain rfl := heq it hi
    obtain ⟨hsound, hwrote⟩ := hat.create hj ha.sound
    have ha' :=
      ha.writeItem hi hsorted (ha.entry it hi).known hsound hwrote fun x hx => absurd hx (Nat.not_lt_zero _)
    exact ha'.writerTo ⟨it, hi, hr, hawaits, hwrote.written nofun⟩
  | createFailed hv hat =>
    obtain ⟨it, hi, _⟩ := hw
    obtain rfl := heq it hi
    obtain ⟨hsound, hwrote⟩ := hat.create hj ha.sound
    have ha' :=
      ha.writeItem hi hsorted (ha.entry it hi).known hsound hwrote fun x hx => absurd hx (Nat.not_lt_zero _)
    exact ha'.writerTo trivial
  | found => exact ha.writerTo hw
  | conflict h =>
    obtain ⟨_, _, _, _, hc⟩ := hw
    obtain ⟨row, hrow⟩ := create_mem_storedStages.mp hc
    simp [hrow] at h
  | @created v =>
    obtain ⟨it, hi, hr, hawaits, hc⟩ := hw
    rw [State.modifyItem_of_ref hi hr.ref]
    refine ha.strike hi (fun x hx => ?_) (fun x hx => ?_) rfl ⟨_, rfl, ⟨hr.ref, nofun, hr.done⟩, hawaits, rfl⟩
    · cases x with
      | create => cases hx
      | start | terminal => exact hx
    · cases x with
      | create => exact .inr hc
      | start | terminal => exact .inl hx
  | startNothing hv =>
    obtain ⟨it, hi, hr, _, hc⟩ := hw
    exact ha.writerTo ⟨it, hi, hr, fun h => by simp [hv] at h, hc⟩
  | start hv hat hresult =>
    obtain ⟨it, hi, hr, hawaits, hc⟩ := hw
    obtain rfl := heq it hi
    obtain ⟨ha', hwrote⟩ := ha.writeStart hi hsorted (hawaits _ hv) hc hat
    exact ha'.writerTo ⟨it, hi, hr, hawaits, hc, hwrote.written hresult⟩
  | startFailed hv hat =>
    obtain ⟨it, hi, hr, hawaits, hc⟩ := hw
    obtain rfl := heq it hi
    exact (ha.writeStart hi hsorted (hawaits _ hv) hc hat).1.writerTo trivial
  | @started v =>
    obtain ⟨it, hi, hr, hawaits, hc, hs⟩ := hw
    rw [State.modifyItem_of_ref hi hr.ref]
    refine ha.strike hi (fun x hx => ?_) (fun x hx => ?_) rfl
      ⟨_, rfl, ⟨hr.ref, hr.create, fun hv => ⟨(hr.done hv).1, nofun⟩⟩, fun _ => ⟨rfl, hs⟩, hc⟩
    · cases x with
      | start => cases hx
      | create | terminal => exact hx
    · cases x with
      | start => exact .inr hs
      | create | terminal => exact .inl hx
  | finishNothing hv =>
    obtain ⟨it, hi, hr, hb, hc⟩ := hw
    exact ha.writerTo ⟨it, hi, hr, hb, hc, fun h => by simp [hv] at h⟩
  | finish hv hat =>
    obtain ⟨it, hi, hr, hb, hc⟩ := hw
    obtain rfl := heq it hi
    obtain ⟨hdone, hstart⟩ := hr.unstarted hb hv
    obtain ⟨ha', hwrote, _⟩ := ha.writeTerminal hi hsorted hdone hc hstart hat
    exact ha'.writerTo ⟨it, hi, hr, hb.mono hwrote.grows.subset, hc, fun _ => hwrote.written nofun⟩
  | finishRefused hv hat =>
    obtain ⟨it, hi, hr, hb, hc⟩ := hw
    obtain rfl := heq it hi
    obtain ⟨hdone, hstart⟩ := hr.unstarted hb hv
    exact ((ha.writeTerminal hi hsorted hdone hc hstart hat).2.2 _ rfl).elim
  | finishFailed hv hat =>
    obtain ⟨it, hi, hr, hb, hc⟩ := hw
    obtain rfl := heq it hi
    obtain ⟨hdone, hstart⟩ := hr.unstarted hb hv
    exact (ha.writeTerminal hi hsorted hdone hc hstart hat).1.writerTo trivial
  | retire h =>
    obtain ⟨it, hi, hr, hb, hc, ht⟩ := hw
    obtain ⟨hcreate, hstart, hdone⟩ := retires_iff hi h
    refine ha.retire hi fun x hx => ?_
    cases x with
    | create => simp [FinalItem.awaits, hcreate] at hx
    | start => simp [FinalItem.awaits, hstart] at hx
    | terminal => exact ht (hdone hx)
  | recovered =>
    have hidle : WriterPc.idle.Agrees (storedStages s.db j.r.id) s.item := trivial
    exact (ha.writerTo hidle).frame rfl rfl rfl rfl rfl
  | drop => exact hw.elim
  | @delay v now =>
    have hidle : ∀ item, WriterPc.idle.Agrees (storedStages s.db j.r.id) item := fun _ => trivial
    cases hi : s.item with
    | none => exact (ha.writerTo (hidle _)).frame rfl (by simp [State.modifyItem, hi]) rfl rfl rfl
    | some it =>
      refine (ha.strike hi ?_ ?_ ?_ (hidle (some (if it.ref = v.ref then it.delay now else it)))).frame rfl
        (by simp [State.modifyItem, hi]) rfl rfl rfl
      · split_ifs
        · exact fun x hx => by cases x <;> exact hx
        · exact fun x hx => hx
      · split_ifs
        · exact fun x hx => by cases x <;> exact .inl hx
        · exact fun x hx => .inl hx
      · split_ifs
        · rfl
        · rfl
  | abandon h => simp [ha.opened] at h

lemma WriterStep.item_eq_none {pc pc' : WriterPc} (h : WriterStep j true s pc s' pc') (hi : s.item = none) :
    s'.item = none := by
  cases h with
  | created | started | delay => simp [State.modifyItem, hi]
  | retire | drop | abandon => rfl
  | _ => exact hi

lemma WriterStep.frame {pc pc' : WriterPc} (h : WriterStep j true s pc s' pc') :
    s'.spawned = s.spawned ∧ s'.run = s.run := by
  cases h <;> exact ⟨rfl, rfl⟩

/-- Between shutdowns, with room in the spool, lookups that succeed, and no other row in the way of
the run's own. -/
def Orderly (j : Job) (s : State) : Event → Prop
  | .run full => full = false
  | .writer readable => readable = true
  | .store db => Unopposed j db ∧ db.run j.r.id = s.db.run j.r.id
  | .health _ => True
  | .shutdown => False

lemma Step.kept {e : Event} (hj : j.r.status = .pending) (h : Step j s e s') (ho : Orderly j s e)
    (hk : Kept j base s s.run) : Kept j base s' s'.run := by
  cases h with
  | run h =>
    obtain rfl := ho
    obtain ⟨ha, hregular, hdirect, hprocess⟩ := h.kept hj hk
    exact ⟨ha.frame rfl rfl rfl rfl rfl, hregular, hdirect, hprocess⟩
  | writer h =>
    obtain rfl := ho
    obtain ⟨ha, hregular, hdirect, hprocess⟩ := hk
    obtain ⟨hspawned, hrun⟩ := h.frame
    have hreached : s.item ≠ none → s.run.reached s.spawned = s.run.happened s.spawned := by
      intro hi
      refine s.run.reached_eq s.spawned ?_ hregular
      exact Bool.eq_false_iff.mpr fun hd => hi (hdirect hd)
    have ha' := h.account hj ha ha.writer (s.run.reached_sorted s.spawned) hreached
    simp only [hrun]
    refine ⟨?_, hregular, fun hd => h.item_eq_none (hdirect hd), hspawned ▸ hprocess⟩
    rw [hspawned]
    exact ha'.frame rfl rfl rfl rfl rfl
  | store db =>
    obtain ⟨hunopposed, hrow⟩ := ho
    obtain ⟨ha, hregular, hdirect, hprocess⟩ := hk
    have hstored : storedStages db j.r.id = storedStages s.db j.r.id := by rw [storedStages, hrow, storedStages]
    refine ⟨⟨ha.opened, ha.recorded, ⟨hunopposed, hrow ▸ ha.sound.shaped⟩, ha.ends, ?_, ?_, ?_, ha.pending, ?_,
      ?_⟩, hregular, hdirect, hprocess⟩
    · exact hstored ▸ ha.grown
    · exact hstored ▸ ha.order
    · exact hstored ▸ ha.kept
    · exact hstored ▸ ha.entry
    · exact hstored ▸ ha.writer
  | health => exact ⟨hk.frame rfl rfl rfl rfl rfl, hk.regular, hk.direct, hk.process⟩
  | shutdown => exact ho.elim

lemma RecordStep.keeps_item {x : Tx Unit} {tries : ℕ} {pc pc' : RecordPc}
    (h : RecordStep false update x tries s pc s' pc') (hc : s.closing = false) (hi : s.item ≠ none) :
    s'.item ≠ none := by
  cases h with
  | spooled _ h =>
    obtain ⟨it, _, rfl⟩ := Option.map_eq_some_iff.mp h
    simp
  | spool now h =>
    obtain ⟨_, _, rfl⟩ := State.spool_eq_some h
    simp
  | abandoned h => simp [hc] at h
  | _ => exact hi

lemma RunStep.keeps_item {pc pc' : RunPc} (h : RunStep j false s pc s' pc') (hc : s.closing = false)
    (hi : s.item ≠ none) : s'.item ≠ none := by
  cases h with
  | defer now h =>
    obtain ⟨_, _, rfl⟩ := State.spool_eq_some h
    simp
  | persist h | complete h => exact RecordStep.keeps_item h hc hi
  | abandoned h | turnedAway h | refused _ h => simp [hc] at h
  | _ => exact hi

lemma Step.retires {e : Event} (h : Step j s e s') (ho : Orderly j s e) (hk : Kept j base s s.run)
    (hi : s.item ≠ none) (hi' : s'.item = none) : s'.db = s.db ∧ s'.happened = s.happened := by
  cases h with
  | run h =>
    obtain rfl := ho
    exact (h.keeps_item hk.opened hi hi').elim
  | writer h =>
    obtain rfl := ho
    have hw := hk.writer
    generalize s.writer = pc at h hw
    cases h with
    | retire => exact ⟨rfl, rfl⟩
    | drop => exact hw.elim
    | abandon h => simp [hk.opened] at h
    | created | started | delay => simp [State.modifyItem, hi] at hi'
    | _ => exact (hi hi').elim
  | store | health => exact (hi hi').elim
  | shutdown => exact ho.elim

end

def Admitted (j : Job) (s : State) : Prop :=
  Unopposed j s.db ∧ ∃ db down, (s = admission db down ∧ db.run j.r.id = none) ∨
    (s = admitStored db down ∧ ∃ row, db.run j.r.id = some row ∧ row.status = .pending ∧ row.startedUs = none)

lemma Account.initial {j : Job} {db : DB} (hdb : Unopposed j db) {s : State} (hs : s.db = db)
    (hitem : s.item = none) (hclosing : s.closing = false) (hrecorded : s.unrecorded = false)
    (hwriter : s.writer = .idle) {stages : List Stage} (hstored : storedStages db j.r.id = stages)
    (hshaped : ∀ row, db.run j.r.id = some row → Shaped none row) : Account j [] s stages stages none := by
  subst hs hstored
  refine ⟨hclosing, hrecorded, ⟨hdb, hshaped⟩, by simp, List.nil_prefix, List.prefix_rfl, fun _ => .inl, ?_, ?_,
    ?_⟩
  · simp [State.pending, hitem]
  · simp [hitem]
  · rw [hwriter]
    trivial

lemma Admitted.kept {j : Job} {s : State} (h : Admitted j s) : Kept j [] s s.run := by
  obtain ⟨hunopposed, db, down, ⟨rfl, hrow⟩ | ⟨rfl, row, hrow, hs, hu⟩⟩ := h
  · refine ⟨.initial hunopposed rfl rfl rfl rfl rfl (storedStages_none hrow) fun row hr => ?_, rfl, fun _ => rfl,
      rfl⟩
    cases hrow.symm.trans hr
  · have hstored : storedStages db j.r.id = [.create] := (storedStages_some hrow).trans (stagesOf_pending hs hu)
    refine ⟨.initial hunopposed rfl rfl rfl rfl rfl hstored fun x hx => ?_, rfl, fun _ => rfl, rfl⟩
    obtain rfl := Option.some_injective _ (hrow.symm.trans hx)
    exact .pending hs hu

lemma kept_run {j : Job} (hj : j.r.status = .pending) {base : List Stage} {s s' : State} {events : List Event}
    (h : Run (guarded (Step j) (Orderly j)) s events s') (hk : Kept j base s s.run) : Kept j base s' s'.run :=
  h.invariant (P := fun s => Kept j base s s.run) (fun _ _ _ hstep hs => hstep.2.kept hj hstep.1 hs) hk

theorem deferred_history {j : Job} (hj : j.r.status = .pending) {s₀ s : State} {events : List Event}
    (hadmitted : Admitted j s₀) (h : Run (guarded (Step j) (Orderly j)) s₀ events s) :
    storedStages s.db j.r.id <+: s.reached ∧
      (∀ events' s', Run (guarded (Step j) (Orderly j)) s events' s' →
        storedStages s.db j.r.id <+: storedStages s'.db j.r.id) ∧
      (∀ stage ∈ s.happened, stage ∈ storedStages s.db j.r.id ∨ stage ∈ s.pending) ∧
      (∀ e s', guarded (Step j) (Orderly j) s e s' → s.item ≠ none → s'.item = none →
        ∀ stage ∈ s.happened, stage ∈ storedStages s.db j.r.id) ∧
      ∀ t, s.run.outcome = some t → .terminal ∈ s.happened → s.item = none →
        ∃ row, s.db.run j.r.id = some row ∧ Records row t.toOutcome := by
  have hk := kept_run hj h hadmitted.kept
  refine ⟨hk.order, fun events' s' h' => ?_, hk.kept, fun e s' hstep hi hi' => ?_, fun t ht hend hi => ?_⟩
  · have hrebased : Kept j (storedStages s.db j.r.id) s s.run :=
      ⟨{ hk.toAccount with grown := List.prefix_rfl }, hk.regular, hk.direct, hk.process⟩
    exact (kept_run hj h' hrebased).grown
  · obtain ⟨hdb, hhappened⟩ := hstep.2.retires hstep.1 hk hi hi'
    have hstored := (hstep.2.kept hj hstep.1 hk).stored_of_none hi'
    exact hdb ▸ hhappened ▸ hstored
  · obtain ⟨row, hrow, hterminal⟩ := mem_storedStages.mp (hk.stored_of_none hi .terminal hend)
    rw [terminal_mem_stagesOf] at hterminal
    cases hk.sound.shaped row hrow with
    | pending hs | running hs => simp [hs, Status.terminal, Status.rank] at hterminal
    | ended t' ht' _ hr =>
      obtain rfl := Option.some_injective _ (ht.symm.trans ht')
      exact ⟨row, hrow, hr⟩

def nightly : Job := ⟨{ backupRun with status := .pending }, [0], false, 1, 0⟩

def nightlyProcess : StartInfo := ⟨⟨4711, 4711, "4711:77"⟩, second⟩

def nightlyRemains : Remains := ⟨60 * second, 2048, false, none⟩

lemma unopposed_backupDefined : Unopposed nightly backupDefined := by
  have hrun : Run (Store.Step fun _ => "hash") DB.empty [.putDefinition backup 0 "api" false 0] backupDefined :=
    .cons ⟨trivial, .inr ⟨_, rfl⟩⟩ (.nil _)
  refine ⟨hrun.invariant (fun _ _ _ hstep => hstep.consistent) consistent_empty, ?_, ?_⟩
  · simp [backupDefined]
  · exact ⟨_, List.mem_singleton_self _, rfl⟩

def nightlyItem : FinalItem :=
  ⟨0, true, some nightlyProcess, some (nightlyRemains.exit none none [0]), finalizerBackoffMin,
    finalizerBackoffMin, 0⟩

def nightlyEnded : State where
  db := backupDefined
  down := true
  closing := false
  item := some nightlyItem
  refs := 1
  writer := .idle
  run := .ended (nightlyRemains.exit none none [0])
  unrecorded := false
  spawned := some nightlyProcess
  exit := some (nightlyRemains.exit none none [0])
  finished := [announce nightly.r (nightlyRemains.exit none none [0])]
  heap := []
  evidence := []

lemma run_nightly :
    Run (guarded (Step nightly) (Orderly nightly)) (admission backupDefined false) (List.replicate 13 (.run false))
      nightlyEnded :=
  .cons ⟨rfl, .run (.attempted false rfl)⟩ <|
  .cons ⟨rfl, .run (.unavailable .failed)⟩ <|
  .cons ⟨rfl, .run (.defer 0 rfl)⟩ <|
  .cons ⟨rfl, .run (.registered rfl)⟩ <|
  .cons ⟨rfl, .run (.launched rfl)⟩ <|
  .cons ⟨rfl, .run (.spawned nightlyProcess)⟩ <|
  .cons ⟨rfl, .run (.persist (.spooled rfl rfl))⟩ <|
  .cons ⟨rfl, .run .persisted⟩ <|
  .cons ⟨rfl, .run (.exited none none nightlyRemains)⟩ <|
  .cons ⟨rfl, .run (.complete (.spooled rfl rfl))⟩ <|
  .cons ⟨rfl, .run .completed⟩ <|
  .cons ⟨rfl, .run .announced⟩ <|
  .cons ⟨rfl, .run (.unretried (.inl rfl))⟩ <|
  .nil _

lemma run_writer :
    ∃ s, Run (guarded (Step nightly) (Orderly nightly)) nightlyEnded (List.replicate 8 (.writer true)) s ∧
      s.run = nightlyEnded.run ∧ s.spawned = nightlyEnded.spawned ∧ s.item = none :=
  ⟨_,
    .cons ⟨rfl, .writer (.snapshot second rfl le_rfl)⟩ <|
    .cons ⟨rfl, .writer (.turn rfl)⟩ <|
    .cons ⟨rfl, .writer (.create rfl (.ok rfl))⟩ <|
    .cons ⟨rfl, .writer .created⟩ <|
    .cons ⟨rfl, .writer (.start rfl (.ok rfl) nofun)⟩ <|
    .cons ⟨rfl, .writer .started⟩ <|
    .cons ⟨rfl, .writer (.finish rfl (.ok rfl))⟩ <|
    .cons ⟨rfl, .writer (.retire rfl)⟩ <|
    .nil _,
    rfl, rfl, rfl⟩

theorem deferred_history_nightly :
    ∃ s : State, s.run = nightlyEnded.run ∧ s.item = none ∧ ∃ row, s.db.run "r1" = some row ∧
      Records row (nightlyRemains.exit none none [0]).toOutcome := by
  obtain ⟨s, hwriter, hrun, hspawned, hitem⟩ := run_writer
  have hadmitted : Admitted nightly (admission backupDefined false) :=
    ⟨unopposed_backupDefined, backupDefined, false, .inl ⟨rfl, rfl⟩⟩
  have houtcome : s.run.outcome = some (nightlyRemains.exit none none [0]) := by
    rw [hrun]
    rfl
  have hend : .terminal ∈ s.happened := by
    rw [State.happened, hrun, hspawned]
    decide
  obtain ⟨_, _, _, _, hrecords⟩ := deferred_history rfl hadmitted (run_nightly.append hwriter)
  exact ⟨s, hrun, hitem, hrecords _ houtcome hend hitem⟩

end Minicrond.Executor.History
