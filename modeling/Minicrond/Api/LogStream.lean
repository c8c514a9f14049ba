import Minicrond.Logs.Paging
import Minicrond.Store.Runs

/-! The handler that follows a run's log: it looks at the writer, reads the stored pages and looks up the run at
different times, while the run is admitted, opens its log, writes and archives it, and ends. -/

namespace Minicrond.Api

open Minicrond.Library Minicrond.Logs
open Minicrond.Store (Status)

inductive Follower
  | look
  -- reading pages; the flag is whether a writer was registered
  | drain (active : Bool)
  | settle (active : Bool)
  | wait
  | done
deriving DecidableEq

/-- A run with its log, which is absent until the writer is opened, and one follower with the frames
it was sent. -/
structure Follow where
  status : Status
  log : Option Log
  pc : Follower
  after : ℕ
  sent : List Frame

namespace Follow

def start (status : Status) (after : ℕ) : Follow := ⟨status, none, .look, after, []⟩

def active (s : Follow) : Option Writer := s.log.bind (·.writer)

def page (s : Follow) : List Frame :=
  match s.log with
  | none => []
  | some l => readContext l.disk s.after 5000 1048576

def awaitingStart (s : Follow) : Bool := s.status = .queued ∨ s.status = .pending

def stream (s : Follow) : Follow :=
  match s.pc with
  | .look =>
    match s.active with
    | none => { s with pc := .drain false }
    | some w => { s with pc := if s.after < w.seq then .drain true else .settle true }
  | .drain active =>
    match s.page.getLast? with
    | none => { s with pc := .settle active }
    | some f => { s with sent := s.sent ++ s.page, after := f.sequence }
  | .settle true => { s with pc := .wait }
  | .settle false => { s with pc := if s.awaitingStart then .wait else .done }
  | .wait => { s with pc := .look }
  | .done => s

end Follow

inductive FollowEvent
  | admitted
  | opens (options : WriterOptions)
  | log (e : Event)
  | started
  | ended (status : Status)
  | stream

inductive FollowStep : Follow → FollowEvent → Follow → Prop
  | admitted {s : Follow} (hstatus : s.status = .queued) : FollowStep s .admitted { s with status := .pending }
  | opens {s : Follow} {options : WriterOptions} (hstatus : s.status = .pending) (hlog : s.log = none) :
    FollowStep s (.opens options) { s with log := some (Log.opened options) }
  | log {s : Follow} {e : Event} {l l' : Log} (hlog : s.log = some l) (halive : e ≠ .crash) (hkeeps : Keeps l e)
      (hstep : LogStep l e l') : FollowStep s (.log e) { s with log := some l' }
  | started {s : Follow} (hstatus : s.status = .pending) (hlog : s.log ≠ none) :
    FollowStep s .started { s with status := .running }
  | ended {s : Follow} {status : Status} {l : Log} (hlog : s.log = some l) (hsealed : l.writer = none)
      (hactive : s.status.terminal = false) (hstatus : status.terminal = true) :
    FollowStep s (.ended status) { s with status := status }
  | stream {s : Follow} : FollowStep s .stream s.stream

section

variable {after₀ : ℕ} {s t : Follow} {e : FollowEvent}

structure Sends (after₀ : ℕ) (s : Follow) : Prop where
  unopened : s.log = none → s.awaitingStart = true ∧ s.after = after₀ ∧ s.sent = []
  paged : ∀ l, s.log = some l → Paged after₀ ⟨l, s.after, s.sent⟩

lemma Sends.stream (h : Sends after₀ s) : Sends after₀ s.stream := by
  rw [Follow.stream]
  split
  · split <;> exact ⟨h.unopened, h.paged⟩
  · split
    · exact ⟨h.unopened, h.paged⟩
    · rename_i f hlast
      refine ⟨fun hnone => ?_, fun l hl => ?_⟩
      · dsimp only at hnone
        simp [Follow.page, hnone] at hlast
      · dsimp only at hl
        have hpage := (h.paged l hl).page 5000 1048576 rfl
        simp only [Follow.page, hl] at hlast ⊢
        rw [hlast] at hpage
        exact hpage
  · exact ⟨h.unopened, h.paged⟩
  · exact ⟨h.unopened, h.paged⟩
  · exact ⟨h.unopened, h.paged⟩
  · exact h

lemma paged_opened (options : WriterOptions) : Paged after₀ ⟨Log.opened options, after₀, []⟩ :=
  ⟨good_opened options, by simp [Log.opened], slice_self.symm, le_rfl, .inl rfl⟩

lemma FollowStep.sends (hstep : FollowStep s e t) (h : Sends after₀ s) : Sends after₀ t := by
  cases hstep with
  | admitted hstatus => exact ⟨fun hnone => ⟨rfl, (h.unopened hnone).2⟩, h.paged⟩
  | opens hstatus hlog =>
    refine ⟨by simp, fun l hl => ?_⟩
    obtain ⟨_, hafter, hsent⟩ := h.unopened hlog
    obtain rfl := Option.some.inj hl
    dsimp only
    rw [hafter, hsent]
    exact paged_opened _
  | log hlog halive hkeeps hstep =>
    refine ⟨by simp, fun l' hl' => ?_⟩
    obtain rfl := Option.some.inj hl'
    exact (h.paged _ hlog).log hkeeps hstep
  | started hstatus hlog => exact ⟨fun hnone => (hlog hnone).elim, h.paged⟩
  | ended hlog hsealed hactive hstatus => exact ⟨fun hnone => by simp [hlog] at hnone, h.paged⟩
  | stream => exact h.stream

/-- Whether the writer was opened since the follower last looked at it. -/
def Follow.opened (s : Follow) (opened : Bool) : FollowEvent → Bool
  | .opens _ => true
  | .stream => opened && s.pc ≠ .look
  | _ => opened

/-- A lookup of the run whose writer was opened since the last look still finds it waiting for its start. -/
def Calm (s : Follow) (opened : Bool) (e : FollowEvent) : Prop :=
  e = .stream → s.pc = .settle false → opened = true → s.awaitingStart = true

def CalmStep (s : Follow × Bool) (e : FollowEvent) (t : Follow × Bool) : Prop :=
  Calm s.1 s.2 e ∧ FollowStep s.1 e t.1 ∧ t.2 = s.1.opened s.2 e

def Drained (s : Follow) : Prop :=
  ∃ l, s.log = some l ∧ l.writer = none ∧ above Frame.sequence s.after l.accepted = []

structure Concludes (s : Follow) (opened : Bool) : Prop where
  drain : s.pc = .drain false → opened = true ∨ s.active = none
  settle : s.pc = .settle false → opened = true ∨ s.log = none ∨ Drained s
  done : s.pc = .done → Drained s

lemma drained_of_page (h : Sends after₀ s) (hactive : s.active = none) (hpage : s.page = []) :
    s.log = none ∨ Drained s := by
  cases hlog : s.log with
  | none => exact .inl rfl
  | some l =>
    refine .inr ⟨l, hlog, by simpa [Follow.active, hlog] using hactive, ?_⟩
    rw [Follow.page, hlog] at hpage
    have hnone := ((h.paged l hlog).page_empty 5000 1048576).mp hpage
    rw [above, List.filter_eq_nil_iff]
    simpa using hnone

lemma Concludes.stream {opened : Bool} (hcalm : Calm s opened .stream) (h : Sends after₀ s)
    (hc : Concludes s opened) : Concludes s.stream (s.opened opened .stream) := by
  rw [Follow.stream, Follow.opened]
  cases hpc : s.pc with
  | look =>
    dsimp only
    cases hactive : s.active with
    | none => exact ⟨fun _ => .inr hactive, by simp, by simp⟩
    | some w =>
      dsimp only
      split_ifs <;> exact ⟨by simp, by simp, by simp⟩
  | drain active =>
    dsimp only
    cases hlast : s.page.getLast? with
    | none =>
      refine ⟨by simp, fun hsettle => ?_, by simp⟩
      obtain rfl : active = false := by simpa using hsettle
      have hdrained := drained_of_page h
      exact (hc.drain hpc).imp (by simp) fun hactive => hdrained hactive (List.getLast?_eq_none_iff.mp hlast)
    | some f => exact ⟨fun hdrain => (hc.drain (hpc.trans hdrain)).imp_left (by simp), by simp, by simp⟩
  | settle active =>
    cases active with
    | true => exact ⟨by simp, by simp, by simp⟩
    | false =>
      dsimp only
      split_ifs with hawaiting
      · exact ⟨by simp, by simp, by simp⟩
      · refine ⟨by simp, by simp, fun _ => ?_⟩
        have hlooked := (hc.settle hpc).resolve_left fun hopened => hawaiting (hcalm rfl hpc hopened)
        exact hlooked.resolve_left fun hnone => hawaiting (h.unopened hnone).1
  | wait => exact ⟨by simp, by simp, by simp⟩
  | done => exact ⟨by simp [hpc], by simp [hpc], hc.done⟩

lemma Drained.log {l l' : Log} {ev : Event} (h : Drained s) (hlog : s.log = some l) (hgood : Good l)
    (hstep : LogStep l ev l') : Drained { s with log := some l' } := by
  obtain ⟨x, hx, hwriter, hnone⟩ := h
  obtain rfl := Option.some.inj (hlog.symm.trans hx)
  obtain ⟨hwriter', haccepted⟩ := hstep.quiet hgood hwriter
  exact ⟨l', rfl, hwriter', by rw [haccepted]; exact hnone⟩

lemma FollowStep.concludes {opened : Bool} (hcalm : Calm s opened e) (hstep : FollowStep s e t)
    (h : Sends after₀ s) (hc : Concludes s opened) : Concludes t (s.opened opened e) := by
  cases hstep with
  | admitted => exact ⟨hc.drain, hc.settle, hc.done⟩
  | opens hstatus hlog =>
    refine ⟨fun _ => .inl rfl, fun _ => .inl rfl, fun hdone => ?_⟩
    obtain ⟨_, hl, _⟩ := hc.done hdone
    simp [hlog] at hl
  | log hlog halive hkeeps hstep =>
    have hgood := (h.paged _ hlog).good
    refine ⟨fun hdrain => ?_, fun hsettle => ?_, fun hdone => (hc.done hdone).log hlog hgood hstep⟩
    · refine (hc.drain hdrain).imp_right fun hwriter => ?_
      rw [Follow.active, hlog, Option.bind_some] at hwriter
      exact (hstep.quiet hgood hwriter).1
    · refine (hc.settle hsettle).imp_right fun hlooked => .inr ?_
      exact (hlooked.resolve_left (by simp [hlog])).log hlog hgood hstep
  | started | ended => exact ⟨hc.drain, hc.settle, hc.done⟩
  | stream => exact hc.stream hcalm h

lemma sends_start {status : Status} (hstatus : status = .queued ∨ status = .pending) :
    Sends after₀ (Follow.start status after₀) := by
  refine ⟨fun _ => ⟨?_, rfl, rfl⟩, by simp [Follow.start]⟩
  rw [Follow.awaitingStart, decide_eq_true_eq]
  exact hstatus

/-- The frames sent are at any time the stored ones between the first cursor and the present one, each once and in
order; and if no lookup finds a run started whose writer was opened since the last look at it, the stream ends when
the log is sealed and all of it has been sent. -/
theorem stream_done_after_final_frames {status : Status} (hstatus : status = .queued ∨ status = .pending)
    {events : List FollowEvent} (hrun : Run FollowStep (Follow.start status after₀) events s) :
    (∀ l, s.log = some l → s.sent = slice Frame.sequence l.accepted after₀ s.after) ∧
      Increasing Frame.sequence s.sent ∧
      ∀ opened, Run CalmStep (Follow.start status after₀, false) events (s, opened) → s.pc = .done →
        ∃ l, s.log = some l ∧ l.writer = none ∧ s.sent = above Frame.sequence after₀ l.accepted := by
  have hsends : Sends after₀ s :=
    hrun.invariant (P := Sends after₀) (fun _ _ _ hstep => hstep.sends) (sends_start hstatus)
  refine ⟨fun l hl => (hsends.paged l hl).received, ?_, fun opened hcalm hdone => ?_⟩
  · cases hlog : s.log with
    | none =>
      rw [(hsends.unopened hlog).2.2]
      exact List.Pairwise.nil
    | some l =>
      obtain ⟨ends, hlayout⟩ := (hsends.paged l hlog).good.steady.layout
      have hreceived : s.sent = _ := (hsends.paged l hlog).received
      rw [hreceived]
      exact hlayout.increasing.slice
  · have hboth : Sends after₀ s ∧ Concludes s opened := by
      refine hcalm.invariant (P := fun x => Sends after₀ x.1 ∧ Concludes x.1 x.2) (fun x e y hstep h => ?_)
        ⟨sends_start hstatus, by simp [Follow.start], by simp [Follow.start], by simp [Follow.start]⟩
      obtain ⟨hcalm, hstep, hopened⟩ := hstep
      exact ⟨hstep.sends h.1, hopened ▸ hstep.concludes hcalm h.1 h.2⟩
    obtain ⟨l, hlog, hwriter, hnone⟩ := hboth.2.done hdone
    refine ⟨l, hlog, hwriter, ?_⟩
    have hrest := (hsends.paged l hlog).rest
    dsimp only at hrest
    rw [hnone, List.append_nil] at hrest
    exact hrest

lemma FollowStep.page {status : Status} {l : Log} {active : Bool} {after : ℕ} {sent frames : List Frame}
    (hpage : readContext l.disk after 5000 1048576 = frames) :
    FollowStep ⟨status, some l, .drain active, after, sent⟩ .stream
      (match frames.getLast? with
      | none => ⟨status, some l, .settle active, after, sent⟩
      | some f => ⟨status, some l, .drain active, f.sequence, sent ++ frames⟩) := by
  subst hpage
  exact .stream

lemma follow_of_calm {events : List FollowEvent} {x y : Follow × Bool} (h : Run CalmStep x events y) :
    Run FollowStep x.1 events y.1 := by
  induction h with
  | nil => exact .nil _
  | cons hstep _ ih => exact .cons hstep.2.1 ih

lemma CalmStep.of {opened : Bool} (hcalm : Calm s opened e) (h : FollowStep s e t) :
    CalmStep (s, opened) e (t, s.opened opened e) := ⟨hcalm, h, rfl⟩

lemma calm_unopened : Calm s false e := fun _ _ h => absurd h Bool.false_ne_true

lemma calm_of_ne (h : e ≠ .stream) {opened : Bool} : Calm s opened e := fun he => absurd he h

lemma not_evicts {w : Writer} (h : w.maxBytes = 0) (line : Line) : ¬w.Evicts line := fun hevicts => by
  have := hevicts.1.1
  omega

def hi : Frame := ⟨greeting, 1, 0⟩

def hiLog : Log := ⟨⟨[], [], [⟨1, [hi], 40⟩], some [⟨1, 1, 1, 40, 26⟩]⟩, none, none, [], [hi]⟩

lemma run_before_start : Run CalmStep (Follow.start .pending 0, false) [.stream, .stream, .stream]
    (⟨.pending, none, .wait, 0, []⟩, false) :=
  .cons (.of calm_unopened .stream) <| .cons (.of calm_unopened .stream) <|
  .cons (.of calm_unopened .stream) (.nil _)

lemma run_write : Run CalmStep (⟨.pending, none, .wait, 0, []⟩, false)
    [.opens ⟨0, 0, false⟩, .log (.write hi.toLine 0 (40, 30)), .log .perform, .started, .log (.close 40),
    .log .perform, .log .perform, .log .detach] (⟨.running, some hiLog, .wait, 0, []⟩, true) := by
  have hquiet : ∀ {s : Follow} {e : Event} {opened : Bool}, Calm s opened (.log e) := calm_of_ne (by simp)
  exact .cons (.of calm_unopened (.opens rfl rfl)) <|
    .cons (.of hquiet (.log rfl (by simp) (fun _ hw => not_evicts (Option.some.inj hw ▸ rfl) _)
      (.write rfl rfl rfl))) <|
    .cons (.of hquiet (.log rfl (by simp) trivial (.perform rfl))) <|
    .cons (.of (calm_of_ne (by simp)) (.started rfl (by simp))) <|
    .cons (.of hquiet (.log rfl (by simp) trivial (.close rfl rfl rfl))) <|
    .cons (.of hquiet (.log rfl (by simp) trivial (.perform rfl))) <|
    .cons (.of hquiet (.log rfl (by simp) trivial (.perform rfl))) <|
    .cons (.of hquiet (.log rfl (by simp) trivial (.detach rfl rfl rfl rfl))) (.nil _)

lemma run_read :
    Run CalmStep (⟨.running, some hiLog, .wait, 0, []⟩, true) [.stream, .stream, .stream, .stream, .stream]
      (⟨.running, some hiLog, .done, 1, [hi]⟩, false) := by
  have hfirst : readContext hiLog.disk 0 5000 1048576 = [hi] := by decide +kernel
  have hlast : readContext hiLog.disk 1 5000 1048576 = [] := by decide +kernel
  exact .cons (.of (fun _ hpc => by simp at hpc) .stream) <|
    .cons (.of (fun _ hpc => by simp [Follow.stream] at hpc) .stream) <|
    .cons (.of calm_unopened (.page hfirst)) <|
    .cons (.of calm_unopened (.page hlast)) <| .cons (.of calm_unopened .stream) (.nil _)

theorem stream_done_after_final_frames_hi : ∃ s l, Run FollowStep (Follow.start .pending 0)
      [.stream, .stream, .stream, .opens ⟨0, 0, false⟩, .log (.write hi.toLine 0 (40, 30)), .log .perform,
      .started, .log (.close 40), .log .perform, .log .perform, .log .detach, .stream, .stream, .stream, .stream,
      .stream] s ∧
    s.pc = .done ∧ s.log = some l ∧ l.accepted.length = 1 ∧ s.sent = above Frame.sequence 0 l.accepted := by
  have hcalm := run_before_start.append (run_write.append run_read)
  have hrun : Run FollowStep (Follow.start .pending 0) _ ⟨.running, some hiLog, .done, 1, [hi]⟩ :=
    follow_of_calm hcalm
  obtain ⟨x, hx, _, hsent⟩ := (stream_done_after_final_frames (.inr rfl) hrun).2.2 _ hcalm rfl
  obtain rfl := Option.some.inj hx
  exact ⟨_, hiLog, hrun, rfl, rfl, rfl, hsent⟩

/-- The log is sealed before the end of the run is recorded, so the stream may end while the run is
listed as running. -/
theorem stream_may_end_early : ∃ s, Run FollowStep (Follow.start .pending 0)
      [.opens ⟨0, 0, false⟩, .started, .log (.close 40), .log .perform, .log .perform, .log .detach, .stream,
      .stream, .stream] s ∧ s.pc = .done ∧ s.status.terminal = false := by
  let l : Log := ⟨⟨[], [], [⟨1, [], 40⟩], some []⟩, none, none, [], []⟩
  have hempty : readContext l.disk 0 5000 1048576 = [] := by decide +kernel
  have hread : Run FollowStep ⟨.running, some l, .look, 0, []⟩ [.stream, .stream, .stream]
      ⟨.running, some l, .done, 0, []⟩ :=
    .cons .stream <| .cons (.page hempty) <| .cons .stream (.nil _)
  have hseal : Run FollowStep (Follow.start .pending 0)
      [.opens ⟨0, 0, false⟩, .started, .log (.close 40), .log .perform, .log .perform, .log .detach]
      ⟨.running, some l, .look, 0, []⟩ :=
    .cons (.opens rfl rfl) <| .cons (.started rfl (by simp)) <|
    .cons (.log rfl (by simp) trivial (.close rfl rfl rfl)) <| .cons (.log rfl (by simp) trivial (.perform rfl)) <|
    .cons (.log rfl (by simp) trivial (.perform rfl)) <|
    .cons (.log rfl (by simp) trivial (.detach rfl rfl rfl rfl)) (.nil _)
  exact ⟨_, hseal.append hread, rfl, rfl⟩

/-- A run whose writer is opened after the look and that is running at the lookup: the stream ends before its first
frame. -/
lemma stream_misses_start : ∃ s l, Run FollowStep (Follow.start .pending 0)
      [.stream, .stream, .opens ⟨0, 0, false⟩, .log (.write hi.toLine 0 (40, 30)), .log .perform, .started,
      .stream] s ∧ s.pc = .done ∧ s.status = .running ∧ s.sent = [] ∧ s.log = some l ∧ l.accepted.length = 1 ∧
    l.writer.isSome = true :=
  ⟨_, _, .cons .stream <| .cons .stream <| .cons (.opens rfl rfl) <|
    .cons (.log rfl (by simp) (fun _ hw => not_evicts (Option.some.inj hw ▸ rfl) _) (.write rfl rfl rfl)) <|
    .cons (.log rfl (by simp) trivial (.perform rfl)) <| .cons (.started rfl (by simp)) <| .cons .stream (.nil _),
    rfl, rfl, rfl, rfl, rfl, rfl⟩

end

end Minicrond.Api
