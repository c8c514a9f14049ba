import Minicrond.Executor.Outcome
import Minicrond.Logs.CaptureLoss
import Minicrond.Logs.Pipe

/-! What becomes of a process's output when the read of its pipe fails. Pipes that a descendant holds are closed
after the drain deadline, and the loop takes the pump's `os.ErrClosed` for a clean end. -/

namespace Minicrond.Executor.Outcome

open Minicrond.Library Minicrond.Executor.History Minicrond.Logs

def pumpReply : Except PipeError Unit → PumpResult
  | .ok () => .eof
  | .error (.read .closed) => .closed
  | .error _ => .failed

def WatchEvent.pumpFails : WatchEvent → Bool
  | .pumped .failed _ => true
  | _ => false

variable {success : List ℤ} {s t : Watch} {i : WatchEvent} {es : List WatchEvent}

lemma pumpFailed_pumped (s : Watch) (reply : PumpResult) (result : Option WaitError) :
    (s.pumped reply result).pumpFailed = (s.pumpFailed || (WatchEvent.pumped reply result).pumpFails) := by
  cases reply with
  | failed =>
    simp only [Watch.pumped, WatchEvent.pumpFails, Bool.or_true]
    split <;> rfl
  | eof | closed => exact (Bool.or_false _).symm

lemma pumpFailed_step (h : WatchStep success s i t) : t.pumpFailed = (s.pumpFailed || i.pumpFails) := by
  cases h with
  | pumped => exact pumpFailed_pumped ..
  | @persisted reply result _ =>
    have hsettle : (s.settlePersist reply).pumpFailed = s.pumpFailed := by cases reply <;> rfl
    obtain ⟨_, _, heq⟩ | ⟨_, heq⟩ := persisted_cases s reply result
    · rw [heq]
      exact hsettle.trans (Bool.or_false _).symm
    · rw [heq]
      exact hsettle.trans (Bool.or_false _).symm
  | _ => exact (Bool.or_false _).symm

lemma pumpFailed_run (h : Run (WatchStep success) s es t) :
    t.pumpFailed = (s.pumpFailed || es.any (·.pumpFails)) := by
  induction h with
  | nil => exact (Bool.or_false _).symm
  | cons he _ ih => rw [ih, pumpFailed_step he, List.any_cons, Bool.or_assoc]

lemma exists_pumpFails : (Watch.start.pumpFailed || es.any (·.pumpFails)) = true ↔
    ∃ result, .pumped .failed result ∈ es := by
  rw [Bool.or_eq_true, or_iff_right (nofun : ¬ Watch.start.pumpFailed = true), List.any_eq_true]
  constructor
  · rintro ⟨i, hi, hfails⟩
    unfold WatchEvent.pumpFails at hfails
    split at hfails
    case h_1 result => exact ⟨result, hi⟩
    case h_2 => cases hfails
  · rintro ⟨result, hmem⟩
    exact ⟨_, hmem, rfl⟩

lemma truncated_finish (s : Watch) (success : List ℤ) (x : Remains) (sealFailed : Bool) :
    (s.finish success x sealFailed).truncated = (x.truncated || s.pumpFailed || sealFailed) := by
  unfold Watch.finish
  split <;> rfl

def Complete (limit : ℕ) (stream : List UInt8) (offers : List Offer) : Prop :=
  offers = reference limit stream ∧ ∀ line ∈ stream.splitOn newline, line.length ≤ limit

def Marks (refused : ℕ → Bool) (offers : List Offer) (truncated : Bool) : Prop :=
  ∀ n o, offers[n]? = some o → refused n = false → o.flags &&& flagTruncated ≠ 0 → truncated = true

lemma flagged_keep {limit : ℕ} {line : List UInt8} (unterminated : Bool) (h : limit < line.length) :
    (keep limit unterminated line).flags &&& flagTruncated ≠ 0 := by
  simp only [keep, offer, decide_eq_true h, if_true]
  cases unterminated <;> cases validUTF8 (trimSuffix (line.take limit)) <;> decide

lemma mem_splitOn {line stream : List UInt8} (h : line ∈ stream.splitOn newline) :
    line ∈ terminated stream ∨ line = remainder stream := by
  rw [← List.dropLast_append_getLast (splitOn_newline_ne_nil stream), List.mem_append, List.mem_singleton] at h
  rw [remainder, List.getLastD_eq_getLast?, List.getLast?_eq_getLast_of_ne_nil (splitOn_newline_ne_nil stream)]
  exact h

lemma exists_flagged {limit : ℕ} {line stream : List UInt8} (hline : line ∈ stream.splitOn newline)
    (h : limit < line.length) : ∃ o ∈ reference limit stream, o.flags &&& flagTruncated ≠ 0 := by
  rcases mem_splitOn hline with hmem | rfl
  · exact ⟨_, List.mem_append_left _ (List.mem_map_of_mem hmem), flagged_keep false h⟩
  · refine ⟨_, List.mem_append_right _ ?_, flagged_keep true h⟩
    rw [unterminatedLine, if_neg (List.ne_nil_of_length_pos ((Nat.zero_le _).trans_lt h))]
    exact List.mem_singleton_self _

lemma captureAll_cases (refused : ℕ → Bool) (result : Except PipeError Unit) (offered lines : List Offer) :
    (captureAll refused result offered lines = (offered ++ lines, result) ∧
        ∀ n < lines.length, refused (offered.length + n) = false) ∨
      (captureAll refused result offered lines).2 = .error .writerClosed := by
  induction lines generalizing offered with
  | nil =>
    rw [captureAll, List.append_nil]
    exact .inl ⟨rfl, fun n hn => absurd hn n.not_lt_zero⟩
  | cons o os ih =>
    rw [captureAll]
    by_cases hrefused : refused offered.length = true
    case pos =>
      rw [if_pos hrefused]
      exact .inr rfl
    case neg =>
      rw [if_neg hrefused]
      rcases ih (offered ++ [o]) with ⟨heq, htaken⟩ | herror
      case inr => exact .inr herror
      refine .inl ⟨?_, ?_⟩
      · rw [heq, List.append_assoc, List.singleton_append]
      · intro n hn
        cases n with
        | zero => exact Bool.eq_false_iff.2 hrefused
        | succ n =>
          have := htaken n (Nat.lt_of_succ_lt_succ hn)
          rwa [List.length_append, List.length_singleton, Nat.add_assoc, Nat.add_comm 1 n] at this

lemma length_captureAll_le (refused : ℕ → Bool) (result : Except PipeError Unit) (offered lines : List Offer) :
    (captureAll refused result offered lines).1.length ≤ offered.length + lines.length := by
  induction lines generalizing offered with
  | nil => exact le_rfl
  | cons o os ih =>
    rw [captureAll]
    split
    case isTrue => simp
    case isFalse =>
      refine (ih _).trans ?_
      simp
      omega

structure PumpInput where
  maxLine : ℤ
  refused : ℕ → Bool
  reads : List (List UInt8)
  final : ReadError
  joined : Bool

namespace PumpInput

def limit (p : PumpInput) : ℕ := lineLimit p.maxLine

def stream (p : PumpInput) : List UInt8 := p.reads.flatten

def offers (p : PumpInput) : List Offer := (pipe p.maxLine p.refused p.reads p.final p.joined).1

def reply (p : PumpInput) : PumpResult := pumpReply (pipe p.maxLine p.refused p.reads p.final p.joined).2

lemma pipe_eq_captureAll (p : PumpInput) : pipe p.maxLine p.refused p.reads p.final p.joined =
    captureAll p.refused (ending p.final) [] (expected p.limit p.stream p.final) := pipe_eq ..

lemma not_complete (p : PumpInput) (hclosed : p.final = .closed) (hrest : remainder p.stream ≠ []) :
    ¬ Complete p.limit p.stream p.offers := by
  intro h
  have hle := length_captureAll_le p.refused (ending p.final) [] (expected p.limit p.stream p.final)
  rw [← p.pipe_eq_captureAll] at hle
  change p.offers.length ≤ _ at hle
  rw [h.1, reference, unterminatedLine, if_neg hrest, hclosed,
    expected_of_ne (by simp : ReadError.closed ≠ .eof)] at hle
  simp at hle

lemma complete_or_marked (p : PumpInput) {truncated : Bool} (hmarks : Marks p.refused p.offers truncated)
    (hend : p.final = .closed → remainder p.stream = []) :
    p.reply = .failed ∨ Complete p.limit p.stream p.offers ∨ truncated = true := by
  have hpipe := p.pipe_eq_captureAll
  rcases captureAll_cases p.refused (ending p.final) [] (expected p.limit p.stream p.final)
    with ⟨htaken, hall⟩ | hrefused
  case inr => exact .inl (by rw [reply, hpipe, hrefused]; rfl)
  have hoffers : p.offers = expected p.limit p.stream p.final := by rw [offers, hpipe, htaken, List.nil_append]
  by_cases hother : p.final = .other
  case pos => exact .inl (by rw [reply, hpipe, htaken, hother]; rfl)
  have hreference : p.offers = reference p.limit p.stream := by
    cases hfinal : p.final with
    | eof => rw [hoffers, hfinal, expected]
    | closed =>
      rw [hoffers, hfinal, reference, unterminatedLine, if_pos (hend hfinal), List.append_nil,
        expected_of_ne (by simp : ReadError.closed ≠ .eof)]
    | other => exact absurd hfinal hother
  refine .inr (or_iff_not_imp_left.2 fun hcut => ?_)
  obtain ⟨line, hline, hlong⟩ : ∃ line ∈ p.stream.splitOn newline, p.limit < line.length := by
    by_contra hnone
    exact hcut ⟨hreference, fun line hline => Nat.not_lt.1 fun hlong => hnone ⟨line, hline, hlong⟩⟩
  obtain ⟨o, ho, hflag⟩ := exists_flagged hline hlong
  rw [← hreference] at ho
  obtain ⟨n, hn, hget⟩ := List.getElem_of_mem ho
  have hsome : p.offers[n]? = some o := by rw [List.getElem?_eq_getElem hn, hget]
  have hfree := hall n (hoffers ▸ hn)
  rw [List.length_nil, Nat.zero_add] at hfree
  exact hmarks n o hsome hfree hflag

end PumpInput

lemma complete_iff_of_marks {x : Remains} {sealFailed : Bool} {u : Watch} {outcome : Terminal} (p : PumpInput)
    (hrun : Run (WatchStep success) .start es s) (hseal : WatchStep success s (.sealed x sealFailed) u)
    (houtcome : u.terminal = some outcome) (hpump : ∃ result, .pumped p.reply result ∈ es)
    (hmarks : Marks p.refused p.offers x.truncated) :
    (Complete p.limit p.stream p.offers ∨ outcome.truncated = true) ↔
      (p.final = .closed → remainder p.stream ≠ [] →
        x.truncated = true ∨ sealFailed = true ∨ ∃ result, .pumped .failed result ∈ es) := by
  have htruncated : outcome.truncated = (x.truncated || s.pumpFailed || sealFailed) := by
    cases hseal
    cases houtcome
    exact truncated_finish ..
  have hfailed : s.pumpFailed = true ↔ ∃ result, .pumped .failed result ∈ es := by
    rw [pumpFailed_run hrun]
    exact exists_pumpFails
  rw [htruncated, Bool.or_eq_true, Bool.or_eq_true, hfailed]
  constructor
  · intro h hclosed hrest
    rcases h with hcomplete | (hx | hf) | hs
    · exact absurd hcomplete (p.not_complete hclosed hrest)
    · exact .inl hx
    · exact .inr (.inr hf)
    · exact .inr (.inl hs)
  · intro h
    by_cases hend : p.final = .closed → remainder p.stream = []
    case pos =>
      obtain ⟨result, hmem⟩ := hpump
      rcases p.complete_or_marked hmarks hend with hreply | hcomplete | hx
      · exact .inr (.inl (.inr ⟨result, hreply ▸ hmem⟩))
      · exact .inl hcomplete
      · exact .inr (.inl (.inl hx))
    case neg =>
      obtain ⟨hclosed, hrest⟩ := Classical.not_imp.1 hend
      rcases h hclosed hrest with hx | hs | hf
      · exact .inr (.inl (.inl hx))
      · exact .inr (.inr hs)
      · exact .inr (.inl (.inr hf))

def Captures (stream : Stream) (p : PumpInput) (s : Capture.Log) (cs : List Capture.Event) : Prop :=
  ∀ n o, p.offers[n]? = some o → ∃ before now io after,
    cs = before ++ .capture ⟨stream, o.payload, o.flags⟩ now io :: after ∧
      p.refused n = (s.run before).writer.closed

lemma Captures.marks {stream : Stream} {p : PumpInput} {options : WriterOptions} {how : Capture.Start}
    {cs : List Capture.Event} (h : Captures stream p (.start options how) cs) :
    Marks p.refused p.offers ((Capture.Log.start options how).run cs).writer.truncated := by
  intro n o ho hopen hflag
  obtain ⟨before, now, io, after, rfl, hrefused⟩ := h n o ho
  exact Capture.Log.truncated_of_flagged (hrefused.symm.trans hopen) (bne_iff_ne.2 hflag)

/-- Nothing that a pump has read is lost silently, unless the pipe is closed under it after the last newline and
nothing else marks the output as truncated. -/
theorem pump_loses_nothing_silently {x : Remains} {sealFailed : Bool} {u : Watch} {outcome : Terminal}
    {stream : Stream} {options : WriterOptions} {how : Capture.Start} {cs : List Capture.Event} (p : PumpInput)
    (hrun : Run (WatchStep success) .start es s) (hseal : WatchStep success s (.sealed x sealFailed) u)
    (houtcome : u.terminal = some outcome) (hpump : ∃ result, .pumped p.reply result ∈ es)
    (hcaptures : Captures stream p (.start options how) cs)
    (hwriter : x.truncated = ((Capture.Log.start options how).run cs).writer.truncated) :
    (Complete p.limit p.stream p.offers ∨ outcome.truncated = true) ↔
      (p.final = .closed → remainder p.stream ≠ [] →
        x.truncated = true ∨ sealFailed = true ∨ ∃ result, .pumped .failed result ∈ es) :=
  complete_iff_of_marks p hrun hseal houtcome hpump (hwriter ▸ hcaptures.marks)

def heldPipe (reads : List (List UInt8)) : PumpInput := ⟨0, fun _ => false, reads, .closed, false⟩

lemma pipe_heldPipe (reads : List (List UInt8)) : pipe 0 (fun _ => false) reads .closed false =
    ((terminated reads.flatten).map (keep (lineLimit 0) false), .error (.read .closed)) := by
  rw [pipe_eq, captureAll_of_accepted (fun _ => rfl)]
  rfl

def drained : List WatchEvent :=
  [.exits none, .waited, .persisted .recorded none, .pumped .eof none, .drainDeadline, .pumped .closed none]

lemma drained_run : ∃ s u outcome, Run (WatchStep [0]) .start drained s ∧
    WatchStep [0] s (.sealed ⟨9, 30, false, none⟩ false) u ∧ u.terminal = some outcome ∧
    outcome.truncated = false :=
  ⟨_, _, _, .cons (.exits rfl) (.cons (.waited rfl rfl)
    (.cons (.persisted rfl) (.cons (.pumped (by decide) fun _ => rfl)
    (.cons (.drainDeadline rfl rfl (by decide)) (.cons (.pumped (by decide) fun _ => rfl) (.nil _)))))),
    .sealed rfl rfl rfl rfl, rfl, rfl⟩

lemma reply_heldPipe_mem (reads : List (List UInt8)) :
    ∃ result, .pumped (heldPipe reads).reply result ∈ drained := by
  have hreply : (heldPipe reads).reply = .closed := congrArg (pumpReply ∘ Prod.snd) (pipe_heldPipe reads)
  exact ⟨none, hreply ▸ by simp [drained]⟩

def lineA : List Capture.Event := [.capture ⟨.stdout, [97], 0⟩ 0 Capture.Log.goodCapture]

lemma captures_heldPipe {reads : List (List UInt8)} (h : (heldPipe reads).offers = [⟨[97], 0⟩]) :
    Captures .stdout (heldPipe reads) (.start ⟨0, 0, false⟩ .opened) lineA := by
  intro n o ho
  rw [h] at ho
  obtain ⟨rfl, rfl⟩ : n = 0 ∧ o = ⟨[97], 0⟩ := by cases n <;> simp_all
  exact ⟨[], 0, Capture.Log.goodCapture, [], rfl, rfl⟩

lemma lineA_complete : false = ((Capture.Log.start ⟨0, 0, false⟩ .opened).run lineA).writer.truncated := by
  decide +kernel

lemma offers_heldPipe {reads : List (List UInt8)} {offers : List Offer}
    (h : (terminated reads.flatten).map (keep (lineLimit 0) false) = offers) : (heldPipe reads).offers = offers :=
  (congrArg Prod.fst (pipe_heldPipe reads)).trans h

theorem pump_loses_nothing_silently_newline : ∃ s u outcome, Run (WatchStep [0]) .start drained s ∧
    WatchStep [0] s (.sealed ⟨9, 30, false, none⟩ false) u ∧ u.terminal = some outcome ∧
    (Complete (heldPipe [[97], [10]]).limit (heldPipe [[97], [10]]).stream (heldPipe [[97], [10]]).offers ∨
      outcome.truncated = true) := by
  obtain ⟨s, u, outcome, hrun, hseal, houtcome, _⟩ := drained_run
  have hoffers : (heldPipe [[97], [10]]).offers = [⟨[97], 0⟩] := offers_heldPipe (by decide +kernel)
  refine ⟨s, u, outcome, hrun, hseal, houtcome, (pump_loses_nothing_silently (heldPipe [[97], [10]]) hrun hseal
    houtcome (reply_heldPipe_mem _) (captures_heldPipe hoffers) lineA_complete).2 fun _ hrest => ?_⟩
  exact absurd (by decide +kernel) hrest

theorem closed_pipe_loses_line : ∃ s u outcome, Run (WatchStep [0]) .start drained s ∧
    WatchStep [0] s (.sealed ⟨9, 30, false, none⟩ false) u ∧ u.terminal = some outcome ∧
    (∃ result, .pumped (heldPipe [[97, 10], [98]]).reply result ∈ drained) ∧
    Captures .stdout (heldPipe [[97, 10], [98]]) (.start ⟨0, 0, false⟩ .opened) lineA ∧
    false = ((Capture.Log.start ⟨0, 0, false⟩ .opened).run lineA).writer.truncated ∧
    (heldPipe [[97, 10], [98]]).offers = [⟨[97], 0⟩] ∧
    ¬ Complete (heldPipe [[97, 10], [98]]).limit (heldPipe [[97, 10], [98]]).stream
    (heldPipe [[97, 10], [98]]).offers ∧
    outcome.truncated = false := by
  obtain ⟨s, u, outcome, hrun, hseal, houtcome, htruncated⟩ := drained_run
  have hoffers : (heldPipe [[97, 10], [98]]).offers = [⟨[97], 0⟩] := offers_heldPipe (by decide +kernel)
  exact ⟨s, u, outcome, hrun, hseal, houtcome, reply_heldPipe_mem _, captures_heldPipe hoffers, lineA_complete,
    hoffers, PumpInput.not_complete _ rfl (by decide +kernel), htruncated⟩

end Minicrond.Executor.Outcome
