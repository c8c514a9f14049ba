import Minicrond.Time.Zone

/-! The searches of the scheduler around the transitions of a zone: the repeated copy of a
backward fold, and the next forward gap. -/

namespace Minicrond.Scheduler

open Minicrond.Library Minicrond.Time

def secondFoldEnd (Z : Zone) (t : ℤ) : Option ℤ :=
  match Z.start t with
  | none => none
  | some start =>
    if Z.offset (start - second) ≤ Z.offset t then none
    else
      let foldEnd := start + (Z.offset (start - second) - Z.offset t) * second
      if t < foldEnd then some foldEnd else none

lemma secondFoldEnd_eq_some {Z : Zone} {t e : ℤ} :
    secondFoldEnd Z t = some e ↔ ∃ s, Z.start t = some s ∧ e = s + Z.drop s ∧ t < e := by
  simp only [secondFoldEnd]
  cases hs : Z.start t with
  | none => simp
  | some s =>
    have hle := StepFunction.start_le hs
    have hval := StepFunction.value_start hs
    have hprior := Zone.value_before (StepFunction.start_mem hs)
    have h1 := Zone.value_eq Z t
    have h2 := Zone.value_eq Z (s - second)
    simp only [Option.some.injEq, exists_eq_left', StepFunction.drop]
    split_ifs with hp hlt
    · simp only [false_iff, not_and, not_lt]
      simp only [second] at *
      omega
    · simp only [Option.some.injEq]
      simp only [second] at *
      omega
    · simp only [false_iff, not_and, not_lt]
      simp only [second] at *
      omega

lemma secondFoldEnd_isSome {Z : Zone} {t : ℤ} : (∃ e, secondFoldEnd Z t = some e) ↔ Z.Repeated t := by
  constructor
  · rintro ⟨e, he⟩
    obtain ⟨s, hs, rfl, hlt⟩ := secondFoldEnd_eq_some.mp he
    exact ⟨s, hs, hlt⟩
  · rintro ⟨s, hs, hlt⟩
    exact ⟨_, secondFoldEnd_eq_some.mpr ⟨s, hs, rfl, hlt⟩⟩

lemma secondFoldEnd_eq_none {Z : Zone} {t : ℤ} : secondFoldEnd Z t = none ↔ ¬ Z.Repeated t := by
  rw [← secondFoldEnd_isSome, not_exists]
  cases secondFoldEnd Z t <;> simp

def sameWallMinute (Z : Zone) (a b : ℤ) : Bool :=
  let v := civil (Z.wall a)
  let w := civil (Z.wall b)
  v.year == w.year && v.month == w.month && v.day == w.day && v.hour == w.hour && v.minute == w.minute

lemma sameWallMinute_iff {Z : Zone} {a b : ℤ} :
    sameWallMinute Z a b = true ↔ Z.wall a / minute = Z.wall b / minute := by
  rw [← same_minute_iff]
  simp [sameWallMinute, and_assoc]

def forwardLoop (Z : Zone) (finish cursor previous : ℤ) : Option (ℤ × ℤ × ℤ) :=
  if cursor < finish then
    match Z.stop cursor with
    | none => none
    | some next =>
      if finish < next ∨ ¬ cursor < next then none
      else if previous < Z.offset next then some (next, previous, Z.offset next)
      else forwardLoop Z finish next (Z.offset next)
  else none
termination_by (finish - cursor).toNat
decreasing_by omega

def forwardTransition (Z : Zone) (start finish : ℤ) : Option (ℤ × ℤ × ℤ) :=
  if finish ≤ start then none else forwardLoop Z finish start (Z.offset start)

def ForwardResult (Z : Zone) (start finish : ℤ) : Option (ℤ × ℤ × ℤ) → Prop
  | none => ∀ e, Z.Forward e → start < e → finish < e
  | some (e, old, new) =>
    Z.FirstForward start e ∧ e ≤ finish ∧ Z.prior e = old * second ∧ Z.value e = new * second

lemma ForwardResult.step {Z : Zone} {start finish next : ℤ} {r : Option (ℤ × ℤ × ℤ)}
    (hs : Z.stop start = some next) (hback : ¬ Z.Forward next) (h : ForwardResult Z next finish r) :
    ForwardResult Z start finish r := by
  have hskip : ∀ e, Z.Forward e → start < e → next < e := by
    intro e he hlt
    rcases (StepFunction.stop_le hs he.1 hlt).lt_or_eq with hne | rfl
    · exact hne
    · exact (hback he).elim
  match r with
  | none => exact fun e he hlt => h e he (hskip e he hlt)
  | some (e, old, new) =>
    obtain ⟨hf, hrest⟩ := h
    exact ⟨hf.retreat (StepFunction.lt_stop hs).le hskip, hrest⟩

lemma forwardLoop_spec (Z : Zone) (finish cursor : ℤ) :
    ForwardResult Z cursor finish (forwardLoop Z finish cursor (Z.offset cursor)) := by
  induction hn : (finish - cursor).toNat using Nat.strong_induction_on generalizing cursor with
  | _ n ih =>
    rw [forwardLoop]
    split_ifs with hc
    · cases hs : Z.stop cursor with
      | none =>
        intro e he hlt
        have := StepFunction.stop_eq_none hs he.1
        omega
      | some next =>
        have hlt := StepFunction.lt_stop hs
        have hprior := StepFunction.value_of_stop hs
        have h1 := Zone.value_eq Z cursor
        have h2 := Zone.value_eq Z next
        dsimp only
        split_ifs with hout hup
        · intro e he h
          have := StepFunction.stop_le hs he.1 h
          omega
        · refine ⟨⟨⟨⟨StepFunction.stop_mem hs, ?_⟩, hlt⟩, fun e he => StepFunction.stop_le hs he.1.1 he.2⟩,
            by omega, by omega, h2⟩
          simp only [second] at *
          omega
        · refine ForwardResult.step hs ?_ (ih _ (by omega) next rfl)
          rintro ⟨_, hf⟩
          simp only [second] at *
          omega
    · intro e _ h
      omega

lemma forwardTransition_spec (Z : Zone) (start finish : ℤ) :
    ForwardResult Z start finish (forwardTransition Z start finish) := by
  simp only [forwardTransition]
  split_ifs with hle
  · intro e _ hlt
    omega
  · exact forwardLoop_spec Z finish start

end Minicrond.Scheduler
