import Minicrond.Time.Zone

/-! Five-field cron schedules and the contract of `cron.Schedule.Next`. -/

namespace Minicrond.Time

open Minicrond.Library

structure CronSpec where
  minute : ℕ
  hour : ℕ
  dom : ℕ
  month : ℕ
  dow : ℕ
deriving DecidableEq, Repr

namespace CronSpec

def starBit : ℕ := 63

def dayMatches (s : CronSpec) (c : Civil) : Bool :=
  if s.dom.testBit starBit || s.dow.testBit starBit then
    s.dom.testBit c.day.toNat && s.dow.testBit c.weekday.toNat
  else s.dom.testBit c.day.toNat || s.dow.testBit c.weekday.toNat

def matchesAt (s : CronSpec) (w : ℤ) : Bool :=
  let c := civil w
  s.month.testBit c.month.toNat && s.dayMatches c && s.hour.testBit c.hour.toNat && s.minute.testBit c.minute.toNat

def Matching (s : CronSpec) (Z : Zone) (t : ℤ) : Prop := Time.minute ∣ Z.wall t ∧ s.matchesAt (Z.wall t) = true

instance (s : CronSpec) (Z : Zone) (t : ℤ) : Decidable (s.Matching Z t) :=
  inferInstanceAs (Decidable (_ ∧ _))

end CronSpec

structure CronSchedule where
  next : Zone → ℤ → Option ℤ

namespace CronSchedule

def Advances (c : CronSchedule) : Prop := ∀ Z t u, c.next Z t = some u → t < u ∧ second ∣ u

def Implements (c : CronSchedule) (s : CronSpec) : Prop :=
  ∀ Z t u, c.next Z t = some u ↔ LeastAfter {u | s.Matching Z u} t u

variable {c : CronSchedule} {s : CronSpec}

lemma Implements.advances (h : c.Implements s) : c.Advances := by
  intro Z t u hu
  have hl := (h Z t u).mp hu
  exact ⟨hl.lt, Zone.second_dvd_of_wall hl.mem.1⟩

lemma Implements.none (h : c.Implements s) {Z : Zone} {t : ℤ} (hn : c.next Z t = none) :
    ∀ u, s.Matching Z u → u ≤ t := by
  intro u hu
  by_contra hlt
  obtain ⟨y, hy, _⟩ := LeastAfter.exists_of_mem (S := {u | s.Matching Z u}) hu (lt_of_not_ge hlt)
  simp [(h Z t y).mpr hy] at hn

lemma Implements.next_eq (h : c.Implements s) {Z : Zone} (hz : Z.WholeMinutes) {t a : ℤ} {n : ℕ}
    (hl : (a - 1) * minute ≤ t) (hu : t < (a + n) * minute)
    (hn : ∀ k < n, s.matchesAt (Z.wall ((a + k) * minute)) = false)
    (hm : s.matchesAt (Z.wall ((a + n) * minute)) = true) : c.next Z t = some ((a + n) * minute) := by
  have halign : ∀ u, minute ∣ Z.wall u ↔ minute ∣ u := fun u => Int.dvd_add_left (hz u)
  rw [h Z t]
  refine ⟨⟨⟨(halign _).mpr (Dvd.intro_left _ rfl), hm⟩, hu⟩, ?_⟩
  rintro u ⟨⟨hdvd, hmatch⟩, htu⟩
  obtain ⟨k, hk⟩ := (halign u).mp hdvd
  by_contra hlt
  have hk' : u = (a + (k - a).toNat) * minute := by
    simp only [minute] at *
    omega
  have := hn (k - a).toNat (by simp only [minute] at *; omega)
  rw [hk', this] at hmatch
  simp at hmatch

end CronSchedule

open Classical in
noncomputable def CronSpec.schedule (s : CronSpec) : CronSchedule where
  next Z t := if h : ∃ u, LeastAfter {u | s.Matching Z u} t u then some h.choose else none

lemma CronSpec.schedule_implements (s : CronSpec) : s.schedule.Implements s := by
  intro Z t u
  simp only [CronSpec.schedule]
  split_ifs with h
  · rw [Option.some.injEq]
    exact ⟨fun he => he ▸ h.choose_spec, fun hu => h.choose_spec.unique hu⟩
  · simp only [false_iff]
    exact fun hu => h ⟨u, hu⟩

end Minicrond.Time
