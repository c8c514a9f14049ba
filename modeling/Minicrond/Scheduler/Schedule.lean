import Minicrond.Time.Cron
import Minicrond.Scheduler.Transitions

/-! Compiled schedules: the next fire of a cron or `@every` schedule, and the occurrences that
elapsed while no scheduler ran. -/

namespace Minicrond.Scheduler

open Minicrond.Library Minicrond.Time

inductive ScheduleError
  | intervalRange (raw : String)
  | noAdvance (raw : String)
  | noFuture (raw : String)
  | crowded (raw : String) (window : ℤ)
  | cancelled
  | outOfFuel
deriving DecidableEq, Repr

structure CompiledSchedule where
  raw : String
  interval : ℤ
  loc : Zone
  cron : CronSchedule

namespace CompiledSchedule

variable (c : CompiledSchedule)

def nextEvery (after anchor : ℤ) : Except ScheduleError ℤ :=
  if after < anchor then .ok (anchor + c.interval)
  else
    let periods := sub after anchor / c.interval
    if maxInt64 / c.interval ≤ periods then .error (.intervalRange c.raw)
    else
      let candidate := anchor + wrap ((periods + 1) * c.interval)
      if after < candidate then .ok candidate else .error (.noAdvance c.raw)

def skipFolds : ℕ → ℤ → Except ScheduleError ℤ
  | 0, candidate => .ok candidate
  | n + 1, candidate =>
    match secondFoldEnd c.loc candidate with
    | none => .ok candidate
    | some foldEnd =>
      match c.cron.next c.loc (foldEnd - second) with
      | none => .error (.noFuture c.raw)
      | some candidate => skipFolds n candidate

def firesInGap (transition oldOffset newOffset : ℤ) : Bool :=
  let gapStart := truncateMinute transition
  let gapEnd := gapStart + (newOffset - oldOffset) * second
  match c.cron.next (Zone.fixed oldOffset) (gapStart - minute) with
  | none => false
  | some firstInGap => firstInGap < gapEnd

def coalesceGap (after candidate : ℤ) : ℤ :=
  match forwardTransition c.loc after candidate with
  | none => candidate
  | some (transition, oldOffset, newOffset) =>
    if c.firesInGap transition oldOffset newOffset then transition else candidate

def searchFrom (after : ℤ) : ℤ :=
  match secondFoldEnd c.loc after with
  | none => after
  | some foldEnd => foldEnd - second

def nextCron (after : ℤ) : Except ScheduleError ℤ :=
  match c.cron.next c.loc (c.searchFrom after) with
  | none => .error (.noFuture c.raw)
  | some candidate =>
    match c.skipFolds 4 candidate with
    | .error e => .error e
    | .ok candidate => .ok (c.coalesceGap after candidate)

def nextFire (after anchor : ℤ) : Except ScheduleError ℤ :=
  if 0 < c.interval then c.nextEvery after anchor else c.nextCron after

def nextFireDistinct (after anchor : ℤ) (last : Option ℤ) : Except ScheduleError ℤ :=
  match c.nextFire after anchor with
  | .error e => .error e
  | .ok candidate =>
    match last with
    | none => .ok candidate
    | some l =>
      if 0 < c.interval then .ok candidate
      else if sameWallMinute c.loc l candidate then c.nextFire candidate anchor
      else .ok candidate

end CompiledSchedule

def maxCatchUpCount : ℕ := 100000
def maxCatchUpWindow : ℕ := 100000

structure OverdueFires where
  first : ℤ
  latest : ℤ
  count : ℕ
  exact : Bool
deriving DecidableEq, Repr

def OverdueFires.empty : OverdueFires := ⟨0, 0, 0, false⟩

/-- What `ctx.Err()` answers at each check of one catch-up calculation: the check of a window
after some steps, and the check while counting. -/
structure CatchUpContext where
  window : ℤ → ℕ → Bool
  counting : ℕ → Bool

def CatchUpContext.background : CatchUpContext := ⟨fun _ _ => false, fun _ => false⟩

namespace CompiledSchedule

variable (c : CompiledSchedule) (ctx : CatchUpContext) (anchor : ℤ) (last : Option ℤ) (now : ℤ)

def scanWindow (window : ℤ) : ℕ → ℤ → Option ℤ → Except ScheduleError (Option ℤ)
  | 0, _, _ => .error (.crowded c.raw window)
  | left + 1, cursor, best =>
    let steps := maxCatchUpWindow - (left + 1)
    if steps % 4096 = 4095 ∧ ctx.window window steps then .error .cancelled
    else
      match c.nextFireDistinct cursor anchor last with
      | .error e => .error e
      | .ok next => if now < next then .ok best else scanWindow window left next (some next)

def reachesFirst (first window : ℤ) : Bool := sub now first ≤ window || maxInt64 / 8 < window

def windowStart (first window : ℤ) : ℤ := if reachesFirst now first window then first else now - window

def latestLoop (first : ℤ) : ℕ → ℤ → Except ScheduleError ℤ
  | 0, _ => .error .outOfFuel
  | fuel + 1, window =>
    let best := if reachesFirst now first window then some first else none
    match c.scanWindow ctx anchor last now window maxCatchUpWindow (windowStart now first window) best with
    | .error e => .error e
    | .ok (some best) => .ok best
    | .ok none => latestLoop first fuel (wrap (window * 8))

def latestFire (first : ℤ) : Except ScheduleError ℤ := c.latestLoop ctx anchor last now first 8 hour

def countLoop (latest : ℤ) : ℕ → ℕ → ℤ → Except ScheduleError (ℕ × Bool)
  | 0, count, cursor => .ok (count, decide (now < cursor))
  | left + 1, count, cursor =>
    if now < cursor then .ok (count, true)
    else if count % 4096 = 0 ∧ ctx.counting count then .error .cancelled
    else if cursor = latest then .ok (count + 1, true)
    else
      match c.nextFireDistinct cursor anchor last with
      | .error e => .error e
      | .ok cursor => countLoop latest left (count + 1) cursor

def overdueEvery (first : ℤ) : OverdueFires :=
  let steps := sub now first / c.interval
  { first := first
    latest := first + wrap (steps * c.interval)
    count := if maxInt64 ≤ steps then maxInt64.toNat else steps.toNat + 1
    exact := true }

def overdueCron (first : ℤ) (wantCount : Bool) : Except ScheduleError OverdueFires :=
  match c.latestFire ctx anchor last now first with
  | .error e => .error e
  | .ok latest =>
    if latest = first then .ok ⟨first, latest, 1, true⟩
    else if !wantCount then .ok ⟨first, latest, 2, false⟩
    else
      match c.countLoop ctx anchor last now latest maxCatchUpCount 0 first with
      | .error e => .error e
      | .ok (count, exact) => .ok ⟨first, latest, count, exact⟩

def overdue (wantCount : Bool) : Except ScheduleError OverdueFires :=
  match c.nextFireDistinct (last.getD anchor) anchor last with
  | .error e => .error e
  | .ok first =>
    if now ≤ first then .ok .empty
    else if 0 < c.interval then .ok (c.overdueEvery now first)
    else c.overdueCron ctx anchor last now first wantCount

end CompiledSchedule

end Minicrond.Scheduler
