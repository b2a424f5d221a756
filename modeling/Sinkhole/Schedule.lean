import Sinkhole.Settings
import Sinkhole.Store.Reload

namespace Sinkhole

structure Schedule where
  seconds : Nat := 3600
  enabled : Bool := true
  atStart : Bool := true
  deriving DecidableEq, Repr

/-- What a schedule has done. `ended` says that it stopped by itself, and `lastSuccess` is the tick
of the last reload that succeeded, in milliseconds. -/
structure ScheduleReport where
  ended : Bool
  attempts : Nat := 0
  lastSuccess : Option Nat := none
  deriving DecidableEq, Repr

namespace Schedule

open StoreM

/-- An interval of no length turns reloads off. -/
def ofSettings (s : Settings) : Schedule where
  seconds := s.reloadSeconds
  enabled := s.reloadSeconds > 0
  atStart := s.reloadAtStart

/-- The ticks from `tick` up to a deadline, `interval + 1` apart, in milliseconds. -/
def ticksFrom (interval deadline tick : Nat) : List Nat :=
  if tick ≤ deadline then tick :: ticksFrom interval deadline (tick + interval + 1) else []
termination_by deadline + 1 - tick

def ticks (s : Schedule) (deadline : Nat) : List Nat :=
  ticksFrom (1000 * s.seconds - 1) deadline 0

def reloadTicks (s : Schedule) (deadline : Nat) : List Nat :=
  if s.atStart then s.ticks deadline else (s.ticks deadline).drop 1

/-- Reloads the lists at a tick, from the source that they have at this attempt. -/
def attempt (source : Nat → ListSource) (report : ScheduleReport) (tick : Nat) :
    StoreM ScheduleReport := do
  let report' := { report with attempts := report.attempts + 1 }
  match ← (Store.refresh (source report.attempts)).run with
  | .ok r =>
    notify (.scheduledDone r.counts.gravity r.forgotten r.duration)
    return { report' with lastSuccess := some tick }
  | .error fault =>
    notify (.scheduledFailed fault)
    return report'

/-- Runs a schedule up to a deadline. The source may differ from one attempt to the next. The loop
has no exit, since a reload that fails is only noted: a schedule that is on never ends. -/
def run (s : Schedule) (source : Nat → ListSource) (deadline : Nat) : StoreM ScheduleReport := do
  if s.enabled then
    notify (.scheduleOn s.seconds)
    (s.reloadTicks deadline).foldlM (attempt source) { ended := false }
  else
    notify .scheduleOff
    return { ended := true }

end Schedule

end Sinkhole
