import Sinkhole.Lists
import Sinkhole.Store.Enrolment

namespace Sinkhole

structure ReloadReport where
  counts : ListCounts
  filters : Nat
  inaccessible : Nat
  forgotten : Nat
  duration : UInt64
  time : UInt64
  deriving DecidableEq, Repr

namespace Store

open StoreM Attempt

/-- The new count of a table, or the old one if it cannot be counted. -/
def takeCount (lists : ListSource) (counts : ListCounts) (table : CountedTable) :
    StoreM ListCounts := do
  match ← (consult (lists.count table)).run with
  | .ok n => return counts.set table n
  | .error fault =>
    notify (.countKept table fault)
    return counts

/-- A number from a source, or zero with a notice. -/
def orZero (r : Reading Nat) (failed : Fault → Notice) : StoreM Nat := do
  match ← (consult r).run with
  | .ok n => return n
  | .error fault =>
    notify (failed fault)
    return 0

def await (lists : ListSource) : StoreM Unit :=
  modify fun s => { s with now := lists.clock.getD s.now }

/-- Asks an open source for everything. -/
def takeOver (lists : ListSource) (start : UInt64) : StoreM ReloadReport := do
  let counts ← CountedTable.all.foldlM (takeCount lists) (← get).ledger.tally.lists
  modify fun s => { s with ledger := s.ledger.setLists counts }
  let forgotten ← forgetDecisions
  let filters ← orZero lists.filters .filtersFailed
  let inaccessible ← orZero lists.inaccessible .listCheckFailed
  let time := (← get).now
  notify (.reloaded counts filters forgotten)
  return { counts, filters, inaccessible, forgotten, duration := satSub time start, time }

/-- Reloads the lists. Where the source cannot be opened, nothing is reloaded. -/
def reload (lists : ListSource) : Attempt ReloadReport := do
  let start := (← get).now
  await lists
  try
    consult lists.opening
  catch fault =>
    notify (.reloadSkipped fault)
    throw fault
  takeOver lists start

/-- Reloads the lists on request, and logs how long it took. -/
def refresh (lists : ListSource) : Attempt ReloadReport := do
  let report ← reload lists
  notify (.refreshed report.duration report.filters)
  return report

end Store

end Sinkhole
