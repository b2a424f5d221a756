import Sinkhole.Dns.Status
import Sinkhole.Ledger.Tally
import Sinkhole.Timeline

namespace Sinkhole

structure Bucket where
  total : Int64 := 0
  blocked : Int64 := 0
  cached : Int64 := 0
  forwarded : Int64 := 0
  deriving DecidableEq, Repr, Inhabited

namespace Bucket

instance : Zero Bucket := ⟨{}⟩

instance : Add Bucket where
  add a b :=
    { total := a.total + b.total
      blocked := a.blocked + b.blocked
      cached := a.cached + b.cached
      forwarded := a.forwarded + b.forwarded }

/-- `n` more queries in each class that a status belongs to. -/
def addStatus (b : Bucket) (s : Status) (n : Int64) : Bucket :=
  { b with
    blocked := if s.isBlocked then b.blocked + n else b.blocked
    cached := if s.isCached then b.cached + n else b.cached
    forwarded := if s.isForwarded then b.forwarded + n else b.forwarded }

def addTotal (b : Bucket) (n : Int64) : Bucket :=
  { b with total := b.total + n }

end Bucket

/-- There is one bucket for each place of the window. -/
structure Ledger where
  tally : Tally := {}
  window : Window
  buckets : List Bucket
  length_buckets : buckets.length = window.length

namespace Ledger

def empty (window : Window) : Ledger where
  window := window
  buckets := List.replicate window.length 0
  length_buckets := by simp

def modifyBucket (l : Ledger) (bucket : Nat) (f : Bucket → Bucket) : Ledger :=
  { l with
    buckets := l.buckets.modify bucket f
    length_buckets := by simp [l.length_buckets] }

/-- Books `n` queries more with a status, in the tally and in their bucket. -/
def bookStatus (l : Ledger) (s : Status) (bucket : Nat) (n : Int64) : Ledger :=
  { l.modifyBucket bucket (·.addStatus s n) with tally := l.tally.addStatus s n }

/-- Books one query from an old status to a new one. A query without an old status is counted for
the first time. -/
def reclassify (l : Ledger) (old : Option Status) (new : Status) (bucket : Nat) : Ledger :=
  let l := match old with
    | some s => l.bookStatus s bucket (-1)
    | none => l
  l.bookStatus new bucket 1

def dropStatus (l : Ledger) (s : Status) (bucket : Nat) : Ledger :=
  l.bookStatus s bucket (-1)

def addTotal (l : Ledger) (bucket : Nat) (n : Int64) : Ledger :=
  l.modifyBucket bucket (·.addTotal n)

def addType (l : Ledger) (t : RecordType) (n : Int64) : Ledger :=
  { l with tally := l.tally.addType t n }

def replaceReply (l : Ledger) (old : Option ReplyKind) (new : ReplyKind) : Ledger :=
  let tally := match old with
    | some r => l.tally.addReply r (-1)
    | none => l.tally
  { l with tally := tally.addReply new 1 }

def dropReply (l : Ledger) (r : ReplyKind) : Ledger :=
  { l with tally := l.tally.addReply r (-1) }

def setLists (l : Ledger) (counts : ListCounts) : Ledger :=
  { l with tally := { l.tally with lists := counts } }

/-- The ledger after its window moved for an instant. What leaves the window is added to its first
bucket, where earlier instants count. -/
def slideTo (l : Ledger) (now : UInt64) : Ledger :=
  let shift := l.window.shiftTo now
  if shift = 0 then l
  else
    { l with
      window := l.window.slideTo now
      buckets := Row.fold shift l.buckets
      length_buckets := by simp [Row.length_fold, l.length_buckets] }

/-- Each bucket with the second at which it starts. -/
def history (l : Ledger) : List (UInt64 × Bucket) :=
  l.window.starts.zip l.buckets

end Ledger

end Sinkhole
