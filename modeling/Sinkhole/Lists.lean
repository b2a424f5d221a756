import Sinkhole.Ledger.Tally
import Sinkhole.Notice

namespace Sinkhole

/-- An answer, with what was logged while it was found. -/
structure Reading (α : Type) where
  result : Except ListFault α
  notices : List Notice := []

/-- `clock` is the time at which the source is open, for a source that takes time to open. -/
structure ListSource where
  opening : Reading Unit
  clock : Option UInt64 := none
  count : CountedTable → Reading Int64
  filters : Reading Nat
  inaccessible : Reading Nat

structure Adlist where
  enabled : Option Int
  status : Option Int
  deriving DecidableEq, Repr

structure DomainRule where
  type : Option Int
  enabled : Option Int
  deriving DecidableEq, Repr

/-- The number of rows of a table, or the rows that matter, if the table exists. -/
structure ListDatabase where
  gravity : Option Nat := none
  groups : Option Nat := none
  clients : Option Nat := none
  bulklists : Option Nat := none
  adlists : Option (List Adlist) := none
  rules : Option (List DomainRule) := none
  deriving Repr

namespace ListDatabase

/-- The status of a list that could not be downloaded and has no cached copy. -/
def unavailable : Int := 4

def orMissing (name : String) : Option Nat → Except ListFault Int64
  | some n => .ok (Int64.ofNat n)
  | none => .error (.noSuchTable name)

def countRules (db : ListDatabase) (p : DomainRule → Bool) : Except ListFault Int64 :=
  orMissing "domainlist" (db.rules.map fun rules => (rules.filter p).length)

def hasType (types : List Int) (rule : DomainRule) : Bool :=
  rule.type.any types.contains

def count (db : ListDatabase) : CountedTable → Except ListFault Int64
  | .gravity => orMissing "gravity" db.gravity
  | .groups => orMissing "group" db.groups
  | .clients => orMissing "client" db.clients
  | .adlists => orMissing "adlist" (db.adlists.map (·.length))
  | .bulklists => orMissing "bulklist" db.bulklists
  | .allowedDomains => db.countRules (hasType [0, 2])
  | .deniedDomains => db.countRules (hasType [1, 3])

def filters (db : ListDatabase) : Reading Nat :=
  match db.countRules fun rule => hasType [2, 3] rule && rule.enabled == some 1 with
  | .ok n => ⟨.ok n.toNatClampNeg, [.filtersLoaded n]⟩
  | .error fault => ⟨.error fault, []⟩

/-- The enabled lists that could not be downloaded. -/
def inaccessible (db : ListDatabase) : Reading Nat :=
  match orMissing "adlist" (db.adlists.map fun lists =>
      (lists.filter fun l => l.enabled == some 1 && l.status == some unavailable).length) with
  | .ok n => ⟨.ok n.toNatClampNeg, if n > 0 then [.listsInaccessible n] else []⟩
  | .error fault => ⟨.error fault, []⟩

def source : Option ListDatabase → ListSource
  | some db =>
    { opening := ⟨.ok (), [.listsOpened]⟩
      count := fun table => ⟨db.count table, []⟩
      filters := db.filters
      inaccessible := db.inaccessible }
  | none =>
    { opening := ⟨.error .cannotOpen, []⟩
      count := fun _ => ⟨.error .cannotOpen, []⟩
      filters := ⟨.error .cannotOpen, []⟩
      inaccessible := ⟨.error .cannotOpen, []⟩ }

end ListDatabase

end Sinkhole
