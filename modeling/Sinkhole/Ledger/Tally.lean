import Sinkhole.Dns.Answer
import Sinkhole.Dns.RecordType
import Sinkhole.Dns.Status

namespace Sinkhole

inductive CountedTable where
  | gravity
  | groups
  | clients
  | adlists
  | bulklists
  | allowedDomains
  | deniedDomains
  deriving DecidableEq, Repr

namespace CountedTable

def all : List CountedTable :=
  [gravity, groups, clients, adlists, bulklists, allowedDomains, deniedDomains]

def name : CountedTable → String
  | gravity => "Gravity"
  | groups => "Groups"
  | clients => "Clients"
  | adlists => "Adlists"
  | bulklists => "Bulklists"
  | allowedDomains => "AllowedDomains"
  | deniedDomains => "DeniedDomains"

end CountedTable

/-- Row counts of the list database, as of the last reload that could count them. -/
structure ListCounts where
  gravity : Int64 := 0
  groups : Int64 := 0
  clients : Int64 := 0
  lists : Int64 := 0
  bulklists : Int64 := 0
  allowedDomains : Int64 := 0
  deniedDomains : Int64 := 0
  deriving DecidableEq, Repr, Inhabited

namespace ListCounts

def get (c : ListCounts) : CountedTable → Int64
  | .gravity => c.gravity
  | .groups => c.groups
  | .clients => c.clients
  | .adlists => c.lists
  | .bulklists => c.bulklists
  | .allowedDomains => c.allowedDomains
  | .deniedDomains => c.deniedDomains

def set (c : ListCounts) (table : CountedTable) (n : Int64) : ListCounts :=
  match table with
  | .gravity => { c with gravity := n }
  | .groups => { c with groups := n }
  | .clients => { c with clients := n }
  | .adlists => { c with lists := n }
  | .bulklists => { c with bulklists := n }
  | .allowedDomains => { c with allowedDomains := n }
  | .deniedDomains => { c with deniedDomains := n }

theorem get_set (c : ListCounts) (t u : CountedTable) (n : Int64) :
    (c.set t n).get u = if u = t then n else c.get u := by
  cases t <;> cases u <;> simp [get, set]

end ListCounts

structure Tally where
  statuses : Vector Int64 18 := Vector.replicate 18 0
  types : Vector Int64 16 := Vector.replicate 16 0
  replies : Vector Int64 14 := Vector.replicate 14 0
  lists : ListCounts := {}
  deriving DecidableEq, Repr

namespace Tally

def ofStatus (t : Tally) (s : Status) : Int64 :=
  t.statuses[s.code]

def ofType (t : Tally) (r : RecordType) : Int64 :=
  t.types[r.position]

def ofReply (t : Tally) (r : ReplyKind) : Int64 :=
  t.replies[r.position]

/-- The queries whose status is in a class. -/
def countWhere (t : Tally) (inClass : Status → Bool) : Int64 :=
  ((Status.all.filter inClass).map t.ofStatus).sum

/-- The queries with any status at all, that is, every recorded query. -/
def total (t : Tally) : Int64 :=
  t.statuses.toList.sum

def blocked (t : Tally) : Int64 :=
  t.countWhere Status.isBlocked

def cached (t : Tally) : Int64 :=
  t.countWhere Status.isCached

def forwarded (t : Tally) : Int64 :=
  t.countWhere Status.isForwarded

def addStatus (t : Tally) (s : Status) (n : Int64) : Tally :=
  { t with statuses := t.statuses.set s.code (t.ofStatus s + n) }

def addType (t : Tally) (r : RecordType) (n : Int64) : Tally :=
  { t with types := t.types.set r.position (t.ofType r + n) }

def addReply (t : Tally) (r : ReplyKind) (n : Int64) : Tally :=
  { t with replies := t.replies.set r.position (t.ofReply r + n) }

theorem ofStatus_addStatus (t : Tally) (s u : Status) (n : Int64) :
    (t.addStatus s n).ofStatus u = if s = u then t.ofStatus u + n else t.ofStatus u := by
  simp only [ofStatus, addStatus, Fin.getElem_fin, Vector.getElem_set, Fin.val_inj,
    Status.code_inj]
  split
  · rename_i h
    rw [h]
  · rfl

theorem ofType_addType (t : Tally) (r u : RecordType) (n : Int64) :
    (t.addType r n).ofType u = if r = u then t.ofType u + n else t.ofType u := by
  simp only [ofType, addType, Fin.getElem_fin, Vector.getElem_set, Fin.val_inj,
    RecordType.position_inj]
  split
  · rename_i h
    rw [h]
  · rfl

theorem ofReply_addReply (t : Tally) (r u : ReplyKind) (n : Int64) :
    (t.addReply r n).ofReply u = if r = u then t.ofReply u + n else t.ofReply u := by
  simp only [ofReply, addReply, Fin.getElem_fin, Vector.getElem_set, Fin.val_inj,
    ReplyKind.position_inj]
  split
  · rename_i h
    rw [h]
  · rfl

end Tally

end Sinkhole
