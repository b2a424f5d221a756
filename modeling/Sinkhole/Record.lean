import Sinkhole.Dns.Answer
import Sinkhole.Dns.RecordType
import Sinkhole.Dns.Status
import Sinkhole.Net
import Sinkhole.Privacy
import Sinkhole.Slot.Table
import Sinkhole.Text
import Sinkhole.Timeline

namespace Sinkhole

/-- `hash` is the hash of the whole name that was asked for. `lastQuery` is zero until the domain is
counted a second time. -/
structure Domain where
  name : PooledText
  hash : UInt32
  count : Int64 := 0
  blocked : Int64 := 0
  lastQuery : UInt64 := 0
  deriving DecidableEq, Repr

namespace Domain

def addBlocked (d : Domain) (n : Int64) : Domain :=
  { d with blocked := d.blocked + n }

def uncount (d : Domain) (wasBlocked : Bool) : Domain :=
  { d with
    count := d.count - 1
    blocked := if wasBlocked then d.blocked - 1 else d.blocked }

/-- Counts a query. The time is noted only for a domain that was known before. -/
def addQuery (d : Domain) (known : Bool) (now : UInt64) : Domain :=
  { d with
    count := d.count + 1
    lastQuery := if known then now else d.lastQuery }

end Domain

/-- `sinceScan` counts queries since the neighbour table last reported the client, and `history` has
one count for each bucket of the time window. `manager` is the alias-client that presents the
client. -/
structure Client where
  address : PooledText
  name : PooledText := {}
  interface : PooledText := {}
  hardware : Option HardwareAddress := none
  count : Int64 := 0
  blocked : Int64 := 0
  sinceScan : Int64 := 0
  history : List Int64
  manager : Option (Handle .client) := none
  isAlias : Bool
  groups : PooledText := {}
  groupsKnown : Bool := false
  groupReads : UInt32 := 0
  unnamed : Bool := true
  firstSeen : UInt64
  lastQuery : UInt64 := 0
  deriving DecidableEq

/-- A change of a client's counts. The change of the history names its bucket. -/
structure CountChange where
  total : Int64 := 0
  blocked : Int64 := 0
  history : Option (Nat × Int64) := none
  deriving DecidableEq, Repr

namespace Client

/-- A bucket that does not exist takes no count. -/
def adjust (c : Client) (δ : CountChange) : Client :=
  { c with
    count := c.count + δ.total
    blocked := c.blocked + δ.blocked
    history := match δ.history with
      | some (bucket, n) => c.history.modify bucket (· + n)
      | none => c.history }

def foldHistory (shift : Nat) (c : Client) : Client :=
  { c with history := Row.fold shift c.history }

/-- Adds the counts of `member`. A bucket that `member` lacks stays as it is. -/
def absorb (c member : Client) : Client :=
  { c with
    count := c.count + member.count
    blocked := c.blocked + member.blocked
    history := List.zipWith (· + ·) c.history member.history
      ++ c.history.drop member.history.length }

/-- Takes the counts of `member` back out. -/
def expel (c member : Client) : Client :=
  { c with
    count := c.count - member.count
    blocked := c.blocked - member.blocked
    history := List.zipWith (· - ·) c.history member.history
      ++ c.history.drop member.history.length }

end Client

/-- `count` is taken to stay below `2 ^ 64`, and `squares` is the sum of the squared distances from
the mean. -/
structure Spread (α : Type) where
  count : Nat := 0
  mean : α
  squares : α
  deriving Repr

namespace Spread

variable {α : Type} [NatCast α] [Add α] [Sub α] [Mul α] [Div α]

/-- The mean moves by a share of the distance to it, and the square of the distance is split between
the old mean and the new one. -/
def add (s : Spread α) (x : α) : Spread α :=
  let count := s.count + 1
  let distance := x - s.mean
  let mean := s.mean + distance / (count : α)
  { count, mean, squares := s.squares + distance * (x - mean) }

/-- The squared distances shared among all values but one. -/
def variance (s : Spread α) : α :=
  s.squares / ((s.count - 1 : Nat) : α)

def empty [Zero α] : Spread α :=
  { mean := 0, squares := 0 }

/-- The spread of a series, in the order in which it came. -/
def ofList [Zero α] (xs : List α) : Spread α :=
  xs.foldl add empty

end Spread

instance natCastFloat : NatCast Float := ⟨Float.ofNat⟩

/-- `number` is the one that the server listens on, and `times` are response times in
milliseconds. -/
structure Forwarder where
  address : PooledText
  number : UInt16
  name : PooledText := {}
  unnamed : Bool := true
  times : Spread Float := ⟨0, 0, 0⟩
  failed : UInt64 := 0
  lastQuery : UInt64 := 0

namespace Forwarder

/-- The sample standard deviation of the response times; a single one has none. -/
def deviation (u : Forwarder) : Float :=
  if u.times.count > 1 then u.times.variance.sqrt else 0

end Forwarder

inductive Verdict where
  | unknown
  | allowed
  | blocked
  deriving DecidableEq, Repr, Inhabited

namespace Verdict

def all : List Verdict :=
  [unknown, allowed, blocked]

def name : Verdict → String
  | unknown => "Unknown"
  | allowed => "Allowed"
  | blocked => "Blocked"

end Verdict

structure Decision where
  domain : Handle .domain
  client : Handle .client
  type : RecordType
  verdict : Verdict := .unknown
  list : Option Int64 := none
  forceReply : Bool := false
  deriving DecidableEq, Repr

namespace Decision

/-- Forgets the verdict, so that the lists are asked again. -/
def forget (d : Decision) : Decision :=
  { d with verdict := .unknown, list := none }

end Decision

/-- A query as it arrives. Without a time it arrives now. -/
structure Arrival where
  id : Int
  domain : String
  client : String
  wire : UInt16
  time : Option UInt64 := none
  status : Status := .unknown
  deriving DecidableEq, Repr

/-- `wire` is the number of the record type, and `privacy` the level in force at the arrival. -/
structure Query where
  id : Int
  time : UInt64
  domain : Handle .domain
  client : Handle .client
  forwarder : Option (Handle .forwarder) := none
  decision : Option (Handle .decision) := none
  status : Status
  cname : Option (Handle .domain) := none
  type : RecordType
  wire : UInt16
  reply : ReplyKind := .unknown
  validation : Validation := .unknown
  responseTime : Option Float := none
  privacy : Privacy

end Sinkhole
