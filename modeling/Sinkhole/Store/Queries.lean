import Sinkhole.Store.Clients
import Sinkhole.Store.Enrolment

namespace Sinkhole.Store

open StoreM Attempt

/-- How the number of blocked queries changes when one gets a new status. -/
def blockedChange (old : Option Status) (new : Status) : Int64 :=
  match old.any Status.isBlocked, new.isBlocked with
  | false, true => 1
  | true, false => -1
  | _, _ => 0

/-- Counts one blocked query more or less for a domain and a client. -/
def shiftBlocked (domain : Handle .domain) (client : Handle .client) (n : Int64) : StoreM Unit := do
  unless n = 0 do
    modify fun s => { s with domains := s.domains.modify domain (·.addBlocked n) }
    discard (adjustClient client { blocked := n })

/-- Gives a query a status. With `first` it is counted without being taken from the status it had;
otherwise the status it has changes nothing. Says whether the query is known. -/
def reclassify (query : Handle .query) (new : Status) (first : Bool) : StoreM Bool := do
  let s ← get
  let trace := s.settings.traceStatus
  match s.queries.get? query with
  | none => return false
  | some q =>
    if q.status = new && !first then
      notifyIf trace (.statusKept q.id new)
      return true
    let old := if first then none else some q.status
    modify fun s => { s with
      ledger := s.ledger.reclassify old new (s.bucketOf q.time)
      queries := s.queries.modify query ({ · with status := new }) }
    notifyIf trace (old.elim (.statusFirst q.id new) (.statusChanged q.id · new))
    shiftBlocked q.domain q.client (blockedChange old new)
    return true

/-- Gives a query the status with a code, unless there is none. -/
def reclassifyCode (query : Handle .query) (code : Nat) (first : Bool) : StoreM Bool := do
  match Status.ofCode? code with
  | some new => reclassify query new first
  | none =>
    notify (.statusRefused query code)
    return false

def noteReply (query : Handle .query) (reply : ReplyKind) : StoreM Bool := do
  match (← get).queries.get? query with
  | none => return false
  | some q =>
    unless q.reply = reply do
      modify fun s => { s with
        ledger := s.ledger.replaceReply (some q.reply) reply
        queries := s.queries.modify query ({ · with reply }) }
    return true

/-- Moves the history until its last bucket holds `now`, and says by how many buckets. -/
def slideTo (now : UInt64) : StoreM Nat := do
  let shift := (← get).ledger.window.shiftTo now
  unless shift = 0 do
    modify fun s => { s with
      ledger := s.ledger.slideTo now
      clients := s.clients.mapLive (Client.foldHistory shift) }
    notify (.windowMoved shift)
  return shift

/-- The record of a query that arrived at a time. -/
def queryOf (s : Store) (new : Arrival) (time : UInt64) (domain : Handle .domain)
    (client : Handle .client) : Query :=
  { id := new.id
    time
    domain
    client
    status := new.status
    type := RecordType.ofWire new.wire
    wire := new.wire
    privacy := s.privacy }

/-- Books a query that has just been recorded, in the ledger and for its client. -/
def countArrival (client : Handle .client) (type : RecordType) (time : UInt64) (added : Bool) :
    StoreM Unit := do
  let bucket := (← get).bucketOf time
  modify fun s => { s with
    ledger := ((s.ledger.addTotal bucket 1).addType type 1).replaceReply none .unknown }
  discard (adjustClient client { total := 1, history := some (bucket, 1) })
  modify fun s => { s with
    clients := s.clients.modify client fun c =>
      { c with
        lastQuery := time
        sinceScan := if added then 1 else c.sinceScan } }

/-- Records a query. Its client and its domain are found or added before anything is counted, so a
refused query is not counted anywhere. -/
def recordQuery (new : Arrival) : Attempt (Handle .query) := do
  let s ← get
  unless s.queries.hasRoom do
    notify (.tableFull s.queries.full)
    throw (.ofFullTable s.queries.full)
  let time := new.time.getD s.now
  let (client, newClient) ← clientFor new.client
  let (domain, newDomain) ← domainFor new.domain
  let s ← get
  let h ← ofTable (fun t s => { s with queries := t })
    (s.queries.push (s.queryOf new time domain client))
  discard (slideTo time)
  countDomain domain newDomain
  countArrival client (RecordType.ofWire new.wire) time newClient
  discard (reclassify h new.status true)
  return h

/-- The latest query with an id, among the last ones recorded. -/
def correlate? (s : Store) (id : Int) : Option (Handle .query) :=
  s.queries.findRecent? s.settings.lookback (·.id == id)

def modifyQuery (query : Handle .query) (f : Query → Query) : StoreM Bool := do
  let known := (← get).queries.contains query
  modify fun s => { s with queries := s.queries.modify query f }
  return known

def attachForwarder (query : Handle .query) (forwarder : Handle .forwarder) : StoreM Bool := do
  let s ← get
  if s.forwarders.contains forwarder && s.queries.contains query then
    modify fun s => { s with
      queries := s.queries.modify query ({ · with forwarder := some forwarder })
      forwarders := s.forwarders.modify forwarder ({ · with lastQuery := s.now }) }
    return true
  else
    return false

def attachDecision (query : Handle .query) (decision : Handle .decision) : StoreM Bool := do
  if (← get).decisions.contains decision then
    modifyQuery query ({ · with decision := some decision })
  else
    return false

/-- Notes the domain that a query was led to by the answer. -/
def attachCname (query : Handle .query) (target : String) : Attempt Bool := do
  unless (← get).queries.contains query do
    return false
  let domain ← enrolDomain target false
  modifyQuery query ({ · with cname := some domain })

def noteValidation (query : Handle .query) (validation : Validation) : StoreM Bool :=
  modifyQuery query ({ · with validation })

def noteResponseTime (query : Handle .query) (ms : Float) : StoreM Bool :=
  modifyQuery query ({ · with responseTime := some ms })

end Sinkhole.Store
