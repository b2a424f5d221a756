import Sinkhole.Store.Clients

namespace Sinkhole.Store

open StoreM Attempt

/-- Takes back from the ledger what was booked for a query. -/
def unbook (l : Ledger) (q : Query) : Ledger :=
  let bucket := l.window.bucketOf q.time
  (((l.dropStatus q.status bucket).addTotal bucket (-1)).addType q.type (-1)).dropReply q.reply

def removeQuery (query : Handle .query) : StoreM Bool := do
  match (← get).queries.vacate? query with
  | none => return false
  | some (q, queries) =>
    let blocked := q.status.isBlocked
    modify fun s => { s with
      queries
      ledger := unbook s.ledger q
      domains := s.domains.modify q.domain (·.uncount blocked) }
    discard (adjustClient q.client
      { total := -1
        blocked := if blocked then -1 else 0
        history := some ((← get).bucketOf q.time, -1) })
    notify (.queryRemoved q.id query)
    return true

/-- Removes a record and puts its table back; says whether there was one. -/
def removeFrom {K : Kind} {α : Type} (table : Store → SlotTable K α)
    (put : SlotTable K α → Store → Store) (h : Handle K) : StoreM Bool := do
  match (table (← get)).vacate? h with
  | none => return false
  | some (_, t) =>
    modify (put t)
    return true

def removeDomain (domain : Handle .domain) : StoreM Bool :=
  removeFrom (·.domains) (fun t s => { s with domains := t }) domain

def removeForwarder (forwarder : Handle .forwarder) : StoreM Bool :=
  removeFrom (·.forwarders) (fun t s => { s with forwarders := t }) forwarder

def removeDecision (decision : Handle .decision) : StoreM Bool :=
  removeFrom (·.decisions) (fun t s => { s with decisions := t }) decision

/-- Takes every client from the care of an alias-client, which keeps their counts. -/
def dismissAll (manager : Handle .client) : StoreM Unit :=
  modify fun s => { s with
    clients := s.clients.mapLive fun c =>
      if c.manager = some manager then { c with manager := none } else c }

/-- Removes a client. The clients of an alias-client have no alias-client then, and a regular client
takes its counts back from its own. -/
def removeClient (client : Handle .client) : StoreM Bool := do
  match (← get).clients.get? client with
  | none => return false
  | some c =>
    if c.isAlias then
      dismissAll client
    else
      discard (release client)
    removeFrom (·.clients) (fun t s => { s with clients := t }) client

end Sinkhole.Store
