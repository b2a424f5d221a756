import Sinkhole.Store.Monad
import Sinkhole.Text

namespace Sinkhole.Store

open StoreM Attempt

/-- The live domain of a name. The hash goes first, since unequal names mostly differ in it. -/
def findDomain? (s : Store) (name : String) : Option (Handle .domain) :=
  let hash := Text.hash name
  s.domains.find? fun d => d.hash == hash && d.name.text == name

def addDomain (name : String) : Attempt (Handle .domain) := do
  let placed ← intern name
  let record : Domain := { name := placed, hash := Text.hash name }
  let h ← ofTable (fun t s => { s with domains := t }) ((← get).domains.insert record)
  notify (.newDomain name h)
  return h

/-- The domain of a name, and whether it had to be added. -/
def domainFor (name : String) : Attempt (Handle .domain × Bool) := do
  match (← get).findDomain? name with
  | some h => return (h, false)
  | none => return (← addDomain name, true)

def countDomain (domain : Handle .domain) (added : Bool) : StoreM Unit :=
  modify fun s => { s with domains := s.domains.modify domain (·.addQuery (!added) s.now) }

/-- Finds the domain of a name or adds it, and counts a query if it is asked to. -/
def enrolDomain (name : String) (counted : Bool) : Attempt (Handle .domain) := do
  let (h, added) ← domainFor name
  if counted then
    countDomain h added
  return h

def findForwarder? (s : Store) (address : String) (number : UInt16) : Option (Handle .forwarder) :=
  s.forwarders.find? fun u => u.number == number && u.address.text == address

def enrolForwarder (address : String) (number : UInt16) : Attempt (Handle .forwarder) := do
  match (← get).findForwarder? address number with
  | some h => return h
  | none =>
    let placed ← intern address
    let record : Forwarder := { address := placed, number }
    let h ← ofTable (fun t s => { s with forwarders := t }) ((← get).forwarders.insert record)
    notify (.newForwarder address number h)
    raise .resolveNames
    return h

def nameForwarder (forwarder : Handle .forwarder) (name : String) : Attempt Bool := do
  unless (← get).forwarders.contains forwarder do
    return false
  let name ← intern name
  modify fun s => { s with
    forwarders := s.forwarders.modify forwarder ({ · with name, unnamed := false }) }
  return true

def modifyForwarder (forwarder : Handle .forwarder) (f : Store → Forwarder → Forwarder) :
    StoreM Bool := do
  let known := (← get).forwarders.contains forwarder
  modify fun s => { s with forwarders := s.forwarders.modify forwarder (f s) }
  return known

def noteResponse (forwarder : Handle .forwarder) (ms : Float) : StoreM Bool :=
  modifyForwarder forwarder fun s u => { u with times := u.times.add ms, lastQuery := s.now }

def noteFailure (forwarder : Handle .forwarder) : StoreM Bool :=
  modifyForwarder forwarder fun _ u => { u with failed := u.failed + 1 }

def findDecision? (s : Store) (domain : Handle .domain) (client : Handle .client)
    (type : RecordType) : Option (Handle .decision) :=
  s.decisions.find? fun d => d.domain == domain && d.client == client && d.type == type

/-- Finds a decision, or adds one without a verdict if it is asked to. -/
def enrolDecision (domain : Handle .domain) (client : Handle .client) (type : RecordType)
    (create : Bool) : Attempt (Option (Handle .decision)) := do
  match (← get).findDecision? domain client type with
  | some h => return some h
  | none =>
    if create then
      let record : Decision := { domain, client, type }
      return some (← ofTable (fun t s => { s with decisions := t })
        ((← get).decisions.insert record))
    else
      return none

def noteVerdict (decision : Handle .decision) (verdict : Verdict) (list : Option Int64) :
    StoreM Bool := do
  let known := (← get).decisions.contains decision
  modify fun s => { s with
    decisions := s.decisions.modify decision ({ · with verdict, list }) }
  return known

/-- Forgets every verdict and which clients have their groups. Says how many decisions there are. -/
def forgetDecisions : StoreM Nat := do
  modify fun s => { s with
    decisions := s.decisions.mapLive Decision.forget
    clients := s.clients.mapLive ({ · with groupsKnown := false }) }
  return (← get).decisions.entries.length

end Sinkhole.Store
