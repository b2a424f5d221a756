import Sinkhole.Store.Monad

namespace Sinkhole.Store

open StoreM Attempt

/-- Changes a client's counts and those of its alias-client. An alias-client is never counted
directly. Says whether the client was counted. -/
def adjustClient (client : Handle .client) (δ : CountChange) : StoreM Bool := do
  match (← get).clients.get? client with
  | none => return false
  | some c =>
    if c.isAlias then
      notify (.aliasNotCounted c.address.text)
      return false
    modify fun s => { s with clients := s.clients.modify client (·.adjust δ) }
    match c.manager with
    | none => return true
    | some manager =>
      notifyIf (!(← get).clients.contains manager) (.aliasGone manager client)
      modify fun s => { s with clients := s.clients.modify manager (·.adjust δ) }
      return true

/-- Takes a client's counts back from its alias-client, and the client from its care. -/
def release (client : Handle .client) : StoreM Bool := do
  match (← get).clients.get? client with
  | some c =>
    match c.manager with
    | some manager =>
      modify fun s => { s with
        clients := (s.clients.modify manager (·.expel c)).modify client
          ({ · with manager := none }) }
      notify (.released client manager)
      return true
    | none => return false
  | none => return false

/-- Puts a client under an alias-client, which takes its counts over from the one before. It fails
unless the first is a regular client and the second an alias-client. -/
def manage (client manager : Handle .client) : StoreM Bool := do
  let s ← get
  match s.clients.get? client, s.clients.get? manager with
  | some c, some a =>
    if c.isAlias || !a.isAlias then
      return false
    if c.manager = some manager then
      return true
    if c.manager.isSome then
      discard (release client)
    modify fun s => { s with
      clients := (s.clients.modify manager (·.absorb c)).modify client
        ({ · with manager := some manager }) }
    notify (.managed client manager)
    return true
  | _, _ => return false

def findClient? (s : Store) (address : String) : Option (Handle .client) :=
  s.clients.find? (·.address.spells address)

/-- Adds a client, counted once if it is asked to. -/
def addRecord (address : String) (isAlias counted : Bool) : Attempt (Handle .client) := do
  let placed ← intern address
  let s ← get
  let n : Int64 := if counted then 1 else 0
  let record : Client :=
    { address := placed
      isAlias
      count := n
      sinceScan := n
      history := List.replicate s.ledger.window.length 0
      firstSeen := s.now }
  let h ← ofTable (fun t s => { s with clients := t }) (s.clients.insert record)
  notify (.newClient isAlias address h)
  raise .resolveNames
  return h

/-- The client with an address, which is added as an alias-client if there is none. -/
def aliasFor (address : String) : Attempt (Handle .client) := do
  match (← get).findClient? address with
  | some h => return h
  | none => addRecord address true false

/-- Puts a regular client under the alias-client that the directory names, or under none if it names
none. Where a regular client has the address that the directory names, all stays as it was. -/
def followDirectory (client : Handle .client) : Attempt Unit := do
  let s ← get
  match s.directory, s.clients.get? client with
  | some keyOf, some c =>
    if c.isAlias then
      return
    match keyOf c.address.text c.hardware with
    | none => discard (release client)
    | some key =>
      let manager ← aliasFor key
      unless ← manage client manager do
        notify (.aliasKeyTaken key client)
  | _, _ => return

/-- Adds a regular client. It is added also where its alias-client cannot be. -/
def addClient (address : String) (counted : Bool) : Attempt (Handle .client) := do
  let h ← addRecord address false counted
  unless (← get).starting do
    raise (.reloadFilters h)
  try
    followDirectory h
  catch fault =>
    notify (.aliasUnavailable address fault)
  return h

def clientFor (address : String) : Attempt (Handle .client × Bool) := do
  match (← get).findClient? address with
  | some h => return (h, false)
  | none => return (← addClient address false, true)

/-- Finds the client with an address. A regular client is added and counted if `counted` is set, and
an alias-client is added, uncounted, if `isAlias` is. -/
def enrolClient (address : String) (counted isAlias : Bool) :
    Attempt (Option (Handle .client)) := do
  match (← get).findClient? address with
  | some h =>
    if counted && !isAlias then
      discard (adjustClient h { total := 1 })
    return some h
  | none =>
    if isAlias then
      return some (← addRecord address true false)
    else if counted then
      return some (← addClient address true)
    else
      return none

def nameClient (client : Handle .client) (name : String) : Attempt Bool := do
  unless (← get).clients.contains client do
    return false
  let name ← intern name
  modify fun s => { s with
    clients := s.clients.modify client ({ · with name, unnamed := false }) }
  return true

def assignGroups (client : Handle .client) (groups : String) : Attempt Bool := do
  unless (← get).clients.contains client do
    return false
  let groups ← intern groups
  modify fun s => { s with
    clients := s.clients.modify client fun c =>
      { c with groups, groupsKnown := true, groupReads := c.groupReads + 1 } }
  return true

/-- Stores what the neighbour table says of a client, whose alias-client may be another one then. -/
def assignHardware (client : Handle .client) (hardware : HardwareAddress) (interface : String) :
    Attempt Bool := do
  unless (← get).clients.contains client do
    return false
  let interface ← intern interface
  modify fun s => { s with
    clients := s.clients.modify client
      ({ · with hardware := some hardware, interface, sinceScan := 0 }) }
  followDirectory client
  return true

end Sinkhole.Store
