import Sinkhole.Dns.Status
import Sinkhole.Fault
import Sinkhole.Ledger.Tally
import Sinkhole.Slot.Table

namespace Sinkhole

inductive Event where
  /-- New clients or forwarders have no host name yet. -/
  | resolveNames
  /-- The filters of a client must be read again. -/
  | reloadFilters (client : Handle .client)
  deriving DecidableEq, Repr

namespace Event

def text : Event → String
  | resolveNames => "ResolveNewHostnames"
  | reloadFilters client => "ReloadClientRegex(" ++ client.tag ++ ")"

end Event

/-- Where events go: they are kept in order, or found to have no taker, or nobody asked for them. -/
inductive EventSink where
  | keep
  | closed
  | discard
  deriving DecidableEq, Repr

inductive Level where
  | error
  | warn
  | info
  | debug
  deriving DecidableEq, Repr

def Level.name : Level → String
  | error => "ERROR"
  | warn => "WARN"
  | info => "INFO"
  | debug => "DEBUG"

inductive Notice where
  | poolFull (p : TextPool.Exhausted)
  | tableFull (t : TableFull)
  | newDomain (name : String) (domain : Handle .domain)
  | newClient (isAlias : Bool) (address : String) (client : Handle .client)
  | newForwarder (address : String) (number : UInt16) (forwarder : Handle .forwarder)
  | eventDropped (event : Event)
  | aliasUnavailable (address : String) (fault : Fault)
  | aliasKeyTaken (key : String) (client : Handle .client)
  | aliasGone (manager client : Handle .client)
  | aliasNotCounted (address : String)
  | managed (client manager : Handle .client)
  | released (client manager : Handle .client)
  | windowMoved (shift : Nat)
  | queryRemoved (id : Int) (query : Handle .query)
  | statusKept (id : Int) (status : Status)
  | statusChanged (id : Int) (old new : Status)
  | statusFirst (id : Int) (status : Status)
  | statusRefused (query : Handle .query) (code : Nat)
  | reloadSkipped (fault : Fault)
  | countKept (table : CountedTable) (fault : Fault)
  | filtersFailed (fault : Fault)
  | listCheckFailed (fault : Fault)
  | reloaded (counts : ListCounts) (filters forgotten : Nat)
  | listsOpened
  | filtersLoaded (n : Int64)
  | listsInaccessible (n : Int64)
  | refreshed (milliseconds : UInt64) (filters : Nat)
  | scheduleOff
  | scheduleOn (seconds : Nat)
  | scheduledDone (gravity : Int64) (forgotten : Nat) (milliseconds : UInt64)
  | scheduledFailed (fault : Fault)

namespace Notice

def level : Notice → Level
  | poolFull .. | tableFull .. | scheduledFailed .. => .error
  | aliasUnavailable .. | aliasKeyTaken .. | aliasNotCounted .. | reloadSkipped .. | countKept ..
  | filtersFailed .. | listCheckFailed .. | listsInaccessible .. => .warn
  | reloaded .. | refreshed .. | scheduleOff | scheduleOn .. | scheduledDone .. => .info
  | newDomain .. | newClient .. | newForwarder .. | eventDropped .. | aliasGone .. | managed ..
  | released .. | windowMoved .. | queryRemoved .. | statusKept .. | statusChanged ..
  | statusFirst .. | statusRefused .. | listsOpened | filtersLoaded .. => .debug

def statusText (s : Status) : String :=
  s!"{s.name} ({s.code.val})"

/-- A record is named by its slot alone. -/
def text : Notice → String
  | poolFull p => s!"String pool exhausted: {p.used} + {p.needed} bytes exceeds {p.limit}"
  | tableFull t => s!"Table {t.name} is full ({t.capacity} slots)"
  | newDomain name domain => s!"New domain {name} -> ID {domain.index}"
  | newClient isAlias address client =>
    let kind := if isAlias then "alias-client" else "client"
    s!"New {kind} {address} -> ID {client.index}"
  | newForwarder address number forwarder =>
    s!"New upstream {address}#{number} -> ID {forwarder.index}"
  | eventDropped event => s!"Event {event.text} dropped, receiver closed"
  | aliasUnavailable address fault =>
    s!"Client {address} left without its alias-client: {fault.message}"
  | aliasKeyTaken key client =>
    s!"Alias key {key} names a regular client, leaving client {client.index} unmanaged"
  | aliasGone manager client => s!"Alias-client {manager.index} of client {client.index} is gone"
  | aliasNotCounted address => s!"Refusing to change counts of alias-client {address} directly"
  | managed client manager => s!"Client {client.index} now managed by alias-client {manager.index}"
  | released client manager =>
    s!"Client {client.index} released from alias-client {manager.index}"
  | windowMoved shift => s!"OverTime window moved forward by {shift} bucket(s)"
  | queryRemoved id query => s!"Retired query {id} (ID {query.index})"
  | statusKept id status => s!"Query {id}: status unchanged: {statusText status}"
  | statusChanged id old new => s!"Query {id}: status changed: {statusText old} -> {statusText new}"
  | statusFirst id status => s!"Query {id}: status initialized: {statusText status}"
  | statusRefused query code => s!"Query {query.index}: rejected invalid status {code}"
  | reloadSkipped fault => s!"List reload skipped, database unavailable: {fault.message}"
  | countKept table fault => s!"Keeping previous count for {table.name}: {fault.message}"
  | filtersFailed fault => s!"Regex reload failed: {fault.message}"
  | listCheckFailed fault => s!"Inaccessible list check failed: {fault.message}"
  | reloaded counts filters forgotten =>
    s!"Lists reloaded: {counts.gravity} gravity domains, {counts.bulklists} bulk lists, "
      ++ s!"{counts.allowedDomains} allowed, {counts.deniedDomains} denied, "
      ++ s!"{filters} regex filters, {forgotten} cache entries reset"
  | listsOpened => "Opened list database"
  | filtersLoaded n => s!"Loaded {n} regex filters"
  | listsInaccessible n => s!"{n} adlist(s) could not be downloaded and have no cached copy"
  | refreshed milliseconds filters =>
    s!"List refresh finished in {milliseconds}ms ({filters} regex filters)"
  | scheduleOff => "Scheduled list reload is disabled, skipping"
  | scheduleOn seconds => s!"Starting scheduled list reload with {seconds}-second interval"
  | scheduledDone gravity forgotten milliseconds =>
    s!"Scheduled list reload completed: {gravity} gravity domains, "
      ++ s!"{forgotten} cache entries reset in {milliseconds}ms"
  | scheduledFailed fault => s!"Scheduled list reload failed: {fault.message}"

def line (n : Notice) : String :=
  n.level.name ++ " " ++ n.text

end Notice

end Sinkhole
