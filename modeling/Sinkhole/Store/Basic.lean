import Sinkhole.Fault
import Sinkhole.Ledger.Basic
import Sinkhole.Net
import Sinkhole.Notice
import Sinkhole.Record
import Sinkhole.Settings

namespace Sinkhole

/-- `now` is the time that the clock shows, in milliseconds, and `events` holds what was raised, the
oldest first. While `starting` is set, new clients do not ask for their filters. -/
structure Store where
  settings : Settings
  now : UInt64
  pool : TextPool
  queries : SlotTable .query Query
  domains : SlotTable .domain Domain
  clients : SlotTable .client Client
  forwarders : SlotTable .forwarder Forwarder
  decisions : SlotTable .decision Decision
  ledger : Ledger
  privacy : Privacy
  directory : Option AliasLookup
  sink : EventSink
  events : Array Event := #[]
  starting : Bool := false

namespace Store

/-- An empty store with a window for its history. Without a directory clients have no alias-client.
-/
def empty (settings : Settings) (now : UInt64) (directory : Option AliasLookup)
    (sink : EventSink) (window : Window) : Store where
  settings := settings
  now := now
  pool := { limit := settings.textBytes }
  queries := { name := "queries", capacity := settings.queries }
  domains := { name := "domains", capacity := settings.domains }
  clients := { name := "clients", capacity := settings.clients }
  forwarders := { name := "upstreams", capacity := settings.forwarders }
  decisions := { name := "cache", capacity := settings.decisions }
  ledger := .empty window
  privacy := settings.privacy
  directory := directory
  sink := sink

/-- A store for settings that are in order, whose history ends at `now`. The program stops if the
history is too long for the words that its buckets start at. -/
def create (settings : Settings) (now : UInt64) (directory : Option AliasLookup)
    (sink : EventSink) : Except Fault Store :=
  match settings.check with
  | .ok settings =>
    match Window.ending? settings.bucketSeconds settings.buckets now with
    | some window => .ok (empty settings now directory sink window)
    | none => .error .overflow
  | .error fault => .error (.settings fault)

def bucketOf (s : Store) (ms : UInt64) : Nat :=
  s.ledger.window.bucketOf ms

def domainName? (s : Store) (domain : Handle .domain) : Option String :=
  (s.domains.get? domain).map (·.name.text)

def clientAddress? (s : Store) (client : Handle .client) : Option String :=
  (s.clients.get? client).map (·.address.text)

/-- The clients whose host name was never looked up. -/
def unnamedClients (s : Store) : List (Handle .client) :=
  (s.clients.entries.filter (·.2.unnamed)).map (·.1)

def unnamedForwarders (s : Store) : List (Handle .forwarder) :=
  (s.forwarders.entries.filter (·.2.unnamed)).map (·.1)

def occupancies (s : Store) : List Occupancy :=
  [s.queries.occupancy, s.domains.occupancy, s.clients.occupancy, s.forwarders.occupancy,
    s.decisions.occupancy]

end Store

end Sinkhole
