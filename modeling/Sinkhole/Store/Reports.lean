import Sinkhole.Number.Binary64
import Sinkhole.Store.Basic

namespace Sinkhole.Store

def hiddenDomain : String := "hidden"

def hiddenClient : String := "0.0.0.0"

def shownDomain (s : Store) (privacy : Privacy) : Option (Handle .domain) → String
  | none => ""
  | some domain => if privacy.hidesDomains then hiddenDomain else (s.domainName? domain).getD ""

def domainText (s : Store) (query : Handle .query) : String :=
  match s.queries.get? query with
  | some q => s.shownDomain q.privacy (some q.domain)
  | none => ""

def cnameText (s : Store) (query : Handle .query) : String :=
  match s.queries.get? query with
  | some q => s.shownDomain q.privacy q.cname
  | none => ""

/-- A text of a query's client as the query's level lets it be shown. -/
def shownClient (s : Store) (query : Handle .query) (text : Client → PooledText) : String :=
  match s.queries.get? query with
  | some q =>
    if q.privacy.hidesClients then hiddenClient
    else ((s.clients.get? q.client).map fun c => (text c).text).getD ""
  | none => ""

def clientAddressText (s : Store) (query : Handle .query) : String :=
  s.shownClient query (·.address)

def clientNameText (s : Store) (query : Handle .query) : String :=
  s.shownClient query (·.name)

end Sinkhole.Store

namespace Sinkhole

structure Summary where
  total : Int64
  blocked : Int64
  cached : Int64
  forwarded : Int64
  percentBlocked : Float
  domains : Nat
  clients : Nat
  forwarders : Nat
  decisions : Nat
  statuses : List (String × Int64)
  lists : ListCounts
  textBytes : Nat

namespace ListCounts

def fields (c : ListCounts) : List (String × Int64) :=
  [("gravity", c.gravity), ("groups", c.groups), ("clients", c.clients), ("lists", c.lists),
    ("bulklists", c.bulklists), ("allowed_domains", c.allowedDomains),
    ("denied_domains", c.deniedDomains)]

end ListCounts

namespace Tally

/-- The share of blocked queries, of which there is none without a query. -/
def percentBlocked (t : Tally) : Float :=
  if t.total = 0 then 0 else t.blocked.toFloat * 100 / t.total.toFloat

end Tally

namespace Store

/-- Alias-clients are not counted as clients, and statuses are listed by name. -/
def summary (s : Store) : Summary :=
  let tally := s.ledger.tally
  { total := tally.total
    blocked := tally.blocked
    cached := tally.cached
    forwarded := tally.forwarded
    percentBlocked := tally.percentBlocked
    domains := s.domains.live
    clients := (s.clients.entries.filter fun (_, c) => !c.isAlias).length
    forwarders := s.forwarders.live
    decisions := s.decisions.live
    statuses := (Status.all.map fun status => (status.name, tally.ofStatus status)).mergeSort
      fun a b => a.1 ≤ b.1
    lists := tally.lists
    textBytes := s.pool.used }

/-- One line on what a store holds. -/
def describe (s : Store) : String :=
  "Datastore \x7b "
    ++ s!"queries: {s.queries.live}, domains: {s.domains.live}, clients: {s.clients.live}, "
    ++ s!"upstreams: {s.forwarders.live}, cache: {s.decisions.live}, string_bytes: {s.pool.used}"
    ++ " \x7d"

end Store

namespace Summary

/-- An object of written values, in the order given and without blanks. No name needs an escape. -/
def objectText (fields : List (String × String)) : String :=
  "\x7b"
    ++ ",".intercalate (fields.map fun (name, value) => "\"" ++ name ++ "\":" ++ value)
    ++ "\x7d"

def countsText (fields : List (String × Int64)) : String :=
  objectText (fields.map fun (name, n) => (name, toString n))

def jsonText (s : Summary) : String :=
  objectText
    [("total_queries", toString s.total), ("blocked", toString s.blocked),
      ("cached", toString s.cached), ("forwarded", toString s.forwarded),
      ("percent_blocked", Decimal.jsonText s.percentBlocked),
      ("unique_domains", toString s.domains), ("unique_clients", toString s.clients),
      ("upstreams", toString s.forwarders),
      ("cache_entries", toString s.decisions), ("status", countsText s.statuses),
      ("database", countsText s.lists.fields), ("string_bytes", toString s.textBytes)]

end Summary

end Sinkhole
