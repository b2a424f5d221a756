import Mathlib.Data.Set.Defs
import Sinkhole.Proofs.Slot.Images
import Sinkhole.Proofs.Slot.Keys
import Sinkhole.Proofs.Store.Runs
import Sinkhole.Proofs.Text.Arena

namespace Sinkhole

structure Domain.Card where
  name : PooledText
  hash : UInt32

structure Client.Card where
  address : PooledText
  name : PooledText
  isAlias : Bool

structure Forwarder.Card where
  address : PooledText
  number : UInt16

structure Decision.Card where
  domain : Handle .domain
  client : Handle .client
  type : RecordType
  deriving DecidableEq

structure Query.Card where
  id : Int
  domain : Handle .domain
  client : Handle .client
  cname : Option (Handle .domain)
  privacy : Privacy

def Domain.card (d : Domain) : Domain.Card :=
  ⟨d.name, d.hash⟩

def Client.card (c : Client) : Client.Card :=
  ⟨c.address, c.name, c.isAlias⟩

def Forwarder.card (u : Forwarder) : Forwarder.Card :=
  ⟨u.address, u.number⟩

def Decision.card (d : Decision) : Decision.Card :=
  ⟨d.domain, d.client, d.type⟩

def Query.card (q : Query) : Query.Card :=
  ⟨q.id, q.domain, q.client, q.cname, q.privacy⟩

/-- The tables hold cards in place of records. -/
structure Registry where
  settings : Settings
  directory : Option AliasLookup
  pool : TextPool
  queries : SlotTable .query Query.Card
  domains : SlotTable .domain Domain.Card
  clients : SlotTable .client Client.Card
  forwarders : SlotTable .forwarder Forwarder.Card
  decisions : SlotTable .decision Decision.Card

def Store.registry (s : Store) : Registry where
  settings := s.settings
  directory := s.directory
  pool := s.pool
  queries := s.queries.map Query.card
  domains := s.domains.map Domain.card
  clients := s.clients.map Client.card
  forwarders := s.forwarders.map Forwarder.card
  decisions := s.decisions.map Decision.card

/-- What a command did that reports and later commands go by. A query is recorded under the privacy
level of the time. -/
inductive Deed where
  | queryRecorded (h : Handle .query) (new : Arrival) (level : Privacy)
  | queryRemoved (h : Handle .query)
  | domainRemoved (h : Handle .domain)
  | clientRemoved (h : Handle .client)
  | forwarderRemoved (h : Handle .forwarder)
  | decisionRemoved (h : Handle .decision)
  | clientNamed (h : Handle .client) (name : String)
  | cnameNoted (h : Handle .query) (target : String)
  | redirected
  deriving DecidableEq

namespace Command

/-- The deed of a command with an answer, given under a privacy level. -/
def deed? (c : Command) (level : Privacy) (answer : Except Fault Answer) : Option Deed :=
  match c, answer with
  | recordQuery new, .ok (.query h) => some (.queryRecorded h new level)
  | removeQuery h, .ok (.flag true) => some (.queryRemoved h)
  | removeDomain h, .ok (.flag true) => some (.domainRemoved h)
  | removeClient h, .ok (.flag true) => some (.clientRemoved h)
  | removeForwarder h, .ok (.flag true) => some (.forwarderRemoved h)
  | removeDecision h, .ok (.flag true) => some (.decisionRemoved h)
  | nameClient h name, .ok (.flag true) => some (.clientNamed h name)
  | attachCname h target, .ok (.flag true) => some (.cnameNoted h target)
  | setDirectory _, .ok _ => some .redirected
  | _, _ => none

theorem deed?_error (c : Command) (level : Privacy) (fault : Fault) :
    c.deed? level (.error fault) = none := by
  cases c <;> simp [deed?]

/-- The texts that a command brings in. A directory brings in all its keys. -/
def texts : Command → Set String
  | setDirectory keyOf => {key | ∃ address hardware, keyOf address hardware = some key}
  | enrolDomain name _ => {name}
  | enrolClient address _ _ => {address}
  | enrolForwarder address _ => {address}
  | recordQuery new => {new.client, new.domain}
  | attachCname _ target => {target}
  | nameClient _ name => {name}
  | assignGroups _ groups => {groups}
  | assignHardware _ _ interface => {interface}
  | nameForwarder _ name => {name}
  | _ => ∅

end Command

/-- The keys that a directory answers are among `texts`. -/
def Store.DirectoryIn (texts : Set String) (directory : Option AliasLookup) : Prop :=
  ∀ keyOf ∈ directory, ∀ address hardware key, keyOf address hardware = some key → key ∈ texts

namespace Registry

open Store

variable (texts : Set String) {r r' r'' : Registry} {ds ds' : List Deed}

/-- The record of a domain handle has a name. -/
def NamesDomain (r : Registry) (h : Handle .domain) (name : String) : Prop :=
  ∃ d, r.domains.get? h = some d ∧ d.name.text = name

def NamesClient (r : Registry) (h : Handle .client) (address : String) : Prop :=
  ∃ c, r.clients.get? h = some c ∧ c.address.text = address

/-- One change of a registry, and the deed that it tells. The names of new records are among
`texts`, and no live record has them yet. -/
inductive Turn (r : Registry) : List Deed → Registry → Prop where
  | interned {text : String} {t : PooledText} {pool : TextPool}
      (placed : r.pool.intern text = .ok (t, pool)) : Turn r [] { r with pool }
  | domainAdded {name : String} {d : Domain.Card} {h : Handle .domain}
      {t : SlotTable .domain Domain.Card} (given : name ∈ texts)
      (isNew : r.domains.All fun d => ¬ (d.hash = Text.hash name ∧ d.name.text = name))
      (held : r.pool.Holds d.name) (text_eq : d.name.text = TextPool.beforeNul name)
      (hash_eq : d.hash = Text.hash name) (put : r.domains.insert d = .ok (h, t)) :
      Turn r [] { r with domains := t }
  | clientAdded {address : String} {c : Client.Card} {h : Handle .client}
      {t : SlotTable .client Client.Card} (given : address ∈ texts)
      (isNew : r.clients.All fun c => c.address.text ≠ address)
      (held : r.pool.Holds c.address) (text_eq : c.address.text = TextPool.beforeNul address)
      (unnamed : c.name = {}) (put : r.clients.insert c = .ok (h, t)) :
      Turn r [] { r with clients := t }
  | forwarderAdded {address : String} {u : Forwarder.Card} {h : Handle .forwarder}
      {t : SlotTable .forwarder Forwarder.Card} (given : address ∈ texts)
      (isNew : r.forwarders.All fun v => ¬ (v.number = u.number ∧ v.address.text = address))
      (held : r.pool.Holds u.address) (text_eq : u.address.text = TextPool.beforeNul address)
      (put : r.forwarders.insert u = .ok (h, t)) : Turn r [] { r with forwarders := t }
  | decisionAdded {d : Decision.Card} {h : Handle .decision}
      {t : SlotTable .decision Decision.Card} (isNew : r.decisions.All (· ≠ d))
      (put : r.decisions.insert d = .ok (h, t)) : Turn r [] { r with decisions := t }
  | queryRecorded {new : Arrival} {q : Query.Card} {h : Handle .query}
      {t : SlotTable .query Query.Card} (id_eq : q.id = new.id)
      (domain : r.NamesDomain q.domain (TextPool.beforeNul new.domain))
      (client : r.NamesClient q.client (TextPool.beforeNul new.client)) (cname_eq : q.cname = none)
      (put : r.queries.push q = .ok (h, t)) :
      Turn r [.queryRecorded h new q.privacy] { r with queries := t }
  | clientNamed {h : Handle .client} {name : String} {placed : PooledText}
      (live : r.clients.contains h) (held : r.pool.Holds placed)
      (text_eq : placed.text = TextPool.beforeNul name) :
      Turn r [.clientNamed h name]
        { r with clients := r.clients.modify h ({ · with name := placed }) }
  | cnameNoted {h : Handle .query} {target : String} {domain : Handle .domain}
      (live : r.queries.contains h) (known : r.NamesDomain domain (TextPool.beforeNul target)) :
      Turn r [.cnameNoted h target]
        { r with queries := r.queries.modify h ({ · with cname := some domain }) }
  | queryRemoved {h : Handle .query} (live : r.queries.contains h) :
      Turn r [.queryRemoved h] { r with queries := r.queries.vacated h }
  | domainRemoved {h : Handle .domain} (live : r.domains.contains h) :
      Turn r [.domainRemoved h] { r with domains := r.domains.vacated h }
  | clientRemoved {h : Handle .client} (live : r.clients.contains h) :
      Turn r [.clientRemoved h] { r with clients := r.clients.vacated h }
  | forwarderRemoved {h : Handle .forwarder} (live : r.forwarders.contains h) :
      Turn r [.forwarderRemoved h] { r with forwarders := r.forwarders.vacated h }
  | decisionRemoved {h : Handle .decision} (live : r.decisions.contains h) :
      Turn r [.decisionRemoved h] { r with decisions := r.decisions.vacated h }
  | redirected {keyOf : AliasLookup} (given : DirectoryIn texts (some keyOf)) :
      Turn r [.redirected] { r with directory := some keyOf }

/-- A number of turns, with the deeds that they tell, in order. -/
inductive Course (r : Registry) : List Deed → Registry → Prop where
  | refl : Course r [] r
  | turn {ds ds' : List Deed} {r' r'' : Registry} (first : Course r ds r')
      (last : Turn texts r' ds' r'') : Course r (ds ++ ds') r''

variable {texts}

namespace Course

theorem single (h : Turn texts r ds r') : Course texts r ds r' :=
  .turn .refl h

theorem trans (h : Course texts r ds r') (h' : Course texts r' ds' r'') :
    Course texts r (ds ++ ds') r'' := by
  induction h' with
  | refl =>
    rw [List.append_nil]
    exact h
  | turn _ last ih =>
    rw [← List.append_assoc]
    exact .turn ih last

theorem extend (h : Course texts r ds r') (h' : Course texts r' [] r'') :
    Course texts r ds r'' := by
  have hall := h.trans h'
  rwa [List.append_nil] at hall

/-- What every turn keeps, a course keeps, together with the deeds so far. -/
theorem invariant (Inv : List Deed → Registry → Prop)
    (hturn : ∀ {ds ds' r r'}, Inv ds r → Turn texts r ds' r' → Inv (ds ++ ds') r')
    (h : Course texts r ds r') {told : List Deed} (hr : Inv told r) : Inv (told ++ ds) r' := by
  induction h with
  | refl =>
    rw [List.append_nil]
    exact hr
  | turn _ last ih =>
    rw [← List.append_assoc]
    exact hturn ih last

end Course

/-- The tables are in order, and every name that a card shows is held by the pool. -/
structure Sound (r : Registry) : Prop where
  pool : r.pool.WellFormed
  queries : r.queries.WellFormed
  domains : r.domains.WellFormed
  clients : r.clients.WellFormed
  forwarders : r.forwarders.WellFormed
  decisions : r.decisions.WellFormed
  domains_held : r.domains.All fun d => r.pool.Holds d.name
  clients_held : r.clients.All fun c => r.pool.Holds c.address ∧ r.pool.Holds c.name
  forwarders_held : r.forwarders.All fun u => r.pool.Holds u.address

section
variable {s : Store} (i : s.registry.Sound)
include i

theorem Sound.textAt_domain {h : Handle .domain} {d : Domain} (hd : s.domains.get? h = some d) :
    s.pool.textAt d.name.offset = d.name.text :=
  i.pool.textAt_eq (i.domains_held h d.card (SlotTable.get?_map_of_get? Domain.card hd))

theorem Sound.textAt_client {h : Handle .client} {c : Client} (hc : s.clients.get? h = some c) :
    s.pool.textAt c.address.offset = c.address.text ∧
      s.pool.textAt c.name.offset = c.name.text := by
  have hheld := i.clients_held h c.card (SlotTable.get?_map_of_get? Client.card hc)
  exact ⟨i.pool.textAt_eq hheld.1, i.pool.textAt_eq hheld.2⟩

theorem Sound.textAt_forwarder {h : Handle .forwarder} {u : Forwarder}
    (hu : s.forwarders.get? h = some u) : s.pool.textAt u.address.offset = u.address.text :=
  i.pool.textAt_eq (i.forwarders_held h u.card (SlotTable.get?_map_of_get? Forwarder.card hu))

end

theorem Turn.sound (h : Turn texts r ds r') (i : r.Sound) : r'.Sound := by
  -- What a turn does not change is taken over from `i`.
  cases h with
  | interned placed =>
    exact { i with
      pool := i.pool.intern placed
      domains_held := i.domains_held.mono fun _ hd => hd.intern placed
      clients_held := i.clients_held.mono fun _ hc => ⟨hc.1.intern placed, hc.2.intern placed⟩
      forwarders_held := i.forwarders_held.mono fun _ hu => hu.intern placed }
  | domainAdded _ _ held _ _ put =>
    exact { i with
      domains := i.domains.insert put
      domains_held := i.domains_held.placed (SlotTable.placed_of_insert i.domains put) held }
  | clientAdded _ _ held _ unnamed put =>
    exact { i with
      clients := i.clients.insert put
      clients_held := i.clients_held.placed (SlotTable.placed_of_insert i.clients put)
        ⟨held, .inl unnamed⟩ }
  | forwarderAdded _ _ held _ put =>
    exact { i with
      forwarders := i.forwarders.insert put
      forwarders_held := i.forwarders_held.placed (SlotTable.placed_of_insert i.forwarders put)
        held }
  | decisionAdded _ put => exact { i with decisions := i.decisions.insert put }
  | queryRecorded _ _ _ _ put => exact { i with queries := i.queries.push put }
  | @clientNamed h name placed _ held =>
    have hnamed := i.clients_held.modify (f := ({ · with name := placed }))
      (fun _ hc => ⟨hc.1, held⟩) h
    exact { i with clients := i.clients.modify _ _, clients_held := hnamed }
  | cnameNoted => exact { i with queries := i.queries.modify _ _ }
  | queryRemoved => exact { i with queries := i.queries.vacated _ }
  | domainRemoved =>
    exact { i with
      domains := i.domains.vacated _
      domains_held := i.domains_held.vacated _ }
  | clientRemoved =>
    exact { i with
      clients := i.clients.vacated _
      clients_held := i.clients_held.vacated _ }
  | forwarderRemoved =>
    exact { i with
      forwarders := i.forwarders.vacated _
      forwarders_held := i.forwarders_held.vacated _ }
  | decisionRemoved => exact { i with decisions := i.decisions.vacated _ }
  | redirected => exact { i with }

theorem Course.keeps {P : Registry → Prop} (hturn : ∀ {ds r r'}, P r → Turn texts r ds r' → P r')
    (h : Course texts r ds r') (hr : P r) : P r' := by
  induction h with
  | refl => exact hr
  | turn _ last ih => exact hturn ih last

theorem Course.sound (h : Course texts r ds r') (i : r.Sound) : r'.Sound :=
  h.keeps (fun i t => t.sound i) i

theorem Turn.directoryIn (h : Turn texts r ds r') (d : DirectoryIn texts r.directory) :
    DirectoryIn texts r'.directory := by
  cases h with
  | redirected given => exact given
  | _ => exact d

theorem Turn.directory_eq (h : Turn texts r ds r') (hkept : .redirected ∉ ds) :
    r'.directory = r.directory := by
  cases h with
  | redirected => exact absurd List.mem_cons_self hkept
  | _ => rfl

theorem Turn.settings_eq (h : Turn texts r ds r') : r'.settings = r.settings := by
  cases h <;> rfl

theorem Course.directoryIn (h : Course texts r ds r') (d : DirectoryIn texts r.directory) :
    DirectoryIn texts r'.directory :=
  h.keeps (P := fun r => DirectoryIn texts r.directory) (fun d t => t.directoryIn d) d

theorem Course.directory_eq (h : Course texts r ds r') (hkept : .redirected ∉ ds) :
    r'.directory = r.directory := by
  induction h with
  | refl => rfl
  | turn _ last ih =>
    rw [List.mem_append, not_or] at hkept
    exact (last.directory_eq hkept.2).trans (ih hkept.1)

theorem Course.settings_eq (h : Course texts r ds r') : r'.settings = r.settings :=
  h.keeps (P := (·.settings = r.settings)) (fun i t => t.settings_eq.trans i) rfl

/-- Every record keeps its handle and its card. -/
structure KeepsCards (r r' : Registry) : Prop where
  queries : ∀ h q, r.queries.get? h = some q → r'.queries.get? h = some q
  domains : ∀ h d, r.domains.get? h = some d → r'.domains.get? h = some d
  clients : ∀ h c, r.clients.get? h = some c → r'.clients.get? h = some c

theorem Turn.keepsCards (i : r.Sound) (h : Turn texts r [] r') : r.KeepsCards r' := by
  cases h with
  | domainAdded _ _ _ _ _ put =>
    have placed := SlotTable.placed_of_insert i.domains put
    exact ⟨fun _ _ hq => hq, fun _ _ hd => placed.get?_of_get? hd, fun _ _ hc => hc⟩
  | clientAdded _ _ _ _ _ put =>
    have placed := SlotTable.placed_of_insert i.clients put
    exact ⟨fun _ _ hq => hq, fun _ _ hd => hd, fun _ _ hc => placed.get?_of_get? hc⟩
  | interned | forwarderAdded | decisionAdded =>
    exact ⟨fun _ _ hq => hq, fun _ _ hd => hd, fun _ _ hc => hc⟩

/-- Records are only removed, and cards only changed, where a deed is told. -/
theorem Course.keepsCards (i : r.Sound) (h : Course texts r [] r') : r.KeepsCards r' := by
  generalize htold : ([] : List Deed) = ds at h
  induction h with
  | refl => exact ⟨fun _ _ hq => hq, fun _ _ hd => hd, fun _ _ hc => hc⟩
  | turn first last ih =>
    obtain ⟨rfl, rfl⟩ := List.append_eq_nil_iff.1 htold.symm
    have k := ih rfl
    have k' := last.keepsCards (first.sound i)
    exact ⟨fun h q hq => k'.queries h q (k.queries h q hq),
      fun h d hd => k'.domains h d (k.domains h d hd),
      fun h c hc => k'.clients h c (k.clients h c hc)⟩

/-- The registry of a store without records. -/
def empty (settings : Settings) (directory : Option AliasLookup) : Registry where
  settings := settings
  directory := directory
  pool := { limit := settings.textBytes }
  queries := { name := "queries", capacity := settings.queries }
  domains := { name := "domains", capacity := settings.domains }
  clients := { name := "clients", capacity := settings.clients }
  forwarders := { name := "upstreams", capacity := settings.forwarders }
  decisions := { name := "cache", capacity := settings.decisions }

theorem registry_empty (settings : Settings) (now : UInt64) (directory : Option AliasLookup)
    (sink : EventSink) (window : Window) :
    (Store.empty settings now directory sink window).registry = empty settings directory := by
  simp only [Store.registry, Store.empty, SlotTable.map_empty]
  rfl

theorem sound_empty (settings : Settings) (directory : Option AliasLookup) :
    (empty settings directory).Sound where
  pool := TextPool.wellFormed_empty _
  queries := SlotTable.wellFormed_empty _ _
  domains := SlotTable.wellFormed_empty _ _
  clients := SlotTable.wellFormed_empty _ _
  forwarders := SlotTable.wellFormed_empty _ _
  decisions := SlotTable.wellFormed_empty _ _
  domains_held := SlotTable.All.empty _ _
  clients_held := SlotTable.All.empty _ _
  forwarders_held := SlotTable.All.empty _ _

end Registry

end Sinkhole
