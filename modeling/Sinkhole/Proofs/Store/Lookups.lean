import Sinkhole.Proofs.Store.Courses

namespace Sinkhole

def plainTexts : Set String :=
  {text | TextPool.Plain text}

namespace Registry

variable {ds : List Deed} {r r' : Registry}

/-- Hashes are those of the names, and no two live records of a kind have one key. -/
structure Indexed (r : Registry) : Prop where
  hash_eq : r.domains.All fun d => d.hash = Text.hash d.name.text
  domains : r.domains.Unique (·.name.text)
  clients : r.clients.Unique (·.address.text)
  forwarders : r.forwarders.Unique fun u => (u.address.text, u.number)
  decisions : r.decisions.Unique id

theorem Turn.indexed (t : Turn plainTexts r ds r') (sound : r.Sound) (i : r.Indexed) :
    r'.Indexed := by
  cases t with
  | domainAdded given isNew _ text_eq hash_eq put =>
    have hplaced := SlotTable.placed_of_insert sound.domains put
    rw [TextPool.beforeNul_eq_self_iff.2 given] at text_eq
    -- The search that failed compared hashes too, and a domain of this name would have had its hash.
    have hother : r.domains.All fun e => e.name.text ≠ _ := fun k e he heq =>
      isNew k e he ⟨by rw [i.hash_eq k e he, heq, text_eq], heq.trans text_eq⟩
    exact { i with
      hash_eq := i.hash_eq.placed hplaced (by rw [hash_eq, text_eq])
      domains := i.domains.placed hplaced hother }
  | clientAdded given isNew _ text_eq _ put =>
    have hplaced := SlotTable.placed_of_insert sound.clients put
    rw [TextPool.beforeNul_eq_self_iff.2 given] at text_eq
    exact { i with clients := i.clients.placed hplaced (text_eq ▸ isNew) }
  | forwarderAdded given isNew _ text_eq put =>
    have hplaced := SlotTable.placed_of_insert sound.forwarders put
    rw [TextPool.beforeNul_eq_self_iff.2 given] at text_eq
    refine { i with forwarders := i.forwarders.placed hplaced fun k v hv heq => ?_ }
    obtain ⟨haddress, hnumber⟩ := Prod.mk.inj heq
    exact isNew k v hv ⟨hnumber, haddress.trans text_eq⟩
  | decisionAdded isNew put =>
    have hplaced := SlotTable.placed_of_insert sound.decisions put
    exact { i with decisions := i.decisions.placed hplaced isNew }
  | @clientNamed h name placed =>
    have hclients := i.clients.modify (f := ({ · with name := placed })) (fun _ => rfl) h
    exact { i with clients := hclients }
  | domainRemoved =>
    exact { i with
      hash_eq := i.hash_eq.vacated _
      domains := i.domains.vacated _ }
  | clientRemoved => exact { i with clients := i.clients.vacated _ }
  | forwarderRemoved => exact { i with forwarders := i.forwarders.vacated _ }
  | decisionRemoved => exact { i with decisions := i.decisions.vacated _ }
  | interned | redirected | queryRecorded | cnameNoted | queryRemoved => exact { i with }

theorem Course.indexed (h : Course plainTexts r ds r') (sound : r.Sound) (i : r.Indexed) :
    r'.Indexed := by
  have hboth : r'.Sound ∧ r'.Indexed := h.keeps (P := fun r => r.Sound ∧ r.Indexed)
    (fun i t => ⟨t.sound i.1, t.indexed i.1 i.2⟩) ⟨sound, i⟩
  exact hboth.2

theorem indexed_empty (settings : Settings) (directory : Option AliasLookup) :
    (empty settings directory).Indexed where
  hash_eq := SlotTable.All.empty _ _
  domains := SlotTable.Unique.empty _ _
  clients := SlotTable.Unique.empty _ _
  forwarders := SlotTable.Unique.empty _ _
  decisions := SlotTable.Unique.empty _ _

end Registry

namespace Store

open Attempt StoreM Registry

variable {s s' : Store}

def DomainAt (s : Store) (h : Handle .domain) (name : String) : Prop :=
  ∃ d, s.domains.get? h = some d ∧ s.pool.textAt d.name.offset = name

def ClientAt (s : Store) (h : Handle .client) (address : String) : Prop :=
  ∃ c, s.clients.get? h = some c ∧ s.pool.textAt c.address.offset = address

def ForwarderAt (s : Store) (h : Handle .forwarder) (address : String) (number : UInt16) : Prop :=
  ∃ u, s.forwarders.get? h = some u ∧ s.pool.textAt u.address.offset = address ∧ u.number = number

def DecisionAt (s : Store) (h : Handle .decision) (domain : Handle .domain)
    (client : Handle .client) (type : RecordType) : Prop :=
  ∃ d, s.decisions.get? h = some d ∧ d.domain = domain ∧ d.client = client ∧ d.type = type

section
variable (sound : s.registry.Sound)
include sound

theorem domainAt_iff {h : Handle .domain} {name : String} :
    s.DomainAt h name ↔ ∃ d, s.domains.get? h = some d ∧ d.name.text = name :=
  exists_congr fun d => and_congr_right fun hd => by rw [sound.textAt_domain hd]

theorem clientAt_iff {h : Handle .client} {address : String} :
    s.ClientAt h address ↔ ∃ c, s.clients.get? h = some c ∧ c.address.text = address :=
  exists_congr fun c => and_congr_right fun hc => by rw [(sound.textAt_client hc).1]

theorem forwarderAt_iff {h : Handle .forwarder} {address : String} {number : UInt16} :
    s.ForwarderAt h address number ↔
      ∃ u, s.forwarders.get? h = some u ∧ (u.address.text, u.number) = (address, number) :=
  exists_congr fun u => and_congr_right fun hu => by rw [sound.textAt_forwarder hu, Prod.mk.injEq]

end

theorem decisionAt_iff {h : Handle .decision} {domain : Handle .domain} {client : Handle .client}
    {type : RecordType} :
    s.DecisionAt h domain client type ↔
      ∃ d, s.decisions.get? h = some d ∧ d.card = ⟨domain, client, type⟩ :=
  exists_congr fun d => and_congr_right fun _ => by
    simp only [Decision.card, Decision.Card.mk.injEq]

section
variable (i : s.registry.Indexed)
include i

theorem hash_eq {h : Handle .domain} {d : Domain} (hd : s.domains.get? h = some d) :
    d.hash = Text.hash d.name.text :=
  i.hash_eq h d.card (SlotTable.get?_map_of_get? Domain.card hd)

theorem findDecision?_eq_some_iff {h : Handle .decision} {domain : Handle .domain}
    {client : Handle .client} {type : RecordType} :
    s.findDecision? domain client type = some h ↔ s.DecisionAt h domain client type := by
  rw [decisionAt_iff]
  refine (SlotTable.Unique.map_iff.1 i.decisions).find?_eq_some_iff fun d _ => ?_
  simp [Decision.card, and_assoc]

variable (sound : s.registry.Sound)
include sound

theorem findDomain?_eq_some_iff {h : Handle .domain} {name : String} :
    s.findDomain? name = some h ↔ s.DomainAt h name := by
  rw [domainAt_iff sound]
  refine (SlotTable.Unique.map_iff.1 i.domains).find?_eq_some_iff fun d hd => ?_
  obtain ⟨k, hk⟩ := SlotTable.mem_records.1 hd
  have hhash := hash_eq i hk
  simp +contextual [Domain.card, hhash]

theorem findClient?_eq_some_iff {h : Handle .client} {address : String} :
    s.findClient? address = some h ↔ s.ClientAt h address := by
  rw [clientAt_iff sound]
  exact (SlotTable.Unique.map_iff.1 i.clients).find?_eq_some_iff fun _ _ => PooledText.spells_iff

theorem findForwarder?_eq_some_iff {h : Handle .forwarder} {address : String} {number : UInt16} :
    s.findForwarder? address number = some h ↔ s.ForwarderAt h address number := by
  rw [forwarderAt_iff sound]
  refine (SlotTable.Unique.map_iff.1 i.forwarders).find?_eq_some_iff fun u _ => ?_
  simp [Forwarder.card, and_comm]

/-- The hash hides no domain. -/
theorem findDomain?_eq_scan (name : String) :
    s.findDomain? name = s.domains.find? fun d => s.pool.textAt d.name.offset == name := by
  refine SlotTable.find?_congr fun d hd => ?_
  obtain ⟨h, hh⟩ := SlotTable.mem_records.1 hd
  rw [sound.textAt_domain hh, hash_eq i hh]
  by_cases hname : d.name.text = name <;> simp [hname]

end

section
variable (sound : s.registry.Sound)
include sound

/-- The first byte hides no client. -/
theorem findClient?_eq_scan (address : String) :
    s.findClient? address = s.clients.find? fun c => s.pool.textAt c.address.offset == address := by
  refine SlotTable.find?_congr fun c hc => ?_
  obtain ⟨h, hh⟩ := SlotTable.mem_records.1 hc
  rw [(sound.textAt_client hh).1, Bool.eq_iff_iff, PooledText.spells_iff, beq_iff_eq]

theorem findForwarder?_eq_scan (address : String) (number : UInt16) :
    s.findForwarder? address number = s.forwarders.find? fun u =>
      u.number == number && s.pool.textAt u.address.offset == address := by
  refine SlotTable.find?_congr fun u hu => ?_
  obtain ⟨h, hh⟩ := SlotTable.mem_records.1 hu
  rw [sound.textAt_forwarder hh]

end

/-- No two live records of a kind have one key. -/
structure KeysDiffer (s : Store) : Prop where
  domains : s.domains.Unique fun d => s.pool.textAt d.name.offset
  clients : s.clients.Unique fun c => s.pool.textAt c.address.offset
  forwarders : s.forwarders.Unique fun u => (s.pool.textAt u.address.offset, u.number)
  decisions : s.decisions.Unique fun d => (d.domain, d.client, d.type)

/-- A record is found where it has the key, and the scan is one by text alone. -/
structure FindsByKey (s : Store) : Prop where
  domain : ∀ h name, s.findDomain? name = some h ↔ s.DomainAt h name
  client : ∀ h address, s.findClient? address = some h ↔ s.ClientAt h address
  forwarder : ∀ h address number,
    s.findForwarder? address number = some h ↔ s.ForwarderAt h address number
  decision : ∀ h domain client type,
    s.findDecision? domain client type = some h ↔ s.DecisionAt h domain client type
  domain_scan : ∀ name, s.findDomain? name =
    s.domains.find? fun d => s.pool.textAt d.name.offset == name
  client_scan : ∀ address, s.findClient? address =
    s.clients.find? fun c => s.pool.textAt c.address.offset == address
  forwarder_scan : ∀ address number, s.findForwarder? address number =
    s.forwarders.find? fun u => u.number == number && s.pool.textAt u.address.offset == address

theorem findsByKey (i : s.registry.Indexed) (sound : s.registry.Sound) : s.FindsByKey where
  domain _ _ := findDomain?_eq_some_iff i sound
  client _ _ := findClient?_eq_some_iff i sound
  forwarder _ _ _ := findForwarder?_eq_some_iff i sound
  decision _ _ _ _ := findDecision?_eq_some_iff i
  domain_scan := findDomain?_eq_scan i sound
  client_scan := findClient?_eq_scan sound
  forwarder_scan := findForwarder?_eq_scan sound

/-- Of two records with one key, only one could be found. -/
theorem FindsByKey.keysDiffer (f : s.FindsByKey) : s.KeysDiffer where
  domains h k a b ha hb heq := by
    have hh := (f.domain h _).2 ⟨a, ha, heq⟩
    have hk := (f.domain k _).2 ⟨b, hb, rfl⟩
    exact Option.some_inj.1 (hh.symm.trans hk)
  clients h k a b ha hb heq := by
    have hh := (f.client h _).2 ⟨a, ha, heq⟩
    have hk := (f.client k _).2 ⟨b, hb, rfl⟩
    exact Option.some_inj.1 (hh.symm.trans hk)
  forwarders h k a b ha hb heq := by
    obtain ⟨haddress, hnumber⟩ := Prod.mk.inj heq
    have hh := (f.forwarder h _ _).2 ⟨a, ha, haddress, hnumber⟩
    have hk := (f.forwarder k _ _).2 ⟨b, hb, rfl, rfl⟩
    exact Option.some_inj.1 (hh.symm.trans hk)
  decisions h k a b ha hb heq := by
    simp only [Prod.mk.injEq] at heq
    have hh := (f.decision h _ _ _).2 ⟨a, ha, heq⟩
    have hk := (f.decision k _ _ _).2 ⟨b, hb, rfl, rfl, rfl⟩
    exact Option.some_inj.1 (hh.symm.trans hk)

end Store

end Sinkhole
