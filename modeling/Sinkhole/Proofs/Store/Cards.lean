import Sinkhole.Proofs.Store.Registry

namespace Sinkhole

/-- A client without its counts and its alias-client. -/
def Client.bare (c : Client) : Client :=
  { c with count := 0, blocked := 0, history := [], manager := none }

namespace SlotTable

variable (t : SlotTable .client Client) (h m : Handle .client)

theorem bare_charge (δ : CountChange) : (t.charge h δ).map Client.bare = t.map Client.bare := by
  have hadjust : ∀ c : Client, (c.adjust δ).bare = c.bare := fun _ => rfl
  unfold charge
  split
  · split
    · rfl
    · split
      · rw [map_modify_eq _ hadjust, map_modify_eq _ hadjust]
      · rw [map_modify_eq _ hadjust]
  · rfl

theorem bare_released : (t.released h).map Client.bare = t.map Client.bare := by
  unfold released
  split
  · rename_i c _
    have hexpel : ∀ a : Client, (a.expel c).bare = a.bare := fun _ => rfl
    have hleave : ∀ a : Client, Client.bare { a with manager := none } = a.bare := fun _ => rfl
    split
    · rw [map_modify_eq _ hleave, map_modify_eq _ hexpel]
    · rfl
  · rfl

theorem bare_managed : (t.managed h m).map Client.bare = t.map Client.bare := by
  unfold managed
  split
  · rename_i c a _ _
    have habsorb : ∀ a : Client, (a.absorb c).bare = a.bare := fun _ => rfl
    have hjoin : ∀ a : Client, Client.bare { a with manager := some m } = a.bare := fun _ => rfl
    split
    · rfl
    · rw [map_modify_eq _ hjoin, map_modify_eq _ habsorb, bare_released]
  · rfl

theorem bare_dismissed : (t.dismissed h).map Client.bare = t.map Client.bare := by
  refine map_mapLive_eq _ (fun c => ?_) t
  unfold Client.dismiss
  split <;> rfl

theorem bare_withoutClient :
    (t.withoutClient h).map Client.bare = (t.map Client.bare).vacated h := by
  unfold withoutClient
  split
  · split
    · rw [vacated_map, bare_dismissed]
    · rw [vacated_map, bare_released]
  · rename_i hg
    have hc : (t.map Client.bare).contains h = false := by simp [contains, get?_map, hg]
    rw [vacated_of_not_contains hc]

section
variable {β : Type} {view : Client → β} (hview : ∀ c : Client, view c.bare = view c)
include hview

theorem map_bare (t : SlotTable .client Client) : (t.map Client.bare).map view = t.map view := by
  rw [map_map, funext hview]

theorem map_of_bare {t t' : SlotTable .client Client}
    (hbare : t'.map Client.bare = t.map Client.bare) : t'.map view = t.map view := by
  rw [← map_bare hview, hbare, map_bare hview]

theorem map_withoutClient_of_bare :
    (t.withoutClient h).map view = (t.map view).vacated h := by
  rw [← map_bare hview, bare_withoutClient, vacated_map, map_bare hview]

end

theorem map_card_of_bare {t t' : SlotTable .client Client}
    (hbare : t'.map Client.bare = t.map Client.bare) : t'.map Client.card = t.map Client.card :=
  map_of_bare (fun _ => rfl) hbare

theorem map_charge (δ : CountChange) : (t.charge h δ).map Client.card = t.map Client.card :=
  map_card_of_bare (bare_charge t h δ)

theorem map_released : (t.released h).map Client.card = t.map Client.card :=
  map_card_of_bare (bare_released t h)

theorem map_managed : (t.managed h m).map Client.card = t.map Client.card :=
  map_card_of_bare (bare_managed t h m)

theorem map_withoutClient :
    (t.withoutClient h).map Client.card = (t.map Client.card).vacated h :=
  map_withoutClient_of_bare t h fun _ => rfl

variable {t h} in
theorem contains_of_withoutClient {k : Handle .client} (hk : (t.withoutClient h).contains k) :
    t.contains k := by
  rw [← contains_map Client.card, map_withoutClient] at hk
  rw [← contains_map Client.card]
  exact contains_of_vacated hk

end SlotTable

namespace Store

open StoreM

variable {s : Store}

theorem registry_of_clients {t : SlotTable .client Client}
    (h : t.map Client.card = s.clients.map Client.card) :
    { s with clients := t }.registry = s.registry := by
  simp only [registry, h]

theorem registry_of_domains {t : SlotTable .domain Domain}
    (h : t.map Domain.card = s.domains.map Domain.card) :
    { s with domains := t }.registry = s.registry := by
  simp only [registry, h]

theorem registry_of_queries {t : SlotTable .query Query}
    (h : t.map Query.card = s.queries.map Query.card) :
    { s with queries := t }.registry = s.registry := by
  simp only [registry, h]

theorem registry_raise (e : Event) (s : Store) :
    ((raise e).run s).store.registry = s.registry := by
  rw [store_raise]
  rfl

theorem registry_slid (s : Store) (now : UInt64) : (s.slid now).registry = s.registry :=
  registry_of_clients (SlotTable.map_mapLive_eq Client.card (g := Client.foldHistory _)
    (fun _ => rfl) s.clients)

theorem registry_countDomain (s : Store) (domain : Handle .domain) (known : Bool) :
    { s with domains := s.domains.modify domain (·.addQuery known s.now) }.registry = s.registry :=
  registry_of_domains (SlotTable.map_modify_eq Domain.card (g := (·.addQuery known s.now))
    (fun _ => rfl) s.domains domain)

theorem registry_charge (s : Store) (h : Handle .client) (δ : CountChange) :
    { s with clients := s.clients.charge h δ }.registry = s.registry :=
  registry_of_clients (SlotTable.map_charge s.clients h δ)

theorem registry_arrivalCounted (s : Store) (client : Handle .client) (type : RecordType)
    (time : UInt64) (added : Bool) :
    (s.arrivalCounted client type time added).registry = s.registry := by
  have hnote : ∀ c : Client, (c.noteArrival time added).card = c.card := fun _ => rfl
  refine registry_of_clients ?_
  unfold arrivalCounted
  rw [SlotTable.map_modify_eq _ hnote, SlotTable.map_charge]

theorem registry_arrivalBooked (s : Store) (q : Query) (newDomain newClient : Bool) :
    (s.arrivalBooked q newDomain newClient).registry = s.registry := by
  rw [arrivalBooked, registry_arrivalCounted, registry_countDomain, registry_slid]

theorem registry_reclassified (s : Store) (query : Handle .query) (q : Query) (new : Status)
    (old : Option Status) : (s.reclassified query q new old).registry = s.registry := by
  have hstatus : ∀ q : Query, Query.card { q with status := new } = q.card := fun _ => rfl
  have hblocked : ∀ d : Domain, (d.addBlocked (blockedChange old new)).card = d.card :=
    fun _ => rfl
  simp only [registry, reclassified, blockedShifted, SlotTable.map_modify_eq _ hstatus,
    SlotTable.map_modify_eq _ hblocked, SlotTable.map_charge]

theorem registry_reclassify (s : Store) (query : Handle .query) (new : Status) (first : Bool) :
    ((reclassify query new first).run s).store.registry = s.registry := by
  cases hq : s.queries.get? query with
  | none => rw [store_reclassify_of_none s hq]
  | some q =>
    rw [store_reclassify_of_some s hq]
    split
    · rfl
    · exact registry_reclassified s query q new _

theorem registry_reclassifyCode (s : Store) (query : Handle .query) (code : Nat) (first : Bool) :
    ((reclassifyCode query code first).run s).store.registry = s.registry := by
  unfold reclassifyCode
  split
  · exact registry_reclassify s query _ first
  · rfl

theorem registry_noteReply (s : Store) (query : Handle .query) (reply : ReplyKind) :
    ((noteReply query reply).run s).store.registry = s.registry := by
  have hreply : ∀ q : Query, Query.card { q with reply } = q.card := fun _ => rfl
  cases hq : s.queries.get? query with
  | none => rw [store_noteReply_of_none s hq]
  | some q =>
    rw [store_noteReply_of_some s hq]
    split
    · rfl
    · exact registry_of_queries (SlotTable.map_modify_eq _ hreply s.queries query)

theorem registry_modifyQuery {f : Query → Query} (keeps : ∀ q, (f q).card = q.card) (s : Store)
    (query : Handle .query) : ((modifyQuery query f).run s).store.registry = s.registry :=
  registry_of_queries (SlotTable.map_modify_eq _ keeps s.queries query)

theorem registry_modifyForwarder {f : Store → Forwarder → Forwarder}
    (keeps : ∀ s u, (f s u).card = u.card) (s : Store) (forwarder : Handle .forwarder) :
    ((modifyForwarder forwarder f).run s).store.registry = s.registry := by
  change Store.registry { s with forwarders := s.forwarders.modify forwarder (f s) } = s.registry
  simp only [registry, SlotTable.map_modify_eq _ (keeps s)]

theorem registry_attachForwarder (s : Store) (query : Handle .query)
    (forwarder : Handle .forwarder) :
    ((attachForwarder query forwarder).run s).store.registry = s.registry := by
  have hquery : ∀ q : Query, Query.card { q with forwarder := some forwarder } = q.card :=
    fun _ => rfl
  have hforwarder : ∀ u : Forwarder, Forwarder.card { u with lastQuery := s.now } = u.card :=
    fun _ => rfl
  simp only [attachForwarder, run_bind, StoreM.run_get]
  split
  · simp only [run_bind, StoreM.run_modify, run_pure, registry,
      SlotTable.map_modify_eq _ hquery, SlotTable.map_modify_eq _ hforwarder]
  · rfl

theorem registry_attachDecision (s : Store) (query : Handle .query)
    (decision : Handle .decision) :
    ((attachDecision query decision).run s).store.registry = s.registry := by
  have hdecision : ∀ q : Query, Query.card { q with decision := some decision } = q.card :=
    fun _ => rfl
  simp only [attachDecision, run_bind, StoreM.run_get]
  split
  · exact registry_modifyQuery hdecision s query
  · rfl

theorem registry_noteVerdict (s : Store) (decision : Handle .decision) (verdict : Verdict)
    (list : Option Int64) :
    ((noteVerdict decision verdict list).run s).store.registry = s.registry := by
  have hverdict : ∀ d : Decision, Decision.card { d with verdict, list } = d.card := fun _ => rfl
  change Store.registry
    { s with decisions := s.decisions.modify decision ({ · with verdict, list }) } = s.registry
  simp only [registry, SlotTable.map_modify_eq _ hverdict]

theorem registry_forgetDecisions (s : Store) :
    ((forgetDecisions).run s).store.registry = s.registry := by
  have hforget : ∀ d : Decision, d.forget.card = d.card := fun _ => rfl
  have hgroups : ∀ c : Client, Client.card { c with groupsKnown := false } = c.card := fun _ => rfl
  change Store.registry { s with
    decisions := s.decisions.mapLive Decision.forget
    clients := s.clients.mapLive ({ · with groupsKnown := false }) } = s.registry
  simp only [registry, SlotTable.map_mapLive_eq _ hforget, SlotTable.map_mapLive_eq _ hgroups]

theorem registry_takeOver (lists : ListSource) (start : UInt64) (s : Store) :
    ((takeOver lists start).run s).store.registry = s.registry := by
  simp only [takeOver, run_bind, StoreM.run_get, StoreM.run_modify, store_foldlM_takeCount,
    store_orZero, run_notify, run_pure]
  rw [registry_forgetDecisions]
  rfl

end Store

end Sinkhole
