import Sinkhole.Proofs.Slot.Insertions
import Sinkhole.Proofs.Store.Newcomers

namespace Sinkhole

/-- A new record that has no host name yet. -/
inductive Birth where
  | forwarder (h : Handle .forwarder)
  | client (isAlias : Bool) (h : Handle .client)
  deriving DecidableEq, Repr

namespace Birth

/-- The events that a new record raises. A regular client asks for its filters too, unless the store
is starting. -/
def events (starting : Bool) : Birth → List Event
  | client false h => .resolveNames :: if starting then [] else [.reloadFilters h]
  | client true _ => [.resolveNames]
  | forwarder _ => [.resolveNames]

def forwarder? : Birth → Option (Handle .forwarder × Unit)
  | forwarder h => some (h, ())
  | client _ _ => none

def client? : Birth → Option (Handle .client × Bool)
  | forwarder _ => none
  | client isAlias h => some (h, isAlias)

def presenting (alias? : Option (Handle .client)) : List Birth :=
  alias?.toList.map (client true)

end Birth

/-- The births that one command can bring. -/
inductive Brood : List Birth → Prop where
  | none : Brood []
  | forwarder (h : Handle .forwarder) : Brood [.forwarder h]
  | aliasClient (h : Handle .client) : Brood [.client true h]
  | client (h : Handle .client) (alias? : Option (Handle .client)) :
      Brood (.client false h :: Birth.presenting alias?)

theorem brood_presenting (alias? : Option (Handle .client)) : Brood (Birth.presenting alias?) := by
  cases alias? with
  | none => exact .none
  | some m => exact .aliasClient m

namespace Store

open Attempt StoreM

variable {s s' s'' : Store} {births births' : List Birth}

/-- The clients and forwarders that live in `s'` and not in `s`, in slot order. -/
def birthsSince (s' s : Store) : List Birth :=
  (s'.forwarders.newSince s.forwarders).map (fun e => .forwarder e.1) ++
    (s'.clients.newSince s.clients).map fun e => .client e.2.isAlias e.1

def forwarderSlots (s : Store) : SlotTable .forwarder Unit :=
  s.forwarders.map fun _ => ()

def clientKinds (s : Store) : SlotTable .client Bool :=
  s.clients.map (·.isAlias)

theorem forwarderSlots_of_registry (h : s'.registry.forwarders = s.registry.forwarders) :
    s'.forwarderSlots = s.forwarderSlots := by
  have himage : ∀ s : Store, s.forwarderSlots = s.registry.forwarders.map fun _ => () := by
    intro s
    rw [registry, SlotTable.map_map]
    rfl
  rw [himage, himage, h]

theorem clientKinds_of_registry (h : s'.registry.clients = s.registry.clients) :
    s'.clientKinds = s.clientKinds := by
  have himage : ∀ s : Store, s.clientKinds = s.registry.clients.map (·.isAlias) := by
    intro s
    rw [registry, SlotTable.map_map]
    rfl
  rw [himage, himage, h]

structure Silent (s s' : Store) : Prop where
  events_eq : s'.events = s.events
  sink_eq : s'.sink = s.sink
  starting_eq : s'.starting = s.starting

/-- The births lead from `s` to `s'`, and what they raise is all that was raised. -/
structure Delivers (s : Store) (births : List Birth) (s' : Store) : Prop where
  forwarders : s.forwarderSlots.Inserts (births.filterMap Birth.forwarder?) s'.forwarderSlots
  clients : s.clientKinds.Inserts (births.filterMap Birth.client?) s'.clientKinds
  events_eq : s.sink = .keep →
    s'.events.toList = s.events.toList ++ births.flatMap (Birth.events s.starting)
  sink_eq : s'.sink = s.sink
  starting_eq : s'.starting = s.starting

namespace Delivers

theorem trans (d : Delivers s births s') (d' : Delivers s' births' s'') :
    Delivers s (births ++ births') s'' where
  forwarders := by
    rw [List.filterMap_append]
    exact d.forwarders.trans d'.forwarders
  clients := by
    rw [List.filterMap_append]
    exact d.clients.trans d'.clients
  events_eq hkeep := by
    rw [d'.events_eq (d.sink_eq.trans hkeep), d.events_eq hkeep, d.starting_eq, List.flatMap_append,
      List.append_assoc]
  sink_eq := d'.sink_eq.trans d.sink_eq
  starting_eq := d'.starting_eq.trans d.starting_eq

theorem of_silent (hsilent : Silent s s') (hforwarders : s'.forwarderSlots = s.forwarderSlots)
    (hclients : s'.clientKinds = s.clientKinds) : Delivers s [] s' where
  forwarders := by
    rw [hforwarders]
    exact .none
  clients := by
    rw [hclients]
    exact .none
  events_eq _ := by
    rw [hsilent.events_eq]
    simp
  sink_eq := hsilent.sink_eq
  starting_eq := hsilent.starting_eq

theorem of_registry (hsilent : Silent s s') (h : s'.registry = s.registry) : Delivers s [] s' :=
  of_silent hsilent (forwarderSlots_of_registry (congrArg Registry.forwarders h))
    (clientKinds_of_registry (congrArg Registry.clients h))

theorem refl (s : Store) : Delivers s [] s :=
  of_registry ⟨rfl, rfl, rfl⟩ rfl

theorem trans_nil (d : Delivers s births s') (d' : Delivers s' [] s'') : Delivers s births s'' := by
  have htrans := d.trans d'
  rwa [List.append_nil] at htrans

theorem nil_trans (d : Delivers s [] s') (d' : Delivers s' births s'') : Delivers s births s'' :=
  d.trans d'

theorem birthsSince_eq (d : Delivers s births s') (brood : Brood births)
    (hforwarders : s.forwarders.WellFormed) (hclients : s.clients.WellFormed) :
    s'.birthsSince s = births := by
  have hf := d.forwarders.newSince_eq ((SlotTable.wellFormed_map _).2 hforwarders)
  have hc := d.clients.newSince_eq ((SlotTable.wellFormed_map _).2 hclients)
  rw [forwarderSlots, forwarderSlots, SlotTable.newSince_map] at hf
  rw [clientKinds, clientKinds, SlotTable.newSince_map] at hc
  have hsince : s'.birthsSince s =
      (births.filterMap Birth.forwarder?).map (fun e => .forwarder e.1) ++
        (births.filterMap Birth.client?).map fun e => .client e.2 e.1 := by
    rw [← hf, ← hc, List.map_map, List.map_map]
    rfl
  rw [hsince]
  cases brood with
  | none => rfl
  | forwarder h => rfl
  | aliasClient h => rfl
  | client h alias? => cases alias? <;> rfl

end Delivers

theorem Delivers.of_pool (h : ∃ pool, s' = { s with pool }) : Delivers s [] s' := by
  obtain ⟨pool, rfl⟩ := h
  exact .of_silent ⟨rfl, rfl, rfl⟩ rfl rfl

/-- An attempt that brings nobody, whether or not it ends with a fault. -/
def Barren {α : Type} (x : Attempt α) (s : Store) : Prop :=
  Ensures x s (fun _ => Delivers s []) fun _ => Delivers s []

theorem Barren.bind {α β : Type} {x : Attempt α} {f : α → Attempt β} (hx : Barren x s)
    (hf : ∀ a s', Delivers s [] s' → Barren (f a) s') : Barren (x >>= f) s := by
  refine (ensures_bind x f).2 (hx.mono (fun _ _ d => d) fun a s' d => ?_)
  exact (hf a s' d).mono (fun _ _ d' => d.nil_trans d') fun _ _ d' => d.nil_trans d'

theorem barren_intern (text : String) (s : Store) : Barren (intern text) s := by
  rw [Barren, ensures_intern]
  split
  · exact .of_silent ⟨rfl, rfl, rfl⟩ rfl rfl
  · exact .refl s

/-- The births of one command lead from `s` to `s'`. There are none if what it asks for was known.
-/
def Begets (s : Store) (known : Bool) (s' : Store) : Prop :=
  ∃ births, Brood births ∧ Delivers s births s' ∧ (known → births = [])

namespace Begets

variable {known : Bool}

theorem nobody (d : Delivers s [] s') : Begets s known s' :=
  ⟨[], .none, d, fun _ => rfl⟩

theorem of_unknown {K : Kind} {found : Option (Handle K)} (hf : found = none)
    (brood : Brood births) (d : Delivers s births s') : Begets s found.isSome s' := by
  refine ⟨births, brood, d, fun hknown => ?_⟩
  rw [hf] at hknown
  cases hknown

theorem trans_nil (b : Begets s known s') (d : Delivers s' [] s'') : Begets s known s'' := by
  obtain ⟨births, brood, d', hknown⟩ := b
  exact ⟨births, brood, d'.trans_nil d, hknown⟩

end Begets

/-! ### One record -/

theorem toList_eventsAfter (hkeep : s.sink = .keep) (e : Event) :
    (s.eventsAfter e).toList = s.events.toList ++ [e] := by
  rw [eventsAfter, if_pos hkeep]
  exact Array.toList_push

section
variable {address : String} {isAlias : Bool} {n : Int64} {h : Handle .client}

theorem delivers_newcomer {placed : PooledText} {pool : TextPool} {t : SlotTable .client Client}
    {events : Array Event} (put : s.clients.insert (s.newcomer placed isAlias n) = .ok (h, t))
    (hevents : s.sink = .keep →
      events.toList = s.events.toList ++ Birth.events s.starting (.client isAlias h)) :
    Delivers s [.client isAlias h] { s with pool, clients := t, events } where
  forwarders := .none
  clients := .single (SlotTable.insert_map Client.isAlias put)
  events_eq hkeep := by
    rw [List.flatMap_singleton]
    exact hevents hkeep
  sink_eq := rfl
  starting_eq := rfl

theorem Seated.aliasClient (a : Seated s address true n h s') :
    Delivers s [.client true h] s' := by
  obtain ⟨-, put⟩ := a
  exact delivers_newcomer put fun hkeep => toList_eventsAfter hkeep _

theorem Seated.regular (a : Seated s address false n h s') {events : Array Event}
    (hevents : s.sink = .keep →
      events.toList = s'.events.toList ++ if s.starting then [] else [.reloadFilters h]) :
    Delivers s [.client false h] { s' with events } := by
  obtain ⟨-, put⟩ := a
  refine delivers_newcomer put fun hkeep => ?_
  rw [hevents hkeep, toList_eventsAfter hkeep, List.append_assoc]
  rfl

theorem Seated.sink_eq (a : Seated s address isAlias n h s') : s'.sink = s.sink := by
  obtain ⟨-, -⟩ := a
  rfl

theorem Seated.starting_eq (a : Seated s address isAlias n h s') : s'.starting = s.starting := by
  obtain ⟨-, -⟩ := a
  rfl

end

/-! ### Clients and those that they bring -/

theorem delivers_release (client : Handle .client) (s : Store) :
    Delivers s [] ((release client).run s).store := by
  rw [store_release]
  exact .of_registry ⟨rfl, rfl, rfl⟩ (registry_of_clients (SlotTable.map_released _ _))

theorem delivers_manage (client manager : Handle .client) (s : Store) :
    Delivers s [] ((manage client manager).run s).store := by
  rw [store_manage]
  exact .of_registry ⟨rfl, rfl, rfl⟩ (registry_of_clients (SlotTable.map_managed _ _ _))

theorem delivers_aliasFor (address : String) (s : Store) :
    Ensures (aliasFor address) s (fun _ => Delivers s []) fun _ s' =>
      ∃ alias?, Delivers s (Birth.presenting alias?) s' := by
  simp only [aliasFor, ensures_bind, ensures_get]
  split
  · exact ⟨none, .refl s⟩
  · exact (seated_addRecord address true false s).mono (fun _ _ f => .of_pool f.2)
      fun m _ a => ⟨some m, a.aliasClient⟩

theorem delivers_followDirectory (client : Handle .client) (s : Store) :
    Ensures (followDirectory client) s (fun _ => Delivers s []) fun _ s' =>
      ∃ alias?, Delivers s (Birth.presenting alias?) s' := by
  simp only [followDirectory, ensures_bind, ensures_get]
  split
  · split
    · exact ⟨none, .refl s⟩
    · split
      · simp only [ensures_discard, ensures_liftM]
        exact ⟨none, delivers_release client s⟩
      · rename_i key _
        simp only [ensures_bind]
        refine (delivers_aliasFor key s).mono (fun _ _ d => d) ?_
        rintro manager s' ⟨alias?, d⟩
        have hmanaged := d.trans_nil (delivers_manage client manager s')
        simp only [ensures_liftM]
        split
        · exact ⟨alias?, hmanaged⟩
        · exact ⟨alias?, hmanaged⟩
  · exact ⟨none, .refl s⟩

/-- The client has raised its events before its alias-client comes, and also where none can. -/
theorem delivers_addClient (address : String) (counted : Bool) (s : Store) :
    Ensures (addClient address counted) s (fun _ => Delivers s []) fun h s' =>
      ∃ alias?, Delivers s (.client false h :: Birth.presenting alias?) s' := by
  refine (ensures_addClient_iff address counted).2 ?_
  refine (seated_addRecord address false counted s).mono (fun _ _ f => .of_pool f.2)
    fun h s₁ a => ?_
  have d : Delivers s [.client false h] { s₁ with events := s₁.eventsFiltering h } := by
    refine a.regular fun hkeep => ?_
    simp only [eventsFiltering, a.starting_eq]
    split
    · simp
    · exact toList_eventsAfter (a.sink_eq.trans hkeep) _
  refine (delivers_followDirectory h _).mono (fun _ s' d' => ⟨none, d.trans d'⟩) ?_
  rintro _ s' ⟨alias?, d'⟩
  exact ⟨alias?, d.trans d'⟩

theorem delivers_clientFor (address : String) (s : Store) :
    Ensures (clientFor address) s (fun _ => Delivers s []) fun _ =>
      Begets s (s.findClient? address).isSome := by
  simp only [clientFor, ensures_bind, ensures_get]
  split
  · exact .nobody (.refl s)
  · rename_i hf
    simp only [ensures_bind, ensures_pure]
    refine (delivers_addClient address false s).mono (fun _ _ d => d) ?_
    rintro h s' ⟨alias?, d⟩
    exact .of_unknown hf (.client h alias?) d

theorem delivers_enrolClient (address : String) (counted isAlias : Bool) (s : Store) :
    Ensures (enrolClient address counted isAlias) s (fun _ => Delivers s []) fun _ =>
      Begets s (s.findClient? address).isSome := by
  simp only [enrolClient, ensures_bind, ensures_get]
  split
  · rename_i h _
    -- Counting the call raises nothing.
    have hcharged : Delivers s [] ((adjustClient h { total := 1 }).run s).store := by
      rw [store_adjustClient]
      exact .of_registry ⟨rfl, rfl, rfl⟩ (registry_charge s h _)
    split
    · simp only [ensures_bind, ensures_discard, ensures_liftM, ensures_pure]
      exact .nobody hcharged
    · exact .nobody (.refl s)
  · rename_i hf
    split
    · simp only [ensures_bind, ensures_pure]
      exact (seated_addRecord address true false s).mono (fun _ _ f => .of_pool f.2)
        fun h _ a => .of_unknown hf (.aliasClient h) a.aliasClient
    · split
      · simp only [ensures_bind, ensures_pure]
        refine (delivers_addClient address true s).mono (fun _ _ d => d) ?_
        rintro h s' ⟨alias?, d⟩
        exact .of_unknown hf (.client h alias?) d
      · exact .nobody (.refl s)

theorem delivers_describe (client : Handle .client) {f : Client → Client}
    (keeps : ∀ c, (f c).isAlias = c.isAlias) (s : Store) :
    Delivers s [] { s with clients := s.clients.modify client f } :=
  .of_silent ⟨rfl, rfl, rfl⟩ rfl (SlotTable.map_modify_eq Client.isAlias keeps s.clients client)

theorem delivers_assignHardware (client : Handle .client) (hardware : HardwareAddress)
    (interface : String) (s : Store) :
    Ensures (assignHardware client hardware interface) s (fun _ => Delivers s []) fun _ s' =>
      ∃ alias?, Delivers s (Birth.presenting alias?) s' := by
  simp only [assignHardware, ensures_bind, ensures_get]
  split
  · simp only [ensures_bind]
    refine (barren_intern interface s).mono (fun _ _ d => d) fun placed s₁ d₁ => ?_
    let f : Client → Client :=
      ({ · with hardware := some hardware, interface := placed, sinceScan := 0 })
    have d₂ : Delivers s [] { s₁ with clients := s₁.clients.modify client f } :=
      d₁.trans_nil (delivers_describe client (f := f) (fun _ => rfl) s₁)
    simp only [ensures_modify, ensures_pure]
    refine (delivers_followDirectory client _).mono (fun _ _ d => d₂.nil_trans d) ?_
    rintro _ s' ⟨alias?, d⟩
    exact ⟨alias?, d₂.nil_trans d⟩
  · exact ⟨none, .refl s⟩

/-! ### Forwarders -/

theorem delivers_enrolForwarder (address : String) (number : UInt16) (s : Store) :
    Ensures (enrolForwarder address number) s (fun _ => Delivers s []) fun _ =>
      Begets s (s.findForwarder? address number).isSome := by
  simp only [enrolForwarder, ensures_bind, ensures_get]
  split
  · exact .nobody (.refl s)
  · rename_i hf
    simp only [ensures_bind]
    rw [ensures_intern]
    split
    · rename_i placed pool _
      simp only [ensures_get, ensures_ofTable]
      split
      · rename_i h t put
        simp only [ensures_liftM, run_notify, ensures_pure, store_raise]
        refine .of_unknown hf (.forwarder h) ?_
        exact
          { forwarders := .single (SlotTable.insert_map (fun _ => ()) put)
            clients := .none
            events_eq := fun hkeep => toList_eventsAfter hkeep _
            sink_eq := rfl
            starting_eq := rfl }
      · -- The text stays in the pool, but no one is born of that.
        exact .of_silent ⟨rfl, rfl, rfl⟩ rfl rfl
    · exact .refl s

/-! ### Queries -/

theorem delivers_reclassify (query : Handle .query) (new : Status) (first : Bool) (s : Store) :
    Delivers s [] ((reclassify query new first).run s).store := by
  refine .of_registry ?_ (registry_reclassify s query new first)
  cases hq : s.queries.get? query with
  | none =>
    rw [store_reclassify_of_none s hq]
    exact ⟨rfl, rfl, rfl⟩
  | some q =>
    rw [store_reclassify_of_some s hq]
    split <;> exact ⟨rfl, rfl, rfl⟩

theorem barren_domainFor (name : String) (s : Store) : Barren (domainFor name) s := by
  refine (placed_domainFor name s).mono (fun _ _ f => .of_pool f.2) fun r s' met => ?_
  cases met with
  | known => exact .refl s
  | added => exact .of_silent ⟨rfl, rfl, rfl⟩ rfl rfl

/-- A query that is refused after its client came leaves the client. -/
theorem delivers_recordQuery (new : Arrival) (s : Store) :
    Ensures (recordQuery new) s (fun _ => Begets s (s.findClient? new.client).isSome)
      fun _ => Begets s (s.findClient? new.client).isSome := by
  refine (ensures_recordQuery_iff new).2 ?_
  split
  · refine (delivers_clientFor new.client s).mono (fun _ _ d => .nobody d) ?_
    rintro ⟨client, newClient⟩ s₁ b₁
    refine (barren_domainFor new.domain s₁).mono (fun _ _ d₂ => b₁.trans_nil d₂) ?_
    rintro ⟨domain, newDomain⟩ s₂ d₂
    have b := b₁.trans_nil d₂
    intro q
    split
    · -- All that follows is counting.
      refine (b.trans_nil (.of_silent ?_ ?_ ?_)).trans_nil (delivers_reclassify ..)
      · exact ⟨rfl, rfl, rfl⟩
      · rfl
      · refine clientKinds_of_registry ?_
        rw [registry_arrivalBooked]
        rfl
    · exact b
  · exact .nobody (.refl s)

end Store

end Sinkhole
