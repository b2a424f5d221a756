import Sinkhole.Proofs.Store.Births

namespace Sinkhole

namespace Birth

/-- Only a regular client asks for its filters, and only where the store is not starting. -/
theorem reloadFilters_mem_iff {births : List Birth} {starting : Bool} {h : Handle .client} :
    .reloadFilters h ∈ births.flatMap (events starting) ↔
      starting = false ∧ client false h ∈ births := by
  have hone : ∀ b : Birth,
      .reloadFilters h ∈ events starting b ↔ starting = false ∧ b = client false h := by
    intro b
    rcases b with u | ⟨_ | _, k⟩
    · simp [events]
    · cases starting <;> simp [events, eq_comm]
    · simp [events]
  simp only [List.mem_flatMap, hone]
  constructor
  · rintro ⟨b, hb, hstarting, rfl⟩
    exact ⟨hstarting, hb⟩
  · rintro ⟨hstarting, hb⟩
    exact ⟨_, hb, hstarting, rfl⟩

end Birth

theorem Brood.count_reloadFilters_le {births : List Birth} (brood : Brood births) (starting : Bool)
    (h : Handle .client) :
    (births.flatMap (Birth.events starting)).count (.reloadFilters h) ≤ 1 := by
  cases brood with
  | none => simp
  | forwarder => simp [Birth.events]
  | aliasClient => simp [Birth.events]
  | client k alias? =>
    have hfirst : (Birth.events starting (.client false k)).count (.reloadFilters h) ≤ 1 := by
      cases starting
      · by_cases hk : k = h <;> simp [Birth.events, hk]
      · simp [Birth.events]
    have hrest : ((Birth.presenting alias?).flatMap (Birth.events starting)).count
        (.reloadFilters h) = 0 := by
      cases alias? <;> simp [Birth.presenting, Birth.events]
    rw [List.flatMap_cons, List.count_append, hrest]
    exact hfirst

namespace Command

def births (c : Command) (s : Store) : List Birth :=
  (c.apply s).birthsSince s

/-- The events that the births of a command raise. -/
def announced (c : Command) (s : Store) : List Event :=
  (c.births s).flatMap (Birth.events s.starting)

def announcements : List Command → Store → List Event
  | [], _ => []
  | c :: cs, s => c.announced s ++ announcements cs (c.apply s)

/-- The commands that may add a client or a forwarder. -/
def addsRecords : Command → Bool
  | enrolClient .. | enrolForwarder .. | recordQuery _ | assignHardware ..
  | followDirectory _ => true
  | _ => false

/-- Whether the client or the forwarder that a command asks for is there. -/
def finds (s : Store) : Command → Bool
  | enrolClient address .. => (s.findClient? address).isSome
  | enrolForwarder address number => (s.findForwarder? address number).isSome
  | recordQuery new => (s.findClient? new.client).isSome
  | _ => false

end Command

namespace Store

open Attempt StoreM Registry

variable {α β : Type} {s s' : Store} {births : List Birth}

/-- What a command does to the events of a store, whatever sink it has. -/
structure Bears (s : Store) (c : Command) : Prop where
  events_eq : s.sink = .keep → (c.apply s).events.toList = s.events.toList ++ c.announced s
  sink_eq : (c.apply s).sink = s.sink
  brood : Brood (c.births s)
  delivers : c.addsRecords → Delivers s (c.births s) (c.apply s)
  bystander : c.addsRecords = false → c.births s = []
  matched : c.finds s → c.births s = []
  refused : ∀ fault, c.answer s = .error fault → (∀ new, c ≠ .recordQuery new) → c.births s = []

/-! ### Commands that add no record -/

theorem delivers_of_action {c : Command} {x : StoreM α} {f : α → Answer}
    (hc : c.perform = f <$> (liftM x : Attempt α)) (d : Delivers s [] (x.run s).store) :
    Delivers s [] (c.apply s) := by
  rw [apply_eq hc]
  exact d

theorem delivers_of_attempt {c : Command} {x : Attempt α} {f : α → Answer}
    (hc : c.perform = f <$> x) (h : Barren x s) : Delivers s [] (c.apply s) := by
  rw [Command.apply, hc]
  exact Ensures.store (P := Delivers s []) ((ensures_map f x).2 h)

theorem delivers_modifyQuery (query : Handle .query) (f : Query → Query) (s : Store) :
    Delivers s [] ((modifyQuery query f).run s).store :=
  .of_silent ⟨rfl, rfl, rfl⟩ rfl rfl

theorem delivers_modifyForwarder (forwarder : Handle .forwarder) (f : Store → Forwarder → Forwarder)
    (s : Store) : Delivers s [] ((modifyForwarder forwarder f).run s).store :=
  .of_silent ⟨rfl, rfl, rfl⟩
    (SlotTable.map_modify_eq (fun _ => ()) (fun _ => rfl) s.forwarders forwarder) rfl

theorem delivers_reclassifyCode (query : Handle .query) (code : Nat) (first : Bool) (s : Store) :
    Delivers s [] ((reclassifyCode query code first).run s).store := by
  unfold reclassifyCode
  split
  · exact delivers_reclassify query _ first s
  · exact .refl s

theorem delivers_noteReply (query : Handle .query) (reply : ReplyKind) (s : Store) :
    Delivers s [] ((noteReply query reply).run s).store := by
  cases hq : s.queries.get? query with
  | none =>
    rw [store_noteReply_of_none s hq]
    exact .refl s
  | some q =>
    rw [store_noteReply_of_some s hq]
    split
    · exact .refl s
    · exact .of_silent ⟨rfl, rfl, rfl⟩ rfl rfl

theorem delivers_attachForwarder (query : Handle .query) (forwarder : Handle .forwarder)
    (s : Store) : Delivers s [] ((attachForwarder query forwarder).run s).store := by
  refine .of_registry ?_ (registry_attachForwarder s query forwarder)
  simp only [attachForwarder, run_bind, StoreM.run_get]
  split <;> exact ⟨rfl, rfl, rfl⟩

theorem delivers_attachDecision (query : Handle .query) (decision : Handle .decision) (s : Store) :
    Delivers s [] ((attachDecision query decision).run s).store := by
  simp only [attachDecision, run_bind, StoreM.run_get]
  split
  · exact delivers_modifyQuery query _ s
  · exact .refl s

theorem delivers_forgetDecisions (s : Store) :
    Delivers s [] ((forgetDecisions).run s).store :=
  .of_registry ⟨rfl, rfl, rfl⟩ (registry_forgetDecisions s)

theorem delivers_removeQuery (query : Handle .query) (s : Store) :
    Delivers s [] ((removeQuery query).run s).store := by
  cases hq : s.queries.vacate? query with
  | none =>
    rw [store_removeQuery_of_none s hq]
    exact .refl s
  | some r =>
    rw [store_removeQuery_of_some s hq]
    refine .of_silent ⟨rfl, rfl, rfl⟩ rfl (clientKinds_of_registry ?_)
    exact SlotTable.map_charge ..

theorem barren_enrolDomain (name : String) (counted : Bool) (s : Store) :
    Barren (enrolDomain name counted) s := by
  refine (barren_domainFor name s).bind fun r s' _ => ?_
  cases counted with
  | false => exact .refl s'
  | true => exact .of_silent ⟨rfl, rfl, rfl⟩ rfl rfl

theorem barren_enrolDecision (domain : Handle .domain) (client : Handle .client)
    (type : RecordType) (create : Bool) (s : Store) :
    Barren (enrolDecision domain client type create) s := by
  simp only [enrolDecision, Barren, ensures_bind, ensures_get]
  split
  · exact .refl s
  · split
    · simp only [ensures_bind, ensures_get, ensures_ofTable]
      split
      · exact .of_silent ⟨rfl, rfl, rfl⟩ rfl rfl
      · exact .refl s
    · exact .refl s

theorem barren_attachCname (query : Handle .query) (target : String) (s : Store) :
    Barren (attachCname query target) s := by
  simp only [attachCname, Barren, ensures_bind, ensures_get]
  split
  · refine (barren_enrolDomain target false s).bind fun domain s' _ => ?_
    rw [Barren, ensures_liftM]
    exact delivers_modifyQuery query _ s'
  · exact .refl s

theorem barren_nameClient (client : Handle .client) (name : String) (s : Store) :
    Barren (nameClient client name) s := by
  simp only [nameClient, Barren, ensures_bind, ensures_get]
  split
  · refine (barren_intern name s).bind fun placed s' _ => ?_
    simp only [Barren, ensures_bind, ensures_modify, ensures_pure]
    refine delivers_describe client ?_ s'
    exact fun _ => rfl
  · exact .refl s

theorem barren_assignGroups (client : Handle .client) (groups : String) (s : Store) :
    Barren (assignGroups client groups) s := by
  simp only [assignGroups, Barren, ensures_bind, ensures_get]
  split
  · refine (barren_intern groups s).bind fun placed s' _ => ?_
    simp only [Barren, ensures_bind, ensures_modify, ensures_pure]
    refine delivers_describe client ?_ s'
    exact fun _ => rfl
  · exact .refl s

theorem barren_nameForwarder (forwarder : Handle .forwarder) (name : String) (s : Store) :
    Barren (nameForwarder forwarder name) s := by
  simp only [nameForwarder, Barren, ensures_bind, ensures_get]
  split
  · refine (barren_intern name s).bind fun placed s' _ => ?_
    simp only [Barren, ensures_bind, ensures_modify, ensures_pure]
    refine .of_silent ⟨rfl, rfl, rfl⟩ ?_ rfl
    exact SlotTable.map_modify_eq (fun _ => ()) (fun _ => rfl) s'.forwarders forwarder
  · exact .refl s

theorem barren_reload (lists : ListSource) (s : Store) : Barren (reload lists) s := by
  have hawait : Delivers s [] ((await lists).run s).store := .of_silent ⟨rfl, rfl, rfl⟩ rfl rfl
  simp only [reload, Barren, ensures_bind, ensures_get, ensures_liftM, ensures_tryCatch,
    ensures_consult]
  split
  · refine hawait.trans_nil (.of_registry ?_ (registry_takeOver lists s.now _))
    simp only [takeOver, run_bind, StoreM.run_get, StoreM.run_modify, store_foldlM_takeCount,
      store_orZero, run_notify, run_pure]
    exact ⟨rfl, rfl, rfl⟩
  · simp only [run_notify, ensures_throw]
    exact hawait

theorem barren_refresh (lists : ListSource) (s : Store) : Barren (refresh lists) s :=
  (barren_reload lists s).bind fun _ s' _ => .refl s'

/-! ### Every command -/

/-- Where no client and no forwarder is new, and no event was raised. -/
theorem bears_nobody {c : Command} (hadds : c.addsRecords = false)
    (hevents : (c.apply s).events = s.events)
    (hsink : (c.apply s).sink = s.sink)
    (hforwarders : ∀ k, (c.apply s).forwarders.contains k → s.forwarders.contains k)
    (hclients : ∀ k, (c.apply s).clients.contains k → s.clients.contains k) : Bears s c := by
  -- A birth would be a record that was not there before.
  have hbirths : c.births s = [] := by
    rw [Command.births, birthsSince, SlotTable.newSince_eq_nil hforwarders,
      SlotTable.newSince_eq_nil hclients]
    rfl
  exact
    { events_eq := fun _ => by simp [hevents, Command.announced, hbirths]
      sink_eq := hsink
      brood := hbirths ▸ .none
      delivers := fun hc => by
        rw [hadds] at hc
        cases hc
      bystander := fun _ => hbirths
      matched := fun _ => hbirths
      refused := fun _ _ _ => hbirths }

section
variable (i : Ready Set.univ s)
include i

theorem bears_of_delivers {c : Command} (brood : Brood births)
    (d : Delivers s births (c.apply s)) (hbystander : c.addsRecords = false → births = [])
    (hmatched : c.finds s → births = [])
    (hrefused : ∀ fault, c.answer s = .error fault → (∀ new, c ≠ .recordQuery new) → births = []) :
    Bears s c := by
  have hbirths : c.births s = births :=
    d.birthsSince_eq brood ((SlotTable.wellFormed_map Forwarder.card).1 i.sound.forwarders)
      ((SlotTable.wellFormed_map Client.card).1 i.sound.clients)
  rw [← hbirths] at brood d hbystander hmatched hrefused
  exact
    { events_eq := d.events_eq
      sink_eq := d.sink_eq
      brood := brood
      delivers := fun _ => d
      bystander := hbystander
      matched := hmatched
      refused := hrefused }

theorem bears_of_silent {c : Command} (d : Delivers s [] (c.apply s)) : Bears s c :=
  bears_of_delivers i .none d (fun _ => rfl) (fun _ => rfl) fun _ _ _ => rfl

theorem bears_of_attempt {c : Command} {x : Attempt α} {f : α → Answer}
    (hc : c.perform = f <$> x) (hadds : c.addsRecords)
    (h : Ensures x s (fun _ => Delivers s []) fun _ => Begets s (c.finds s)) : Bears s c := by
  have houtcome : Ensures c.perform s (fun _ => Delivers s []) fun _ => Begets s (c.finds s) := by
    rw [hc, ensures_map]
    exact h
  cases hanswer : c.answer s with
  | error fault => exact bears_of_silent i (houtcome.of_error hanswer)
  | ok a =>
    obtain ⟨births, brood, d, hmatched⟩ := houtcome.of_ok hanswer
    refine bears_of_delivers i brood d (fun hno => ?_) hmatched fun fault hfault => ?_
    · rw [hadds] at hno
      cases hno
    · rw [hanswer] at hfault
      cases hfault

theorem bears_recordQuery (new : Arrival) : Bears s (.recordQuery new) := by
  have h : Ensures (Command.recordQuery new).perform s
      (fun _ => Begets s (s.findClient? new.client).isSome)
      fun _ => Begets s (s.findClient? new.client).isSome :=
    (ensures_map Answer.query _).2 (delivers_recordQuery new s)
  obtain ⟨births, brood, d, hmatched⟩ := h.store
  exact bears_of_delivers i brood d nofun hmatched fun _ _ hno => absurd rfl (hno new)

theorem bears (c : Command) : Bears s c := by
  cases c with
  | setClock | moveClock | setPrivacy | setDirectory =>
    exact bears_of_silent i (.of_silent ⟨rfl, rfl, rfl⟩ rfl rfl)
  | setStarting on => exact bears_nobody rfl rfl rfl (fun _ hk => hk) fun _ hk => hk
  | slideTo now =>
    refine bears_of_silent i (delivers_of_action (f := .number) rfl ?_)
    rw [store_slideTo]
    exact .of_registry ⟨rfl, rfl, rfl⟩ (registry_slid s now)
  | enrolDomain name counted =>
    exact bears_of_silent i (delivers_of_attempt (f := .domain) rfl
      (barren_enrolDomain name counted s))
  | enrolClient address counted isAlias =>
    exact bears_of_attempt i (f := .client) rfl rfl
      (delivers_enrolClient address counted isAlias s)
  | enrolForwarder address number =>
    exact bears_of_attempt i (f := .forwarder) rfl rfl (delivers_enrolForwarder address number s)
  | enrolDecision domain client type create =>
    exact bears_of_silent i (delivers_of_attempt (f := .decision) rfl
      (barren_enrolDecision domain client type create s))
  | recordQuery new => exact bears_recordQuery i new
  | reclassify query status first =>
    exact bears_of_silent i (delivers_of_action (f := .flag) rfl
      (delivers_reclassify query status first s))
  | reclassifyCode query code first =>
    exact bears_of_silent i (delivers_of_action (f := .flag) rfl
      (delivers_reclassifyCode query code first s))
  | noteReply query reply =>
    exact bears_of_silent i (delivers_of_action (f := .flag) rfl
      (delivers_noteReply query reply s))
  | attachForwarder query forwarder =>
    exact bears_of_silent i (delivers_of_action (f := .flag) rfl
      (delivers_attachForwarder query forwarder s))
  | attachDecision query decision =>
    exact bears_of_silent i (delivers_of_action (f := .flag) rfl
      (delivers_attachDecision query decision s))
  | attachCname query target =>
    exact bears_of_silent i (delivers_of_attempt (f := .flag) rfl
      (barren_attachCname query target s))
  | noteValidation query validation =>
    exact bears_of_silent i (delivers_of_action (f := .flag) rfl (delivers_modifyQuery query _ s))
  | noteResponseTime query ms =>
    exact bears_of_silent i (delivers_of_action (f := .flag) rfl (delivers_modifyQuery query _ s))
  | nameClient client name =>
    exact bears_of_silent i (delivers_of_attempt (f := .flag) rfl
      (barren_nameClient client name s))
  | assignGroups client groups =>
    exact bears_of_silent i (delivers_of_attempt (f := .flag) rfl
      (barren_assignGroups client groups s))
  | assignHardware client hardware interface =>
    refine bears_of_attempt i (f := .flag) rfl rfl ?_
    refine (delivers_assignHardware client hardware interface s).mono (fun _ _ d => d) ?_
    rintro _ s' ⟨alias?, d⟩
    exact ⟨_, brood_presenting alias?, d, nofun⟩
  | adjustClient client δ =>
    refine bears_of_silent i (delivers_of_action (f := .flag) rfl ?_)
    rw [store_adjustClient]
    exact .of_registry ⟨rfl, rfl, rfl⟩ (registry_charge s client δ)
  | manage client manager =>
    exact bears_of_silent i (delivers_of_action (f := .flag) rfl
      (delivers_manage client manager s))
  | release client =>
    exact bears_of_silent i (delivers_of_action (f := .flag) rfl (delivers_release client s))
  | followDirectory client =>
    refine bears_of_attempt i (f := fun _ => .done) rfl rfl ?_
    refine (delivers_followDirectory client s).mono (fun _ _ d => d) ?_
    rintro _ s' ⟨alias?, d⟩
    exact ⟨_, brood_presenting alias?, d, nofun⟩
  | nameForwarder forwarder name =>
    exact bears_of_silent i (delivers_of_attempt (f := .flag) rfl
      (barren_nameForwarder forwarder name s))
  | noteResponse forwarder ms =>
    exact bears_of_silent i (delivers_of_action (f := .flag) rfl
      (delivers_modifyForwarder forwarder _ s))
  | noteFailure forwarder =>
    exact bears_of_silent i (delivers_of_action (f := .flag) rfl
      (delivers_modifyForwarder forwarder _ s))
  | noteVerdict decision verdict list =>
    refine bears_of_silent i (delivers_of_action (f := .flag) rfl ?_)
    exact .of_registry ⟨rfl, rfl, rfl⟩ (registry_noteVerdict s decision verdict list)
  | forgetDecisions =>
    exact bears_of_silent i (delivers_of_action (f := .number) rfl (delivers_forgetDecisions s))
  | removeQuery query =>
    exact bears_of_silent i (delivers_of_action (f := .flag) rfl (delivers_removeQuery query s))
  | removeDomain h =>
    refine bears_of_silent i (delivers_of_action (f := .flag) rfl ?_)
    rw [(run_removeDomain s h).2]
    exact .of_silent ⟨rfl, rfl, rfl⟩ rfl rfl
  | removeClient h =>
    have hstore : (Command.removeClient h).apply s =
        { s with clients := s.clients.withoutClient h } := (run_removeClient s h).2
    refine bears_nobody rfl ?_ ?_ ?_ ?_ <;> rw [hstore]
    · exact fun _ hk => hk
    · exact fun _ hk => SlotTable.contains_of_withoutClient hk
  | removeForwarder h =>
    have hstore : (Command.removeForwarder h).apply s =
        { s with forwarders := s.forwarders.vacated h } := store_removeFrom s _ rfl h
    refine bears_nobody rfl ?_ ?_ ?_ ?_ <;> rw [hstore]
    · exact fun _ hk => SlotTable.contains_of_vacated hk
    · exact fun _ hk => hk
  | removeDecision h =>
    refine bears_of_silent i (delivers_of_action (f := .flag) rfl ?_)
    have hstore : ((removeDecision h).run s).store =
        { s with decisions := s.decisions.vacated h } := store_removeFrom s _ rfl h
    rw [hstore]
    exact .of_silent ⟨rfl, rfl, rfl⟩ rfl rfl
  | reload lists =>
    exact bears_of_silent i (delivers_of_attempt (f := .report) rfl (barren_reload lists s))
  | refresh lists =>
    exact bears_of_silent i (delivers_of_attempt (f := .report) rfl (barren_refresh lists s))

end

/-! ### Every run -/

theorem events_runAll (i : Ready Set.univ s) (hkeep : s.sink = .keep) (commands : List Command) :
    (Command.runAll commands s).sink = .keep ∧ (Command.runAll commands s).events.toList =
      s.events.toList ++ Command.announcements commands s := by
  induction commands generalizing s with
  | nil => exact ⟨hkeep, (List.append_nil _).symm⟩
  | cons c cs ih =>
    have hstep := bears i c
    obtain ⟨hsink, hevents⟩ := ih (i.apply c) (hstep.sink_eq.trans hkeep)
    refine ⟨hsink, ?_⟩
    rw [hstep.events_eq hkeep, List.append_assoc] at hevents
    exact hevents

/-- A command raises the events of its births. These are the clients and the forwarders that live
after it and did not live before, in the order in which they were put in. -/
structure Announces (s : Store) (c : Command) : Prop where
  events_eq : (c.apply s).events.toList = s.events.toList ++ c.announced s
  brood : Brood (c.births s)
  inserted : c.addsRecords → s.clientKinds.Inserts ((c.births s).filterMap Birth.client?)
    (c.apply s).clientKinds
  client_iff : ∀ isAlias h, .client isAlias h ∈ c.births s ↔ s.clients.contains h = false ∧
    ∃ a, (c.apply s).clients.get? h = some a ∧ a.isAlias = isAlias
  forwarder_iff : ∀ h, .forwarder h ∈ c.births s ↔ s.forwarders.contains h = false ∧
    (c.apply s).forwarders.contains h
  reload_iff : ∀ h, .reloadFilters h ∈ c.announced s ↔
    s.starting = false ∧ .client false h ∈ c.births s
  reload_once : ∀ h, s.starting = false → .client false h ∈ c.births s →
    (c.announced s).count (.reloadFilters h) = 1
  no_alias_reload : ∀ h, .client true h ∈ c.births s → .reloadFilters h ∉ c.announced s
  bystander : c.addsRecords = false → c.births s = []
  matched : c.finds s → c.births s = []
  refused : ∀ fault, c.answer s = .error fault → (∀ new, c ≠ .recordQuery new) → c.births s = []

theorem client_mem_births_iff {c : Command} {isAlias : Bool} {h : Handle .client} :
    .client isAlias h ∈ c.births s ↔ s.clients.contains h = false ∧
      ∃ a, (c.apply s).clients.get? h = some a ∧ a.isAlias = isAlias := by
  simp only [Command.births, birthsSince, List.mem_append, List.mem_map, reduceCtorEq, and_false,
    exists_false, false_or, Birth.client.injEq]
  constructor
  · rintro ⟨⟨k, a⟩, hmem, hkind, rfl⟩
    obtain ⟨hget, hno⟩ := SlotTable.mem_newSince.1 hmem
    exact ⟨hno, a, hget, hkind⟩
  · rintro ⟨hno, a, hget, hkind⟩
    exact ⟨(h, a), SlotTable.mem_newSince.2 ⟨hget, hno⟩, hkind, rfl⟩

theorem forwarder_mem_births_iff {c : Command} {h : Handle .forwarder} :
    .forwarder h ∈ c.births s ↔ s.forwarders.contains h = false ∧
      (c.apply s).forwarders.contains h := by
  simp only [Command.births, birthsSince, List.mem_append, List.mem_map, reduceCtorEq, and_false,
    exists_false, or_false, Birth.forwarder.injEq]
  constructor
  · rintro ⟨⟨k, a⟩, hmem, rfl⟩
    obtain ⟨hget, hno⟩ := SlotTable.mem_newSince.1 hmem
    exact ⟨hno, SlotTable.contains_iff.2 ⟨a, hget⟩⟩
  · rintro ⟨hno, hlive⟩
    obtain ⟨a, hget⟩ := SlotTable.contains_iff.1 hlive
    exact ⟨(h, a), SlotTable.mem_newSince.2 ⟨hget, hno⟩, rfl⟩

theorem Bears.announces {c : Command} (b : Bears s c) (hkeep : s.sink = .keep) : Announces s c where
  events_eq := b.events_eq hkeep
  brood := b.brood
  inserted hadds := (b.delivers hadds).clients
  client_iff _ _ := client_mem_births_iff
  forwarder_iff _ := forwarder_mem_births_iff
  reload_iff _ := Birth.reloadFilters_mem_iff
  reload_once h hstarting hbirth := by
    have hle := b.brood.count_reloadFilters_le s.starting h
    have hpos := List.count_pos_iff.2 (Birth.reloadFilters_mem_iff.2 ⟨hstarting, hbirth⟩)
    exact Nat.le_antisymm hle hpos
  no_alias_reload h hbirth hreload := by
    -- One client is not both.
    obtain ⟨-, hregular⟩ := Birth.reloadFilters_mem_iff.1 hreload
    obtain ⟨-, a, ha, halias⟩ := client_mem_births_iff.1 hbirth
    obtain ⟨-, a', ha', hregular⟩ := client_mem_births_iff.1 hregular
    rw [ha, Option.some_inj] at ha'
    rw [← ha', halias] at hregular
    cases hregular
  bystander := b.bystander
  matched := b.matched
  refused := b.refused

/-- Where all events are kept, those of a run are those of its births, in the order in which they
came. -/
theorem events_announce_births {settings : Settings} {now : UInt64}
    {directory : Option AliasLookup} {start : Store}
    (hcreate : create settings now directory .keep = .ok start) (commands : List Command) :
    let s := Command.runAll commands start
    s.events.toList = Command.announcements commands start ∧ ∀ c, Announces s c := by
  intro s
  have i := ready_univ hcreate []
  have i' : Ready Set.univ s := ready_univ hcreate commands
  obtain ⟨window, -, rfl, -, -⟩ := create_eq_ok hcreate
  obtain ⟨hsink, hevents⟩ := events_runAll i rfl commands
  exact ⟨hevents, fun c => (bears i' c).announces hsink⟩

/-- While the store starts, a client and its alias-client want host names only. Later a query brings
a client that wants its filters too, and so does one that is refused for want of a domain. -/
theorem events_announce_births_of_refused_query :
    let settings : Settings := { buckets := 3, domains := 1 }
    let directory : Option AliasLookup := some fun _ _ => some "phones"
    let start := empty settings 5000000 directory .keep (.ending 600 3 5000000)
    let commands : List Command :=
      [.setStarting true, .enrolClient "10.0.0.1" true false, .setStarting false,
        .recordQuery { id := 1, domain := "a.test", client := "10.0.0.2", wire := 1 },
        .enrolForwarder "9.9.9.9" 53, .enrolForwarder "9.9.9.9" 53]
    let s := Command.runAll commands start
    let late : Command :=
      .recordQuery { id := 2, domain := "b.test", client := "10.0.0.3", wire := 1 }
    create settings 5000000 directory .keep = .ok start ∧
      s.events.toList =
        [.resolveNames, .resolveNames, .resolveNames, .reloadFilters ⟨2, 0⟩, .resolveNames] ∧
      late.answer s = .error (.exhausted "domains" 1) ∧
      late.births s = [.client false ⟨3, 0⟩] ∧
      (late.apply s).events.toList =
        s.events.toList ++ [.resolveNames, .reloadFilters ⟨3, 0⟩] := by
  intro settings directory start commands s late
  have hcreate : create settings 5000000 directory .keep = .ok start :=
    create_of_made _ _ rfl (by decide +kernel)
  obtain ⟨hevents, hannounces⟩ := events_announce_births hcreate commands
  have hbirths : late.births s = [.client false ⟨3, 0⟩] := by decide +kernel
  have hlater : late.announced s = [.resolveNames, .reloadFilters ⟨3, 0⟩] := by decide +kernel
  refine ⟨hcreate, ?_, by decide +kernel, hbirths, ?_⟩
  · rw [hevents]
    decide +kernel
  · rw [← hlater]
    exact (hannounces late).events_eq

end Store

end Sinkhole
