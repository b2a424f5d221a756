import Sinkhole.Proofs.Store.Quiet
import Sinkhole.Store.Enrolment
import Sinkhole.Store.Reload

namespace Sinkhole.Store

open Attempt StoreM

variable {α β : Type} {s : Store}

/-- An attempt changes a store quietly, and its value and the store then satisfy `P`. -/
def Quietly (x : Attempt α) (s : Store) (P : α → Store → Prop) : Prop :=
  Ensures x s (fun _ => Quiet s) fun a s' => Quiet s s' ∧ P a s'

theorem Quietly.bind {x : Attempt α} {f : α → Attempt β} {P : α → Store → Prop}
    {P' : β → Store → Prop} (hx : Quietly x s P)
    (hf : ∀ a s', Quiet s s' → P a s' → Quietly (f a) s' P') : Quietly (x >>= f) s P' := by
  refine (ensures_bind x f).2 (hx.mono (fun _ _ h => h) ?_)
  rintro a s' ⟨q, hp⟩
  exact (hf a s' q hp).mono (fun _ _ q' => q.trans q') fun b s'' hb => ⟨q.trans hb.1, hb.2⟩

theorem quiet_raise (e : Event) (s : Store) : Quiet s ((raise e).run s).store := by
  rw [store_raise]
  exact .of_eq rfl rfl rfl rfl

/-! ### Domains -/

theorem quietly_intern (text : String) (s : Store) :
    Quietly (intern text) s fun _ s' => ∃ pool, s' = { s with pool } := by
  rw [Quietly, ensures_intern]
  split
  · exact ⟨.of_eq rfl rfl rfl rfl, _, rfl⟩
  · exact .refl s

theorem quietly_addDomain (w : s.WellFormed) (name : String) :
    Quietly (addDomain name) s fun h s' => s'.domains.contains h := by
  refine (quietly_intern name s).bind fun placed s' _ hs' => ?_
  obtain ⟨pool, rfl⟩ := hs'
  simp only [Quietly, ensures_bind, ensures_get, ensures_ofTable]
  split
  · rename_i h t put
    have placed := SlotTable.placed_of_insert w.domains put
    refine ⟨.of_domains (.added put rfl rfl), ?_⟩
    simp [SlotTable.contains, placed.get?_eq]
  · exact .refl _

theorem quietly_domainFor (w : s.WellFormed) (name : String) :
    Quietly (domainFor name) s fun r s' => s'.domains.contains r.1 := by
  simp only [domainFor, Quietly, ensures_bind, ensures_get]
  split
  · rename_i h hf
    exact ⟨.refl s, SlotTable.contains_of_find? hf⟩
  · exact (quietly_addDomain w name).bind fun h s' _ hc => ⟨.refl s', hc⟩

/-! ### Clients -/

theorem ensures_addRecord (address : String) (isAlias counted : Bool) (s : Store) :
    Ensures (addRecord address isAlias counted) s (fun _ => Quiet s)
      (ClientAdded s (if counted then 1 else 0) isAlias) := by
  simp only [addRecord, ensures_bind, ensures_intern]
  split
  · rename_i placed pool _
    simp only [ensures_get, ensures_ofTable]
    split
    · rename_i h t put
      have before : Quiet s { s with pool } := .of_eq rfl rfl rfl rfl
      have history : (List.replicate s.ledger.window.length (0 : Int64)).length =
          s.ledger.window.length := List.length_replicate
      simp only [ensures_liftM, run_notify, ensures_pure]
      refine ⟨before, put, ⟨?_, history, rfl⟩, rfl, quiet_raise _ _⟩
      refine Prod.ext rfl (Prod.ext rfl (funext fun b => ?_))
      simp only [Client.counts, List.getD_eq_getElem?_getD, List.getElem?_replicate]
      split <;> rfl
    · exact .of_eq rfl rfl rfl rfl
  · exact .refl s

theorem quietly_addRecord (w : s.WellFormed) (address : String) (isAlias : Bool) :
    Quietly (addRecord address isAlias false) s fun h s' => s'.clients.contains h :=
  (ensures_addRecord address isAlias false s).mono (fun _ _ q => q)
    fun _ _ a => ⟨a.quiet, a.contains w⟩

theorem quietly_aliasFor (w : s.WellFormed) (address : String) :
    Quietly (aliasFor address) s fun h s' => s'.clients.contains h := by
  simp only [aliasFor, Quietly, ensures_bind, ensures_get]
  split
  · rename_i h hf
    exact ⟨.refl s, SlotTable.contains_of_find? hf⟩
  · exact quietly_addRecord w address true

theorem quiet_release (client : Handle .client) (s : Store) :
    Quiet s ((release client).run s).store := by
  rw [store_release]
  exact .of_clients (.released client)

theorem quiet_manage (client manager : Handle .client) (s : Store) :
    Quiet s ((manage client manager).run s).store := by
  rw [store_manage]
  exact .of_clients (.managed client manager)

theorem quietly_followDirectory (w : s.WellFormed) (client : Handle .client) :
    Quietly (followDirectory client) s fun _ _ => True := by
  simp only [followDirectory, Quietly, ensures_bind, ensures_get]
  split
  · split
    · exact ⟨.refl s, trivial⟩
    · split
      · simp only [ensures_discard, ensures_liftM]
        exact ⟨quiet_release client s, trivial⟩
      · refine (quietly_aliasFor w _).bind fun manager s' q _ => ?_
        simp only [Quietly, ensures_bind, ensures_liftM]
        split
        · exact ⟨quiet_manage client manager s', trivial⟩
        · simp only [ensures_liftM, run_notify]
          exact ⟨quiet_manage client manager s', trivial⟩
  · exact ⟨.refl s, trivial⟩

/-- The events once the filters were asked for a client, which waits until the store serves. -/
def eventsFiltering (s : Store) (client : Handle .client) : Array Event :=
  if s.starting then s.events else s.eventsAfter (.reloadFilters client)

/-- Once the record is in no fault gets out: the newcomer stays, with an alias-client or without. -/
theorem ensures_addClient_iff (address : String) (counted : Bool)
    {failed : Fault → Store → Prop} {done : Handle .client → Store → Prop} :
    Ensures (addClient address counted) s failed done ↔
      Ensures (addRecord address false counted) s failed fun h s' =>
        Ensures (followDirectory h) { s' with events := s'.eventsFiltering h } (fun _ => done h)
          fun _ => done h := by
  simp only [addClient, ensures_bind, ensures_get]
  refine ensures_congr (fun _ _ => Iff.rfl) fun h s' => ?_
  unfold eventsFiltering
  split
  · simp only [ensures_bind, ensures_tryCatch, ensures_liftM, run_notify, ensures_pure]
  · simp only [ensures_bind, ensures_tryCatch, ensures_liftM, run_notify, ensures_pure, store_raise]

theorem ensures_addClient (w : s.WellFormed) (address : String) (counted : Bool) :
    Ensures (addClient address counted) s (fun _ => Quiet s)
      (ClientAdded s (if counted then 1 else 0) false) := by
  refine (ensures_addClient_iff address counted).2 ?_
  refine (ensures_addRecord address false counted s).mono (fun _ _ q => q) fun h s' a => ?_
  have q : Quiet s' { s' with events := s'.eventsFiltering h } := .of_eq rfl rfl rfl rfl
  have w' := q.wellFormed (a.wellFormed w)
  exact (quietly_followDirectory w' h).mono (fun _ _ q' => a.trans (q.trans q'))
    fun _ _ q' => a.trans (q.trans q'.1)

theorem quietly_clientFor (w : s.WellFormed) (address : String) :
    Quietly (clientFor address) s fun r s' => s'.clients.contains r.1 := by
  simp only [clientFor, Quietly, ensures_bind, ensures_get]
  split
  · rename_i h hf
    exact ⟨.refl s, SlotTable.contains_of_find? hf⟩
  · have hadd : Quietly (addClient address false) s fun h s' => s'.clients.contains h :=
      (ensures_addClient w address false).mono (fun _ _ q => q) fun _ _ a => ⟨a.quiet, a.contains w⟩
    exact hadd.bind fun h s' _ hc => ⟨.refl s', hc⟩

theorem quiet_describe (client : Handle .client) {f : Client → Client}
    (keeps : ∀ c, (f c).CountsAs c) (s : Store) :
    Quiet s { s with clients := s.clients.modify client f } :=
  .of_clients (.described client keeps)

theorem quietly_nameClient (client : Handle .client) (name : String) (s : Store) :
    Quietly (nameClient client name) s fun _ _ => True := by
  simp only [nameClient, Quietly, ensures_bind, ensures_get]
  split
  · refine (quietly_intern name s).bind fun placed s' _ _ => ?_
    simp only [Quietly, ensures_bind, ensures_modify, ensures_pure]
    refine ⟨quiet_describe client ?_ s', trivial⟩
    exact fun _ => ⟨rfl, rfl, rfl, rfl, rfl⟩
  · exact ⟨.refl s, trivial⟩

theorem quietly_assignGroups (client : Handle .client) (groups : String) (s : Store) :
    Quietly (assignGroups client groups) s fun _ _ => True := by
  simp only [assignGroups, Quietly, ensures_bind, ensures_get]
  split
  · refine (quietly_intern groups s).bind fun placed s' _ _ => ?_
    simp only [Quietly, ensures_bind, ensures_modify, ensures_pure]
    refine ⟨quiet_describe client ?_ s', trivial⟩
    exact fun _ => ⟨rfl, rfl, rfl, rfl, rfl⟩
  · exact ⟨.refl s, trivial⟩

theorem quietly_assignHardware (w : s.WellFormed) (client : Handle .client)
    (hardware : HardwareAddress) (interface : String) :
    Quietly (assignHardware client hardware interface) s fun _ _ => True := by
  simp only [assignHardware, Quietly, ensures_bind, ensures_get]
  split
  · refine (quietly_intern interface s).bind fun placed s' q _ => ?_
    simp only [Quietly, ensures_bind, ensures_modify]
    have hdescribe := quiet_describe client (s := s') (f := fun c =>
      { c with hardware := some hardware, interface := placed, sinceScan := 0 })
      fun _ => ⟨rfl, rfl, rfl, rfl, rfl⟩
    have w'' := hdescribe.wellFormed (q.wellFormed w)
    exact (quietly_followDirectory w'' client).mono (fun _ _ q' => hdescribe.trans q')
      fun _ _ q' => ⟨hdescribe.trans q'.1, trivial⟩
  · exact ⟨.refl s, trivial⟩

/-! ### Queries -/

theorem quiet_describe_query (query : Handle .query) {f : Query → Query}
    (keeps : ∀ q, (f q).CountsAs q) (s : Store) :
    Quiet s { s with queries := s.queries.modify query f } :=
  .of_queries (.described query keeps)

theorem quiet_modifyQuery (query : Handle .query) {f : Query → Query}
    (keeps : ∀ q, (f q).CountsAs q) (s : Store) :
    Quiet s ((modifyQuery query f).run s).store :=
  quiet_describe_query query keeps s

theorem quiet_attachForwarder (query : Handle .query) (forwarder : Handle .forwarder) (s : Store) :
    Quiet s ((attachForwarder query forwarder).run s).store := by
  simp only [attachForwarder, run_bind, StoreM.run_get]
  split
  · simp only [run_bind, StoreM.run_modify, run_pure]
    refine Quiet.trans (quiet_describe_query query ?_ s) (.of_eq rfl rfl rfl rfl)
    exact fun _ => ⟨rfl, rfl, rfl, rfl, rfl, rfl⟩
  · exact .refl s

theorem quiet_attachDecision (query : Handle .query) (decision : Handle .decision) (s : Store) :
    Quiet s ((attachDecision query decision).run s).store := by
  simp only [attachDecision, run_bind, StoreM.run_get]
  split
  · refine quiet_modifyQuery query ?_ s
    exact fun _ => ⟨rfl, rfl, rfl, rfl, rfl, rfl⟩
  · exact .refl s

theorem quietly_enrolDomain (w : s.WellFormed) (name : String) :
    Quietly (enrolDomain name false) s fun h s' => s'.domains.contains h := by
  simp only [enrolDomain, Bool.false_eq_true, if_false]
  exact (quietly_domainFor w name).bind fun r s' _ hc => ⟨.refl s', hc⟩

theorem quietly_attachCname (w : s.WellFormed) (query : Handle .query) (target : String) :
    Quietly (attachCname query target) s fun _ _ => True := by
  simp only [attachCname, Quietly, ensures_bind, ensures_get]
  split
  · refine (quietly_enrolDomain w target).bind fun domain s' _ _ => ?_
    simp only [Quietly, ensures_liftM]
    refine ⟨quiet_modifyQuery query ?_ s', trivial⟩
    exact fun _ => ⟨rfl, rfl, rfl, rfl, rfl, rfl⟩
  · exact ⟨.refl s, trivial⟩

/-! ### Forwarders, decisions and lists -/

theorem quietly_enrolForwarder (address : String) (n : UInt16) (s : Store) :
    Quietly (enrolForwarder address n) s fun _ _ => True := by
  simp only [enrolForwarder, Quietly, ensures_bind, ensures_get]
  split
  · exact ⟨.refl s, trivial⟩
  · refine (quietly_intern address s).bind fun placed s' _ _ => ?_
    simp only [Quietly, ensures_bind, ensures_get, ensures_ofTable]
    split
    · rename_i h t _
      have hput : Quiet s' { s' with forwarders := t } := .of_eq rfl rfl rfl rfl
      simp only [ensures_liftM, run_notify, ensures_pure]
      exact ⟨hput.trans (quiet_raise _ _), trivial⟩
    · exact .refl s'

theorem quietly_nameForwarder (forwarder : Handle .forwarder) (name : String) (s : Store) :
    Quietly (nameForwarder forwarder name) s fun _ _ => True := by
  simp only [nameForwarder, Quietly, ensures_bind, ensures_get]
  split
  · refine (quietly_intern name s).bind fun placed s' _ _ => ?_
    exact ⟨.of_eq rfl rfl rfl rfl, trivial⟩
  · exact ⟨.refl s, trivial⟩

theorem ensures_enrolDecision (domain : Handle .domain) (client : Handle .client)
    (type : RecordType) (create : Bool) (s : Store) {failed : Fault → Store → Prop}
    {done : Option (Handle .decision) → Store → Prop} :
    Ensures (enrolDecision domain client type create) s failed done ↔
      match s.findDecision? domain client type with
      | some h => done (some h) s
      | none =>
        if create then
          match s.decisions.insert { domain, client, type } with
          | .ok (h, t) => done (some h) { s with decisions := t }
          | .error full => failed (.ofFullTable full) s
        else done none s := by
  simp only [enrolDecision, ensures_bind, ensures_get]
  cases s.findDecision? domain client type with
  | some h => rfl
  | none =>
    cases create with
    | false => rfl
    | true =>
      simp only [if_true, ensures_bind, ensures_get, ensures_ofTable]
      cases s.decisions.insert { domain, client, type } <;> rfl

theorem quietly_enrolDecision (domain : Handle .domain) (client : Handle .client)
    (type : RecordType) (create : Bool) (s : Store) :
    Quietly (enrolDecision domain client type create) s fun _ _ => True := by
  simp only [enrolDecision, Quietly, ensures_bind, ensures_get]
  split
  · exact ⟨.refl s, trivial⟩
  · split
    · simp only [ensures_bind, ensures_get, ensures_ofTable]
      split
      · exact ⟨.of_eq rfl rfl rfl rfl, trivial⟩
      · exact .refl s
    · exact ⟨.refl s, trivial⟩

theorem quiet_forgetDecisions (s : Store) : Quiet s ((forgetDecisions).run s).store := by
  have hclients : ClientEdit s.ledger.window.length s.clients
      (s.clients.mapLive ({ · with groupsKnown := false })) :=
    .describedAll fun _ => ⟨rfl, rfl, rfl, rfl, rfl⟩
  exact (Quiet.of_clients hclients).trans (.of_eq rfl rfl rfl rfl)

theorem store_takeCount (lists : ListSource) (counts : ListCounts) (table : CountedTable)
    (s : Store) : ((takeCount lists counts table).run s).store = s := by
  simp only [takeCount, run_bind, store_consult]
  split <;> rfl

theorem store_orZero (r : Reading Nat) (failed : Fault → Notice) (s : Store) :
    ((orZero r failed).run s).store = s := by
  simp only [orZero, run_bind, store_consult]
  split <;> rfl

theorem store_foldlM_takeCount (lists : ListSource) (tables : List CountedTable)
    (counts : ListCounts) (s : Store) :
    ((tables.foldlM (takeCount lists) counts).run s).store = s := by
  induction tables generalizing counts with
  | nil => rfl
  | cons table tables ih =>
    simp only [List.foldlM_cons, run_bind, store_takeCount, ih]

theorem quiet_takeOver (lists : ListSource) (start : UInt64) (s : Store) :
    Quiet s ((takeOver lists start).run s).store := by
  have hlists : ∀ counts, Quiet s { s with ledger := s.ledger.setLists counts } := fun counts =>
    ⟨.refl, .refl, .refl, rfl, fun v => Ledger.view_setLists s.ledger counts v⟩
  simp only [takeOver, run_bind, StoreM.run_get, StoreM.run_modify, store_foldlM_takeCount,
    store_orZero, run_notify, run_pure]
  exact (hlists _).trans (quiet_forgetDecisions _)

theorem quietly_reload (lists : ListSource) (s : Store) :
    Quietly (reload lists) s fun _ _ => True := by
  have hawait : Quiet s ((await lists).run s).store := .of_eq rfl rfl rfl rfl
  simp only [reload, Quietly, ensures_bind, ensures_get, ensures_liftM, ensures_tryCatch,
    ensures_consult]
  split
  · exact ⟨hawait.trans (quiet_takeOver _ _ _), trivial⟩
  · simp only [run_notify, ensures_throw]
    exact hawait

theorem quietly_refresh (lists : ListSource) (s : Store) :
    Quietly (refresh lists) s fun _ _ => True :=
  (quietly_reload lists s).bind fun _ s' _ _ => ⟨.refl s', trivial⟩

end Sinkhole.Store
