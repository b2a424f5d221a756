import Sinkhole.Proofs.Store.Cards

namespace Sinkhole.Store

open Attempt StoreM Registry

variable {α β : Type} {texts : Set String} {s s' s'' : Store}

/-- The registry takes some turns that tell nothing, and the privacy level stays. -/
structure Grown (texts : Set String) (s s' : Store) : Prop where
  course : Course texts s.registry [] s'.registry
  privacy_eq : s'.privacy = s.privacy

namespace Grown

theorem of_eq (hregistry : s'.registry = s.registry) (hprivacy : s'.privacy = s.privacy) :
    Grown texts s s' :=
  ⟨hregistry ▸ .refl, hprivacy⟩

theorem refl (s : Store) : Grown texts s s :=
  of_eq rfl rfl

theorem turn (hturn : Turn texts s.registry [] s'.registry) (hprivacy : s'.privacy = s.privacy) :
    Grown texts s s' :=
  ⟨.single hturn, hprivacy⟩

theorem trans (g : Grown texts s s') (g' : Grown texts s' s'') : Grown texts s s'' :=
  ⟨g.course.extend g'.course, g'.privacy_eq.trans g.privacy_eq⟩

end Grown

/-- What an attempt may rely on. -/
structure Ready (texts : Set String) (s : Store) : Prop where
  sound : s.registry.Sound
  directory : DirectoryIn texts s.directory

theorem Grown.ready (g : Grown texts s s') (i : Ready texts s) : Ready texts s' where
  sound := g.course.sound i.sound
  directory := by
    have hdirectory : s'.directory = s.directory := g.course.directory_eq List.not_mem_nil
    rw [hdirectory]
    exact i.directory

/-- An attempt takes turns that tell nothing, and its value and the store then satisfy `P`. -/
def Grows (texts : Set String) (x : Attempt α) (s : Store) (P : α → Store → Prop) : Prop :=
  Ensures x s (fun _ => Grown texts s) fun a s' => Grown texts s s' ∧ P a s'

theorem Grows.bind {x : Attempt α} {f : α → Attempt β} {P : α → Store → Prop}
    {P' : β → Store → Prop} (hx : Grows texts x s P)
    (hf : ∀ a s', Grown texts s s' → P a s' → Grows texts (f a) s' P') :
    Grows texts (x >>= f) s P' := by
  refine (ensures_bind x f).2 (hx.mono (fun _ _ h => h) ?_)
  rintro a s' ⟨g, hp⟩
  exact (hf a s' g hp).mono (fun _ _ g' => g.trans g') fun b s'' hb => ⟨g.trans hb.1, hb.2⟩

theorem grown_raise (e : Event) (s : Store) : Grown texts s ((raise e).run s).store := by
  refine .of_eq (registry_raise e s) ?_
  rw [store_raise]

theorem grows_intern (text : String) (s : Store) :
    Grows texts (intern text) s fun placed s' =>
      (∃ pool, s' = { s with pool }) ∧ s'.pool.Holds placed ∧
        placed.text = TextPool.beforeNul text := by
  rw [Grows, ensures_intern]
  split
  · rename_i placed pool hplaced
    exact ⟨.turn (.interned hplaced) rfl, ⟨pool, rfl⟩, TextPool.holds_of_intern hplaced,
      TextPool.text_of_intern hplaced⟩
  · exact .refl s

theorem new_of_findDomain? {name : String} (hf : s.findDomain? name = none) :
    s.registry.domains.All fun d => ¬ (d.hash = Text.hash name ∧ d.name.text = name) := by
  refine SlotTable.All.map_iff.2 fun h d hd => ?_
  have hno := SlotTable.find?_eq_none_iff.1 hf h d hd
  simpa [Domain.card] using hno

/-- The pool holds no NUL, so a key that was found has none. -/
theorem plain_of_findDomain? (i : s.registry.Sound) {name : String} {h : Handle .domain}
    (hf : s.findDomain? name = some h) : TextPool.Plain name := by
  obtain ⟨d, hd, hp⟩ := SlotTable.get?_of_find? hf
  have hname : d.name.text = name := by simpa using (Bool.and_eq_true_iff.1 hp).2
  rw [← hname]
  exact i.pool.plain_of_holds (i.domains_held h d.card (SlotTable.get?_map_of_get? Domain.card hd))

theorem namesDomain_of_findDomain? (i : s.registry.Sound) {name : String} {h : Handle .domain}
    (hf : s.findDomain? name = some h) :
    s.registry.NamesDomain h (TextPool.beforeNul name) := by
  obtain ⟨d, hd, hp⟩ := SlotTable.get?_of_find? hf
  have hname : d.name.text = name := by simpa using (Bool.and_eq_true_iff.1 hp).2
  rw [TextPool.beforeNul_eq_self_iff.2 (plain_of_findDomain? i hf)]
  exact ⟨d.card, SlotTable.get?_map_of_get? Domain.card hd, hname⟩

theorem grows_addDomain (i : Ready texts s) {name : String} (given : name ∈ texts)
    (hf : s.findDomain? name = none) :
    Grows texts (addDomain name) s fun h s' =>
      s'.registry.NamesDomain h (TextPool.beforeNul name) := by
  refine (grows_intern name s).bind fun placed s' g hs' => ?_
  obtain ⟨⟨pool, rfl⟩, held, text_eq⟩ := hs'
  simp only [Grows, ensures_bind, ensures_get, ensures_ofTable]
  split
  · rename_i h t put
    let d : Domain := { name := placed, hash := Text.hash name }
    have hput := SlotTable.insert_map Domain.card put
    have hget : (t.map Domain.card).get? h = some d.card :=
      (SlotTable.placed_of_insert i.sound.domains hput).get?_self
    have hadded : Turn texts (registry { s with pool }) []
        (registry { s with pool, domains := t }) :=
      .domainAdded (d := d.card) given (new_of_findDomain? hf) held text_eq rfl hput
    exact ⟨.turn hadded rfl, d.card, hget, text_eq⟩
  · exact .refl _

theorem grows_domainFor (i : Ready texts s) {name : String} (given : name ∈ texts) :
    Grows texts (domainFor name) s fun r s' =>
      s'.registry.NamesDomain r.1 (TextPool.beforeNul name) := by
  simp only [domainFor, Grows, ensures_bind, ensures_get]
  split
  · rename_i h hf
    exact ⟨.refl s, namesDomain_of_findDomain? i.sound hf⟩
  · rename_i hf
    exact (grows_addDomain i given hf).bind fun h s' _ hn => ⟨.refl s', hn⟩

theorem grows_enrolDomain (i : Ready texts s) {name : String} (given : name ∈ texts)
    (counted : Bool) :
    Grows texts (enrolDomain name counted) s fun h s' =>
      s'.registry.NamesDomain h (TextPool.beforeNul name) := by
  refine (grows_domainFor i given).bind fun r s' _ hn => ?_
  cases counted with
  | false => exact ⟨.refl s', hn⟩
  | true =>
    have hregistry := registry_countDomain s' r.1 (!r.2)
    rw [← hregistry] at hn
    exact ⟨.of_eq hregistry rfl, hn⟩

theorem new_of_findClient? {address : String} (hf : s.findClient? address = none) :
    s.registry.clients.All fun c => c.address.text ≠ address := by
  refine SlotTable.All.map_iff.2 fun h c hc haddress => ?_
  have hno := SlotTable.find?_eq_none_iff.1 hf h c hc
  have hspells : c.address.spells address := PooledText.spells_iff.2 haddress
  rw [hspells] at hno
  cases hno

theorem plain_of_findClient? (i : s.registry.Sound) {address : String} {h : Handle .client}
    (hf : s.findClient? address = some h) : TextPool.Plain address := by
  obtain ⟨c, hc, hp⟩ := SlotTable.get?_of_find? hf
  rw [← PooledText.spells_iff.1 hp]
  exact i.pool.plain_of_holds
    (i.clients_held h c.card (SlotTable.get?_map_of_get? Client.card hc)).1

theorem namesClient_of_findClient? (i : s.registry.Sound) {address : String} {h : Handle .client}
    (hf : s.findClient? address = some h) :
    s.registry.NamesClient h (TextPool.beforeNul address) := by
  obtain ⟨c, hc, hp⟩ := SlotTable.get?_of_find? hf
  rw [TextPool.beforeNul_eq_self_iff.2 (plain_of_findClient? i hf)]
  exact ⟨c.card, SlotTable.get?_map_of_get? Client.card hc, PooledText.spells_iff.1 hp⟩

theorem grows_addRecord (i : Ready texts s) {address : String} (given : address ∈ texts)
    (hf : s.findClient? address = none) (isAlias counted : Bool) :
    Grows texts (addRecord address isAlias counted) s fun h s' =>
      s'.registry.NamesClient h (TextPool.beforeNul address) := by
  refine (grows_intern address s).bind fun placed s' g hs' => ?_
  obtain ⟨⟨pool, rfl⟩, held, text_eq⟩ := hs'
  simp only [Grows, ensures_bind, ensures_get, ensures_ofTable]
  split
  · rename_i h t put
    let card : Client.Card := ⟨placed, {}, isAlias⟩
    have hput := SlotTable.insert_map Client.card put
    have hget : (t.map Client.card).get? h = some card :=
      (SlotTable.placed_of_insert i.sound.clients hput).get?_self
    -- No live client has the address yet, which is what the turn asks for.
    have hadded : Turn texts (registry { s with pool }) []
        (registry { s with pool, clients := t }) :=
      .clientAdded (c := card) given (new_of_findClient? hf) held text_eq rfl hput
    simp only [ensures_liftM, run_notify, ensures_pure]
    refine ⟨(Grown.turn hadded rfl).trans (grown_raise _ _), ?_⟩
    rw [registry_raise]
    exact ⟨card, hget, text_eq⟩
  · exact .refl _

theorem grows_aliasFor (i : Ready texts s) {address : String} (given : address ∈ texts) :
    Grows texts (aliasFor address) s fun _ _ => True := by
  simp only [aliasFor, Grows, ensures_bind, ensures_get]
  split
  · exact ⟨.refl s, trivial⟩
  · rename_i hf
    exact (grows_addRecord i given hf true false).mono (fun _ _ g => g) fun _ _ g => ⟨g.1, trivial⟩

theorem grown_release (client : Handle .client) (s : Store) :
    Grown texts s ((release client).run s).store := by
  rw [store_release]
  exact .of_eq (registry_of_clients (SlotTable.map_released _ _)) rfl

theorem grown_manage (client manager : Handle .client) (s : Store) :
    Grown texts s ((manage client manager).run s).store := by
  rw [store_manage]
  exact .of_eq (registry_of_clients (SlotTable.map_managed _ _ _)) rfl

theorem grows_followDirectory (i : Ready texts s) (client : Handle .client) :
    Grows texts (followDirectory client) s fun _ _ => True := by
  simp only [followDirectory, Grows, ensures_bind, ensures_get]
  split
  · rename_i keyOf c hdirectory _
    split
    · exact ⟨.refl s, trivial⟩
    · split
      · simp only [ensures_discard, ensures_liftM]
        exact ⟨grown_release client s, trivial⟩
      · rename_i key hkey
        have given : key ∈ texts := i.directory keyOf hdirectory _ _ key hkey
        refine (grows_aliasFor i given).bind fun manager s' g _ => ?_
        simp only [Grows, ensures_bind, ensures_liftM]
        split
        · exact ⟨grown_manage client manager s', trivial⟩
        · simp only [ensures_liftM, run_notify]
          exact ⟨grown_manage client manager s', trivial⟩
  · exact ⟨.refl s, trivial⟩

theorem Grown.namesClient (g : Grown texts s s') (i : Ready texts s) {h : Handle .client}
    {address : String} (hn : s.registry.NamesClient h address) :
    s'.registry.NamesClient h address := by
  obtain ⟨c, hc, haddress⟩ := hn
  exact ⟨c, (Course.keepsCards i.sound g.course).clients h c hc, haddress⟩

theorem grows_addClient (i : Ready texts s) {address : String} (given : address ∈ texts)
    (hf : s.findClient? address = none) (counted : Bool) :
    Grows texts (addClient address counted) s fun h s' =>
      s'.registry.NamesClient h (TextPool.beforeNul address) := by
  refine (ensures_addClient_iff address counted).2 ?_
  refine (grows_addRecord i given hf false counted).mono (fun _ _ g => g) ?_
  rintro h s' ⟨g, hn⟩
  have hasked : Grown texts s' { s' with events := s'.eventsFiltering h } := .of_eq rfl rfl
  have g' := g.trans hasked
  have hn' := hasked.namesClient (g.ready i) hn
  refine (grows_followDirectory (g'.ready i) h).mono (fun _ s'' f => ?_) fun _ s'' f => ?_
  · exact ⟨g'.trans f, f.namesClient (g'.ready i) hn'⟩
  · exact ⟨g'.trans f.1, f.1.namesClient (g'.ready i) hn'⟩

theorem grows_clientFor (i : Ready texts s) {address : String} (given : address ∈ texts) :
    Grows texts (clientFor address) s fun r s' =>
      s'.registry.NamesClient r.1 (TextPool.beforeNul address) := by
  simp only [clientFor, Grows, ensures_bind, ensures_get]
  split
  · rename_i h hf
    exact ⟨.refl s, namesClient_of_findClient? i.sound hf⟩
  · rename_i hf
    exact (grows_addClient i given hf false).bind fun h s' _ hn => ⟨.refl s', hn⟩

theorem grows_enrolClient (i : Ready texts s) {address : String} (given : address ∈ texts)
    (counted isAlias : Bool) :
    Grows texts (enrolClient address counted isAlias) s fun _ _ => True := by
  simp only [enrolClient, Grows, ensures_bind, ensures_get]
  split
  · rename_i h _
    split
    · simp only [ensures_bind, ensures_discard, ensures_liftM, store_adjustClient, ensures_pure]
      exact ⟨.of_eq (registry_charge s h _) rfl, trivial⟩
    · exact ⟨.refl s, trivial⟩
  · rename_i hf
    split
    · exact (grows_addRecord i given hf true false).bind fun _ s' _ _ => ⟨.refl s', trivial⟩
    · split
      · exact (grows_addClient i given hf true).bind fun _ s' _ _ => ⟨.refl s', trivial⟩
      · exact ⟨.refl s, trivial⟩

theorem grown_describe (client : Handle .client) {f : Client → Client}
    (keeps : ∀ c, (f c).card = c.card) (s : Store) :
    Grown texts s { s with clients := s.clients.modify client f } :=
  .of_eq (registry_of_clients (SlotTable.map_modify_eq _ keeps s.clients client)) rfl

theorem grows_assignGroups (client : Handle .client) (groups : String) (s : Store) :
    Grows texts (assignGroups client groups) s fun _ _ => True := by
  simp only [assignGroups, Grows, ensures_bind, ensures_get]
  split
  · refine (grows_intern groups s).bind fun placed s' _ _ => ?_
    simp only [Grows, ensures_bind, ensures_modify, ensures_pure]
    refine ⟨grown_describe client ?_ s', trivial⟩
    exact fun _ => rfl
  · exact ⟨.refl s, trivial⟩

theorem grows_assignHardware (i : Ready texts s) (client : Handle .client)
    (hardware : HardwareAddress) (interface : String) :
    Grows texts (assignHardware client hardware interface) s fun _ _ => True := by
  simp only [assignHardware, Grows, ensures_bind, ensures_get]
  split
  · refine (grows_intern interface s).bind fun placed s' g _ => ?_
    simp only [Grows, ensures_bind, ensures_modify]
    have hdescribe : Grown texts s' { s' with
        clients := s'.clients.modify client
          ({ · with hardware := some hardware, interface := placed, sinceScan := 0 }) } := by
      refine grown_describe client ?_ s'
      exact fun _ => rfl
    exact (grows_followDirectory (hdescribe.ready (g.ready i)) client).mono
      (fun _ _ g' => hdescribe.trans g') fun _ _ g' => ⟨hdescribe.trans g'.1, trivial⟩
  · exact ⟨.refl s, trivial⟩

theorem new_of_findForwarder? {address : String} {number : UInt16}
    (hf : s.findForwarder? address number = none) :
    s.registry.forwarders.All fun u => ¬ (u.number = number ∧ u.address.text = address) := by
  refine SlotTable.All.map_iff.2 fun h u hu => ?_
  have hno := SlotTable.find?_eq_none_iff.1 hf h u hu
  simpa [Forwarder.card] using hno

theorem plain_of_findForwarder? (i : s.registry.Sound) {address : String} {number : UInt16}
    {h : Handle .forwarder} (hf : s.findForwarder? address number = some h) :
    TextPool.Plain address := by
  obtain ⟨u, hu, hp⟩ := SlotTable.get?_of_find? hf
  have haddress : u.address.text = address := by simpa using (Bool.and_eq_true_iff.1 hp).2
  rw [← haddress]
  exact i.pool.plain_of_holds
    (i.forwarders_held h u.card (SlotTable.get?_map_of_get? Forwarder.card hu))

theorem grows_enrolForwarder {address : String} (given : address ∈ texts) (number : UInt16)
    (s : Store) : Grows texts (enrolForwarder address number) s fun _ _ => True := by
  simp only [enrolForwarder, Grows, ensures_bind, ensures_get]
  split
  · exact ⟨.refl s, trivial⟩
  · rename_i hf
    refine (grows_intern address s).bind fun placed s' _ hs' => ?_
    obtain ⟨⟨pool, rfl⟩, held, text_eq⟩ := hs'
    simp only [Grows, ensures_bind, ensures_get, ensures_ofTable]
    split
    · rename_i h t put
      let card : Forwarder.Card := ⟨placed, number⟩
      have hput := SlotTable.insert_map Forwarder.card put
      have hadded : Turn texts (registry { s with pool }) []
          (registry { s with pool, forwarders := t }) :=
        .forwarderAdded (u := card) given (new_of_findForwarder? hf) held text_eq hput
      simp only [ensures_liftM, run_notify, ensures_pure]
      exact ⟨(Grown.turn hadded rfl).trans (grown_raise _ _), trivial⟩
    · exact .refl _

theorem grows_nameForwarder (forwarder : Handle .forwarder) (name : String) (s : Store) :
    Grows texts (nameForwarder forwarder name) s fun _ _ => True := by
  simp only [nameForwarder, Grows, ensures_bind, ensures_get]
  split
  · refine (grows_intern name s).bind fun placed s' _ _ => ?_
    have hname : ∀ u : Forwarder, Forwarder.card { u with name := placed, unnamed := false } =
        u.card := fun _ => rfl
    simp only [Grows, ensures_bind, ensures_modify, ensures_pure]
    refine ⟨.of_eq ?_ rfl, trivial⟩
    simp only [registry, SlotTable.map_modify_eq _ hname]
  · exact ⟨.refl s, trivial⟩

theorem new_of_findDecision? {domain : Handle .domain} {client : Handle .client}
    {type : RecordType} (hf : s.findDecision? domain client type = none) :
    s.registry.decisions.All (· ≠ ⟨domain, client, type⟩) := by
  refine SlotTable.All.map_iff.2 fun h d hd hcard => ?_
  have hno := SlotTable.find?_eq_none_iff.1 hf h d hd
  obtain ⟨rfl, rfl, rfl⟩ := Decision.Card.mk.inj hcard
  simp at hno

theorem grows_enrolDecision (domain : Handle .domain) (client : Handle .client)
    (type : RecordType) (create : Bool) (s : Store) :
    Grows texts (enrolDecision domain client type create) s fun _ _ => True := by
  simp only [enrolDecision, Grows, ensures_bind, ensures_get]
  split
  · exact ⟨.refl s, trivial⟩
  · rename_i hf
    split
    · simp only [ensures_bind, ensures_get, ensures_ofTable]
      split
      · rename_i h t put
        have hput := SlotTable.insert_map Decision.card put
        have hadded : Turn texts s.registry [] (registry { s with decisions := t }) :=
          .decisionAdded (new_of_findDecision? hf) hput
        exact ⟨.turn hadded rfl, trivial⟩
      · exact .refl s
    · exact ⟨.refl s, trivial⟩

theorem grown_takeOver (lists : ListSource) (start : UInt64) (s : Store) :
    Grown texts s ((takeOver lists start).run s).store := by
  refine .of_eq (registry_takeOver lists start s) ?_
  simp only [takeOver, run_bind, StoreM.run_get, StoreM.run_modify, store_foldlM_takeCount,
    store_orZero, run_notify, run_pure]
  rfl

theorem grows_reload (lists : ListSource) (s : Store) :
    Grows texts (reload lists) s fun _ _ => True := by
  have hawait : Grown texts s ((await lists).run s).store := .of_eq rfl rfl
  simp only [reload, Grows, ensures_bind, ensures_get, ensures_liftM, ensures_tryCatch,
    ensures_consult]
  split
  · exact ⟨hawait.trans (grown_takeOver lists s.now _), trivial⟩
  · simp only [run_notify, ensures_throw]
    exact hawait

theorem grows_refresh (lists : ListSource) (s : Store) :
    Grows texts (refresh lists) s fun _ _ => True :=
  (grows_reload lists s).bind fun _ s' _ _ => ⟨.refl s', trivial⟩

/-! ### Commands -/

/-- A command takes the registry along a course that tells the deed of the command. -/
def Told (texts : Set String) (s : Store) (c : Command) : Prop :=
  Course texts s.registry (c.deed? s.privacy (c.answer s)).toList (c.apply s).registry

theorem told_of_ensures {c : Command}
    (h : Ensures c.perform s (fun _ s' => Course texts s.registry [] s'.registry) fun a s' =>
      Course texts s.registry (c.deed? s.privacy (.ok a)).toList s'.registry) : Told texts s c := by
  unfold Ensures at h
  unfold Told Command.answer Command.apply
  split at h
  · rename_i ha
    rwa [ha]
  · rename_i fault ha
    rw [ha, Command.deed?_error]
    exact h

theorem told_of_grows {c : Command} {x : Attempt α} {f : α → Answer} {P : α → Store → Prop}
    (hc : c.perform = f <$> x) (silent : ∀ level r, c.deed? level r = none)
    (h : Grows texts x s P) : Told texts s c := by
  apply told_of_ensures
  rw [hc, ensures_map]
  simp only [silent]
  exact h.mono (fun _ _ g => g.course) fun _ _ g => g.1.course

theorem told_of_eq {c : Command} {x : StoreM α} {f : α → Answer}
    (hc : c.perform = f <$> (liftM x : Attempt α)) (silent : ∀ level r, c.deed? level r = none)
    (h : (x.run s).store.registry = s.registry) : Told texts s c := by
  rw [Told, silent, apply_eq hc, h]
  exact .refl

theorem told_nameClient (client : Handle .client) (name : String) (s : Store) :
    Told texts s (.nameClient client name) := by
  apply told_of_ensures
  simp only [Command.perform, nameClient, ensures_bind, ensures_get]
  split
  · rename_i hc
    simp only [ensures_bind]
    refine (grows_intern name s).mono (fun _ _ g => g.course) ?_
    rintro placed _ ⟨g, ⟨pool, rfl⟩, held, text_eq⟩
    let r' := registry { s with pool }
    have hlive : r'.clients.contains client := (SlotTable.contains_map _ _ _).trans hc
    have hcards : (s.clients.modify client ({ · with name := placed, unnamed := false })).map
        Client.card = r'.clients.modify client ({ · with name := placed }) :=
      SlotTable.map_modify Client.card (fun _ => rfl) s.clients client
    have hnamed : Turn texts r' [.clientNamed client name]
        { r' with clients := r'.clients.modify client ({ · with name := placed }) } :=
      .clientNamed hlive held text_eq
    rw [← hcards] at hnamed
    exact g.course.trans (.single hnamed)
  · exact .refl

theorem told_attachCname (i : Ready texts s) (query : Handle .query) {target : String}
    (given : target ∈ texts) : Told texts s (.attachCname query target) := by
  apply told_of_ensures
  simp only [Command.perform, attachCname, ensures_bind, ensures_get]
  split
  · rename_i hc
    simp only [ensures_bind]
    refine (grows_enrolDomain i given false).mono (fun _ _ g => g.course) ?_
    rintro domain s' ⟨g, hn⟩
    -- The target may have to be added first, which removes no query.
    have hlive : s'.registry.queries.contains query := by
      obtain ⟨q, hq⟩ := SlotTable.contains_iff.1 ((SlotTable.contains_map Query.card _ _).trans hc)
      exact SlotTable.contains_iff.2 ⟨q, (Course.keepsCards i.sound g.course).queries query q hq⟩
    have hvalue : s'.queries.contains query := (SlotTable.contains_map _ _ _).symm.trans hlive
    have hcards : (s'.queries.modify query ({ · with cname := some domain })).map Query.card =
        s'.registry.queries.modify query ({ · with cname := some domain }) :=
      SlotTable.map_modify Query.card (fun _ => rfl) s'.queries query
    have hnoted : Turn texts s'.registry [.cnameNoted query target] { s'.registry with
        queries := s'.registry.queries.modify query ({ · with cname := some domain }) } :=
      .cnameNoted hlive hn
    rw [← hcards] at hnoted
    simp only [ensures_liftM, ensures_pure, modifyQuery, run_bind, StoreM.run_get,
      StoreM.run_modify, run_pure, hvalue]
    exact g.course.trans (.single hnoted)
  · exact .refl

theorem told_recordQuery (i : Ready texts s) {new : Arrival} (hclient : new.client ∈ texts)
    (hdomain : new.domain ∈ texts) : Told texts s (.recordQuery new) := by
  apply told_of_ensures
  rw [Command.perform, ensures_bind, ensures_recordQuery_iff]
  split
  · refine (grows_clientFor i hclient).mono (fun _ _ g => g.course) ?_
    rintro ⟨client, newClient⟩ s₁ ⟨g₁, hc₁⟩
    refine (grows_domainFor (g₁.ready i) hdomain).mono (fun _ _ g => (g₁.trans g).course) ?_
    rintro ⟨domain, newDomain⟩ s₂ ⟨g₂, hd₂⟩
    have hc₂ := g₂.namesClient (g₁.ready i) hc₁
    intro q
    split
    · rename_i h queries put
      have hlevel : q.card.privacy = s.privacy := g₂.privacy_eq.trans g₁.privacy_eq
      have hput := SlotTable.push_map Query.card put
      have hrecorded : Turn texts s₂.registry [.queryRecorded h new q.card.privacy]
          (registry { s₂ with queries }) := .queryRecorded rfl hd₂ hc₂ rfl hput
      rw [hlevel] at hrecorded
      -- All that follows is counting.
      simp only [ensures_pure, registry_reclassify, registry_arrivalBooked]
      exact (g₁.trans g₂).course.trans (.single hrecorded)
    · exact (g₁.trans g₂).course
  · exact .refl

theorem answer_eq {c : Command} {x : StoreM α} {f : α → Answer}
    (hc : c.perform = f <$> (liftM x : Attempt α)) (s : Store) :
    c.answer s = .ok (f (x.run s).value) := by
  simp [Command.answer, hc]

theorem told_of_removal {c : Command} {x : StoreM Bool} {d : Deed} {live : Bool}
    (hc : c.perform = .flag <$> (liftM x : Attempt Bool))
    (hdeed : ∀ level b, c.deed? level (.ok (.flag b)) = if b then some d else none)
    (hvalue : (x.run s).value = live)
    (hturn : live → Turn texts s.registry [d] (x.run s).store.registry)
    (hgone : live = false → (x.run s).store.registry = s.registry) : Told texts s c := by
  rw [Told, answer_eq hc, hdeed, apply_eq hc, hvalue]
  cases live with
  | true => exact .single (hturn rfl)
  | false =>
    rw [hgone rfl]
    exact .refl

theorem value_removeQuery (query : Handle .query) (s : Store) :
    ((removeQuery query).run s).value = s.queries.contains query := by
  simp only [removeQuery, run_bind, StoreM.run_get]
  cases hv : s.queries.vacate? query with
  | none => simp [SlotTable.contains, SlotTable.vacate?_eq_none_iff.1 hv]
  | some r => simp [SlotTable.contains, SlotTable.get?_vacated hv]

theorem registry_removeQuery (query : Handle .query) (s : Store) :
    ((removeQuery query).run s).store.registry =
      { s.registry with queries := s.registry.queries.vacated query } := by
  have hqueries := SlotTable.vacated_map Query.card s.queries query
  cases hv : s.queries.vacate? query with
  | none =>
    have hsame : s.queries.vacated query = s.queries := by simp [SlotTable.vacated, hv]
    rw [hsame] at hqueries
    rw [store_removeQuery_of_none s hv]
    exact congrArg ({ s.registry with queries := · }) hqueries
  | some r =>
    have hcount : ∀ d : Domain, (d.uncount r.1.status.isBlocked).card = d.card := fun _ => rfl
    have hrest : r.2 = s.queries.vacated query := by simp [SlotTable.vacated, hv]
    rw [store_removeQuery_of_some s hv, hrest]
    simp only [registry, withoutQuery, hqueries, SlotTable.map_charge,
      SlotTable.map_modify_eq _ hcount]

theorem told_removeQuery (query : Handle .query) (s : Store) :
    Told texts s (.removeQuery query) := by
  refine told_of_removal rfl (fun _ b => by cases b <;> rfl) (value_removeQuery query s)
    (fun live => ?_) fun gone => ?_
  · rw [registry_removeQuery]
    exact .queryRemoved ((SlotTable.contains_map _ _ _).trans live)
  · have hgone := (SlotTable.contains_map Query.card s.queries query).trans gone
    rw [registry_removeQuery]
    exact congrArg ({ s.registry with queries := · }) (SlotTable.vacated_of_not_contains hgone)

theorem told_removeDomain (h : Handle .domain) (s : Store) : Told texts s (.removeDomain h) := by
  have hcards := SlotTable.vacated_map Domain.card s.domains h
  refine told_of_removal rfl (fun _ b => by cases b <;> rfl) (run_removeDomain s h).1
    (fun live => ?_) fun gone => ?_
  · rw [(run_removeDomain s h).2]
    simp only [registry, hcards]
    exact .domainRemoved ((SlotTable.contains_map _ _ _).trans live)
  · rw [(run_removeDomain s h).2, SlotTable.vacated_of_not_contains gone]

theorem told_removeClient (h : Handle .client) (s : Store) : Told texts s (.removeClient h) := by
  have hcards := SlotTable.map_withoutClient s.clients h
  refine told_of_removal rfl (fun _ b => by cases b <;> rfl) (run_removeClient s h).1
    (fun live => ?_) fun gone => ?_
  · rw [(run_removeClient s h).2]
    simp only [registry, hcards]
    exact .clientRemoved ((SlotTable.contains_map _ _ _).trans live)
  · have hgone := (SlotTable.contains_map Client.card s.clients h).trans gone
    rw [(run_removeClient s h).2]
    simp only [registry, hcards, SlotTable.vacated_of_not_contains hgone]

theorem told_removeForwarder (h : Handle .forwarder) (s : Store) :
    Told texts s (.removeForwarder h) := by
  have hcards := SlotTable.vacated_map Forwarder.card s.forwarders h
  have hstore : ((removeForwarder h).run s).store =
      { s with forwarders := s.forwarders.vacated h } := store_removeFrom s _ rfl h
  refine told_of_removal rfl (fun _ b => by cases b <;> rfl) (value_removeFrom s _ _ h)
    (fun live => ?_) fun gone => ?_
  · rw [hstore]
    simp only [registry, hcards]
    exact .forwarderRemoved ((SlotTable.contains_map _ _ _).trans live)
  · rw [hstore, SlotTable.vacated_of_not_contains gone]

theorem told_removeDecision (h : Handle .decision) (s : Store) :
    Told texts s (.removeDecision h) := by
  have hcards := SlotTable.vacated_map Decision.card s.decisions h
  have hstore : ((removeDecision h).run s).store =
      { s with decisions := s.decisions.vacated h } := store_removeFrom s _ rfl h
  refine told_of_removal rfl (fun _ b => by cases b <;> rfl) (value_removeFrom s _ _ h)
    (fun live => ?_) fun gone => ?_
  · rw [hstore]
    simp only [registry, hcards]
    exact .decisionRemoved ((SlotTable.contains_map _ _ _).trans live)
  · rw [hstore, SlotTable.vacated_of_not_contains gone]

theorem told (i : Ready texts s) {c : Command} (given : ∀ text ∈ c.texts, text ∈ texts) :
    Told texts s c := by
  cases c with
  | setClock | moveClock | setPrivacy | setStarting => exact .refl
  | setDirectory keyOf =>
    refine .single (.redirected ?_)
    rintro keyOf' ⟨⟩ address hardware key hkey
    exact given key ⟨address, hardware, hkey⟩
  | slideTo now =>
    refine told_of_eq (f := .number) rfl (fun _ _ => rfl) ?_
    rw [store_slideTo, registry_slid]
  | enrolDomain name counted =>
    have hname : name ∈ texts := given name rfl
    exact told_of_grows (f := .domain) rfl (fun _ _ => rfl) (grows_enrolDomain i hname counted)
  | enrolClient address counted isAlias =>
    have haddress : address ∈ texts := given address rfl
    exact told_of_grows (f := .client) rfl (fun _ _ => rfl)
      (grows_enrolClient i haddress counted isAlias)
  | enrolForwarder address number =>
    have haddress : address ∈ texts := given address rfl
    exact told_of_grows (f := .forwarder) rfl (fun _ _ => rfl)
      (grows_enrolForwarder haddress number s)
  | enrolDecision domain client type create =>
    exact told_of_grows (f := .decision) rfl (fun _ _ => rfl)
      (grows_enrolDecision domain client type create s)
  | recordQuery new =>
    have hclient : new.client ∈ texts := given _ (.inl rfl)
    have hdomain : new.domain ∈ texts := given _ (.inr rfl)
    exact told_recordQuery i hclient hdomain
  | reclassify query status first =>
    exact told_of_eq (f := .flag) rfl (fun _ _ => rfl) (registry_reclassify s query status first)
  | reclassifyCode query code first =>
    exact told_of_eq (f := .flag) rfl (fun _ _ => rfl) (registry_reclassifyCode s query code first)
  | noteReply query reply =>
    exact told_of_eq (f := .flag) rfl (fun _ _ => rfl) (registry_noteReply s query reply)
  | attachForwarder query forwarder =>
    exact told_of_eq (f := .flag) rfl (fun _ _ => rfl) (registry_attachForwarder s query forwarder)
  | attachDecision query decision =>
    exact told_of_eq (f := .flag) rfl (fun _ _ => rfl) (registry_attachDecision s query decision)
  | attachCname query target =>
    exact told_attachCname i query (given target rfl)
  | noteValidation query validation =>
    have hcard : ∀ q : Query, Query.card { q with validation } = q.card := fun _ => rfl
    exact told_of_eq (f := .flag) rfl (fun _ _ => rfl) (registry_modifyQuery hcard s query)
  | noteResponseTime query ms =>
    have hcard : ∀ q : Query, Query.card { q with responseTime := some ms } = q.card := fun _ => rfl
    exact told_of_eq (f := .flag) rfl (fun _ _ => rfl) (registry_modifyQuery hcard s query)
  | nameClient client name => exact told_nameClient client name s
  | assignGroups client groups =>
    exact told_of_grows (f := .flag) rfl (fun _ _ => rfl) (grows_assignGroups client groups s)
  | assignHardware client hardware interface =>
    exact told_of_grows (f := .flag) rfl (fun _ _ => rfl)
      (grows_assignHardware i client hardware interface)
  | adjustClient client δ =>
    refine told_of_eq (f := .flag) rfl (fun _ _ => rfl) ?_
    rw [store_adjustClient, registry_charge]
  | manage client manager =>
    refine told_of_eq (f := .flag) rfl (fun _ _ => rfl) ?_
    rw [store_manage, registry_of_clients (SlotTable.map_managed _ _ _)]
  | release client =>
    refine told_of_eq (f := .flag) rfl (fun _ _ => rfl) ?_
    rw [store_release, registry_of_clients (SlotTable.map_released _ _)]
  | followDirectory client =>
    exact told_of_grows (f := fun _ => .done) rfl (fun _ _ => rfl) (grows_followDirectory i client)
  | nameForwarder forwarder name =>
    exact told_of_grows (f := .flag) rfl (fun _ _ => rfl) (grows_nameForwarder forwarder name s)
  | noteResponse forwarder ms =>
    have hcard : ∀ (s : Store) (u : Forwarder),
        Forwarder.card { u with times := u.times.add ms, lastQuery := s.now } = u.card :=
      fun _ _ => rfl
    exact told_of_eq (f := .flag) rfl (fun _ _ => rfl) (registry_modifyForwarder hcard s forwarder)
  | noteFailure forwarder =>
    have hcard : ∀ (_ : Store) (u : Forwarder),
        Forwarder.card { u with failed := u.failed + 1 } = u.card := fun _ _ => rfl
    exact told_of_eq (f := .flag) rfl (fun _ _ => rfl) (registry_modifyForwarder hcard s forwarder)
  | noteVerdict decision verdict list =>
    exact told_of_eq (f := .flag) rfl (fun _ _ => rfl) (registry_noteVerdict s decision verdict list)
  | forgetDecisions =>
    exact told_of_eq (f := .number) rfl (fun _ _ => rfl) (registry_forgetDecisions s)
  | removeQuery query => exact told_removeQuery query s
  | removeDomain h => exact told_removeDomain h s
  | removeClient h => exact told_removeClient h s
  | removeForwarder h => exact told_removeForwarder h s
  | removeDecision h => exact told_removeDecision h s
  | reload lists => exact told_of_grows (f := .report) rfl (fun _ _ => rfl) (grows_reload lists s)
  | refresh lists => exact told_of_grows (f := .report) rfl (fun _ _ => rfl) (grows_refresh lists s)

theorem Told.ready {c : Command} (i : Ready texts s) (t : Told texts s c) :
    Ready texts (c.apply s) where
  sound := Course.sound t i.sound
  directory := Course.directoryIn t i.directory

theorem Ready.apply (i : Ready Set.univ s) (c : Command) : Ready Set.univ (c.apply s) :=
  (told i fun _ _ => Set.mem_univ _).ready i

theorem ready_empty {settings : Settings} {now : UInt64} {directory : Option AliasLookup}
    {sink : EventSink} {window : Window} (hdirectory : DirectoryIn texts directory) :
    Ready texts (empty settings now directory sink window) where
  sound := by
    rw [registry_empty]
    exact sound_empty settings directory
  directory := hdirectory

end Sinkhole.Store

namespace Sinkhole.Command

open Store

def directory? : Command → Option AliasLookup
  | setDirectory keyOf => some keyOf
  | _ => none

/-- The directory that was set last, or the one before all commands. -/
def lastDirectory (commands : List Command) (directory : Option AliasLookup) : Option AliasLookup :=
  commands.foldl (fun directory c => c.directory?.or directory) directory

def deeds : List Command → Store → List Deed
  | [], _ => []
  | c :: cs, s => (c.deed? s.privacy (c.answer s)).toList ++ deeds cs (c.apply s)

theorem runAll_append (cs cs' : List Command) (s : Store) :
    runAll (cs ++ cs') s = runAll cs' (runAll cs s) :=
  List.foldl_append

theorem deeds_append (cs cs' : List Command) (s : Store) :
    deeds (cs ++ cs') s = deeds cs s ++ deeds cs' (runAll cs s) := by
  induction cs generalizing s with
  | nil => rfl
  | cons c cs ih =>
    rw [List.cons_append, deeds, deeds, ih, List.append_assoc]
    rfl

variable {texts : Set String} {s : Store} {cs : List Command}

theorem ready_runAll (i : Ready texts s) (given : ∀ c ∈ cs, ∀ text ∈ c.texts, text ∈ texts) :
    Ready texts (runAll cs s) := by
  induction cs generalizing s with
  | nil => exact i
  | cons c cs ih =>
    have hc := told i (given c List.mem_cons_self)
    exact ih (hc.ready i) fun c' hc' => given c' (List.mem_cons_of_mem c hc')

theorem course_runAll (i : Ready texts s) (given : ∀ c ∈ cs, ∀ text ∈ c.texts, text ∈ texts) :
    Registry.Course texts s.registry (deeds cs s) (runAll cs s).registry := by
  induction cs generalizing s with
  | nil => exact .refl
  | cons c cs ih =>
    have hc := told i (given c List.mem_cons_self)
    exact .trans hc (ih (hc.ready i) fun c' hc' => given c' (List.mem_cons_of_mem c hc'))

theorem directory_apply (i : Ready Set.univ s) (c : Command) :
    (c.apply s).directory = c.directory?.or s.directory := by
  by_cases hset : ∃ keyOf, c = .setDirectory keyOf
  · obtain ⟨keyOf, rfl⟩ := hset
    rfl
  · have hnone : c.directory? = none := by
      cases c with
      | setDirectory keyOf => exact absurd ⟨keyOf, rfl⟩ hset
      | _ => rfl
    have hkept : .redirected ∉ (c.deed? s.privacy (c.answer s)).toList := by
      unfold deed?
      split <;> simp_all
    rw [hnone, Option.none_or]
    exact (told i fun _ _ => Set.mem_univ _).directory_eq hkept

theorem directory_runAll (i : Ready Set.univ s) (cs : List Command) :
    (runAll cs s).directory = lastDirectory cs s.directory := by
  induction cs generalizing s with
  | nil => rfl
  | cons c cs ih =>
    have hrest := ih (i.apply c)
    rw [directory_apply i] at hrest
    exact hrest

end Sinkhole.Command

namespace Sinkhole.Store

variable {texts : Set String} {settings : Settings} {now : UInt64}
  {directory : Option AliasLookup} {sink : EventSink} {start : Store}

/-- Every run takes a course from the registry without records. -/
theorem course_of_create (hcreate : create settings now directory sink = .ok start)
    (hdirectory : DirectoryIn texts directory) {commands : List Command}
    (given : ∀ c ∈ commands, ∀ text ∈ c.texts, text ∈ texts) :
    Registry.Course texts (Registry.empty settings directory) (Command.deeds commands start)
      (Command.runAll commands start).registry := by
  obtain ⟨window, -, rfl, -, -⟩ := create_eq_ok hcreate
  have i : Ready texts (empty settings now directory sink window) := ready_empty hdirectory
  have h := Command.course_runAll i given
  rwa [Registry.registry_empty] at h

theorem wellFormed_of_create (hcreate : create settings now directory sink = .ok start)
    (commands : List Command) : (Command.runAll commands start).WellFormed := by
  obtain ⟨window, -, rfl, -, -⟩ := create_eq_ok hcreate
  exact Command.wellFormed_runAll commands (wellFormed_empty settings now directory sink window)

theorem ready_of_create (hcreate : create settings now directory sink = .ok start)
    (hdirectory : DirectoryIn texts directory) {commands : List Command}
    (given : ∀ c ∈ commands, ∀ text ∈ c.texts, text ∈ texts) :
    Ready texts (Command.runAll commands start) := by
  obtain ⟨window, -, rfl, -, -⟩ := create_eq_ok hcreate
  exact Command.ready_runAll (ready_empty hdirectory) given

theorem ready_univ (hcreate : create settings now directory sink = .ok start)
    (commands : List Command) : Ready Set.univ (Command.runAll commands start) :=
  ready_of_create hcreate (fun _ _ _ _ _ _ => Set.mem_univ _) fun _ _ _ _ => Set.mem_univ _

theorem directory_of_create (hcreate : create settings now directory sink = .ok start)
    (commands : List Command) :
    (Command.runAll commands start).directory = Command.lastDirectory commands directory := by
  have i : Ready Set.univ start := ready_univ hcreate []
  rw [Command.directory_runAll i]
  obtain ⟨window, -, rfl, -, -⟩ := create_eq_ok hcreate
  rfl

theorem course_univ (hcreate : create settings now directory sink = .ok start)
    (commands : List Command) :
    Registry.Course Set.univ (Registry.empty settings directory) (Command.deeds commands start)
      (Command.runAll commands start).registry :=
  course_of_create hcreate (fun _ _ _ _ _ _ => Set.mem_univ _) fun _ _ _ _ => Set.mem_univ _

end Sinkhole.Store
