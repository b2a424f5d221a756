import Sinkhole.Proofs.Store.Lookups
import Sinkhole.Proofs.Store.Newcomers

namespace Sinkhole

namespace SlotTable

variable {K : Kind} {α : Type} {t t' : SlotTable K α} {h : Handle K} {a : α}

/-- A table has one record more, and the others as they were. -/
structure AddsOne (t : SlotTable K α) (h : Handle K) (t' : SlotTable K α) : Prop where
  isNew : t.contains h = false
  live : t'.contains h
  others : ∀ k, k ≠ h → t'.get? k = t.get? k

theorem Placed.addsOne (p : Placed t t' h a) : t.AddsOne h t' where
  isNew := p.not_contains
  live := contains_iff.2 ⟨a, p.get?_self⟩
  others k hk := by rw [p.get?_eq, if_neg hk.symm]

theorem AddsOne.modify (o : t.AddsOne h t') (f : α → α) : t.AddsOne h (t'.modify h f) where
  isNew := o.isNew
  live := by
    rw [contains_modify]
    exact o.live
  others k hk := by rw [get?_modify, if_neg hk.symm, o.others k hk]

end SlotTable

namespace Store

open Attempt StoreM Registry

variable {s s' : Store}

/-- What finding a domain or adding it comes to. -/
structure EnrolsDomain (s : Store) (name : String) (counted : Bool)
    (answer : Except Fault Answer) (s' : Store) : Prop where
  known : ∀ h, s.DomainAt h name → answer = .ok (.domain h) ∧ s'.registry = s.registry ∧
    s' = { s with
      domains := if counted then s.domains.modify h (·.addQuery true s.now) else s.domains }
  added : (∀ h, ¬ s.DomainAt h name) → ∀ a, answer = .ok a → ∃ h pool domains,
    a = .domain h ∧ s' = { s with pool, domains } ∧ s.domains.AddsOne h domains ∧
      s'.DomainAt h name

/-- A regular client was added, and at most the alias-client that the directory names for it. What
the other clients are known by stays as it was. -/
structure AddsClient (s : Store) (address : String) (h : Handle .client)
    (alias? : Option (Handle .client)) (s' : Store) : Prop where
  frame : ∃ pool clients events, s' = { s with pool, clients, events }
  isNew : s.clients.contains h = false
  hasKey : s'.ClientAt h address
  others : ∀ k, k ≠ h → alias? ≠ some k →
    (s'.clients.get? k).map Client.card = (s.clients.get? k).map Client.card
  presented : ∀ k, alias? = some k → k ≠ h ∧ s.clients.contains k = false ∧ ∃ keyOf key c,
    s.directory = some keyOf ∧ keyOf address none = some key ∧ s'.clients.get? k = some c ∧
      c.isAlias ∧ s'.pool.textAt c.address.offset = key

/-- What finding a client or adding it comes to. -/
structure EnrolsClient (s : Store) (address : String) (counted isAlias : Bool)
    (answer : Except Fault Answer) (s' : Store) : Prop where
  known : ∀ h, s.ClientAt h address → answer = .ok (.client (some h)) ∧
    s'.registry = s.registry ∧ s' = { s with
      clients := if counted && !isAlias then s.clients.charge h { total := 1 } else s.clients }
  suppressed : (∀ h, ¬ s.ClientAt h address) → counted = false → isAlias = false →
    answer = .ok (.client none) ∧ s' = s
  addedAsAlias : (∀ h, ¬ s.ClientAt h address) → isAlias → ∀ a, answer = .ok a →
    ∃ h pool clients events, a = .client (some h) ∧ s' = { s with pool, clients, events } ∧
      s.clients.AddsOne h clients ∧ s'.ClientAt h address
  added : (∀ h, ¬ s.ClientAt h address) → counted → isAlias = false → ∀ a, answer = .ok a →
    ∃ h alias?, a = .client (some h) ∧ AddsClient s address h alias? s'

/-- What finding a forwarder or adding it comes to. -/
structure EnrolsForwarder (s : Store) (address : String) (number : UInt16)
    (answer : Except Fault Answer) (s' : Store) : Prop where
  known : ∀ h, s.ForwarderAt h address number → answer = .ok (.forwarder h) ∧ s' = s
  added : (∀ h, ¬ s.ForwarderAt h address number) → ∀ a, answer = .ok a →
    ∃ h pool forwarders events, a = .forwarder h ∧ s' = { s with pool, forwarders, events } ∧
      s.forwarders.AddsOne h forwarders ∧ s'.ForwarderAt h address number

/-- What finding a decision or adding it comes to. -/
structure EnrolsDecision (s : Store) (domain : Handle .domain) (client : Handle .client)
    (type : RecordType) (create : Bool) (answer : Except Fault Answer) (s' : Store) : Prop where
  known : ∀ h, s.DecisionAt h domain client type → answer = .ok (.decision (some h)) ∧ s' = s
  suppressed : (∀ h, ¬ s.DecisionAt h domain client type) → create = false →
    answer = .ok (.decision none) ∧ s' = s
  added : (∀ h, ¬ s.DecisionAt h domain client type) → create → ∀ a, answer = .ok a →
    ∃ h decisions, a = .decision (some h) ∧ s' = { s with decisions } ∧
      s.decisions.AddsOne h decisions ∧ s'.DecisionAt h domain client type

theorem enrolDomain_known {name : String} {h : Handle .domain} (hf : s.findDomain? name = some h)
    (counted : Bool) :
    (Command.enrolDomain name counted).answer s = .ok (.domain h) ∧
      (Command.enrolDomain name counted).apply s = { s with
        domains := if counted then s.domains.modify h (·.addQuery true s.now) else s.domains } := by
  cases counted <;>
    simp [Command.answer, Command.apply, Command.perform, enrolDomain, domainFor, hf, countDomain]

theorem enrolDomain_added (w : s.domains.WellFormed) {name : String}
    (hf : s.findDomain? name = none) (counted : Bool) :
    Ensures (Command.enrolDomain name counted).perform s (fun _ _ => True) fun a s' =>
      ∃ h pool domains, a = .domain h ∧ s' = { s with pool, domains } ∧
        s.domains.AddsOne h domains ∧
        ∃ d, domains.get? h = some d ∧ d.hash = Text.hash name ∧
          d.name.text = TextPool.beforeNul name := by
  simp only [Command.perform, enrolDomain, ensures_bind]
  refine (placed_domainFor name s).mono (fun _ _ _ => trivial) ?_
  rintro ⟨h, added⟩ s₁ met
  cases met with
  | known found =>
    rw [hf] at found
    cases found
  | @added placed pool _ t _ text_eq put =>
    have hplaced := SlotTable.placed_of_insert w put
    cases counted with
    | false => exact ⟨h, pool, t, rfl, rfl, hplaced.addsOne, _, hplaced.get?_self, rfl, text_eq⟩
    | true =>
      -- Counting comes after the insertion, and keeps the name.
      have hcounted := SlotTable.get?_modify t h h (·.addQuery false s.now)
      rw [if_pos rfl, hplaced.get?_self] at hcounted
      exact ⟨h, pool, _, rfl, rfl, hplaced.addsOne.modify _, _, hcounted, rfl, text_eq⟩

theorem enrolClient_known {address : String} {h : Handle .client}
    (hf : s.findClient? address = some h) (counted isAlias : Bool) :
    (Command.enrolClient address counted isAlias).answer s = .ok (.client (some h)) ∧
      (Command.enrolClient address counted isAlias).apply s = { s with
        clients :=
          if counted && !isAlias then s.clients.charge h { total := 1 } else s.clients } := by
  refine Ensures.ends ?_
  cases counted <;> cases isAlias <;> simp [Command.perform, enrolClient, hf, store_adjustClient]

theorem enrolClient_suppressed {address : String} (hf : s.findClient? address = none) :
    (Command.enrolClient address false false).answer s = .ok (.client none) ∧
      (Command.enrolClient address false false).apply s = s := by
  simp [Command.answer, Command.apply, Command.perform, enrolClient, hf]

theorem enrolClient_addedAsAlias (w : s.clients.WellFormed) {address : String}
    (hf : s.findClient? address = none) (counted : Bool) :
    Ensures (Command.enrolClient address counted true).perform s (fun _ _ => True) fun a s' =>
      ∃ h pool clients events, a = .client (some h) ∧ s' = { s with pool, clients, events } ∧
        s.clients.AddsOne h clients ∧
        ∃ c, clients.get? h = some c ∧ c.address.text = TextPool.beforeNul address := by
  simp only [Command.perform, enrolClient, ensures_bind, ensures_get, hf, if_true, ensures_pure]
  refine (enrolled_addRecord address true false s).mono (fun _ _ _ => trivial) ?_
  rintro h s₁ ⟨events, text_eq, put⟩
  have hplaced := SlotTable.placed_of_insert w put
  exact ⟨h, _, _, events, rfl, rfl, hplaced.addsOne, _, hplaced.get?_self, text_eq⟩

theorem enrolClient_added (w : s.clients.WellFormed) {address : String}
    (hf : s.findClient? address = none) :
    Ensures (Command.enrolClient address true false).perform s (fun _ _ => True) fun a s' =>
      ∃ h alias?, a = .client (some h) ∧ Entered s address 1 h alias? s' := by
  simp only [Command.perform, enrolClient, ensures_bind, ensures_get, hf, if_true, ensures_pure,
    Bool.false_eq_true, if_false]
  refine (entered_addClient w address true).mono (fun _ _ _ => trivial) ?_
  rintro h s' ⟨alias?, entered⟩
  exact ⟨h, alias?, rfl, entered⟩

theorem enrolForwarder_known {address : String} {number : UInt16} {h : Handle .forwarder}
    (hf : s.findForwarder? address number = some h) :
    (Command.enrolForwarder address number).answer s = .ok (.forwarder h) ∧
      (Command.enrolForwarder address number).apply s = s := by
  simp [Command.answer, Command.apply, Command.perform, enrolForwarder, hf]

theorem enrolForwarder_added (w : s.forwarders.WellFormed) {address : String} {number : UInt16}
    (hf : s.findForwarder? address number = none) :
    Ensures (Command.enrolForwarder address number).perform s (fun _ _ => True) fun a s' =>
      ∃ h pool forwarders events, a = .forwarder h ∧
        s' = { s with pool, forwarders, events } ∧ s.forwarders.AddsOne h forwarders ∧
        ∃ u, forwarders.get? h = some u ∧
          (u.address.text, u.number) = (TextPool.beforeNul address, number) := by
  simp only [Command.perform, enrolForwarder, ensures_bind, ensures_get, hf, ensures_intern]
  split
  · rename_i placed pool hplaced
    simp only [ensures_ofTable]
    split
    · rename_i h t put
      simp only [ensures_liftM, run_notify, store_raise, ensures_pure]
      have hput := SlotTable.placed_of_insert w put
      have htext := TextPool.text_of_intern hplaced
      exact ⟨h, pool, t, _, rfl, rfl, hput.addsOne, _, hput.get?_self,
        congrArg (·, number) htext⟩
    · trivial
  · trivial

theorem enrolDecision_known {domain : Handle .domain} {client : Handle .client} {type : RecordType}
    {h : Handle .decision} (hf : s.findDecision? domain client type = some h) (create : Bool) :
    (Command.enrolDecision domain client type create).answer s = .ok (.decision (some h)) ∧
      (Command.enrolDecision domain client type create).apply s = s := by
  simp [Command.answer, Command.apply, Command.perform, enrolDecision, hf]

theorem enrolDecision_suppressed {domain : Handle .domain} {client : Handle .client}
    {type : RecordType} (hf : s.findDecision? domain client type = none) :
    (Command.enrolDecision domain client type false).answer s = .ok (.decision none) ∧
      (Command.enrolDecision domain client type false).apply s = s := by
  simp [Command.answer, Command.apply, Command.perform, enrolDecision, hf]

theorem enrolDecision_added (w : s.decisions.WellFormed) {domain : Handle .domain}
    {client : Handle .client} {type : RecordType}
    (hf : s.findDecision? domain client type = none) :
    Ensures (Command.enrolDecision domain client type true).perform s (fun _ _ => True) fun a s' =>
      ∃ h decisions, a = .decision (some h) ∧ s' = { s with decisions } ∧
        s.decisions.AddsOne h decisions ∧
        decisions.get? h = some { domain, client, type } := by
  simp only [Command.perform, enrolDecision, ensures_bind, ensures_get, hf, if_true,
    ensures_ofTable]
  split
  · rename_i h t put
    have hput := SlotTable.placed_of_insert w put
    exact ⟨h, t, rfl, rfl, hput.addsOne, hput.get?_self⟩
  · trivial

theorem Joined.addsClient {address : String} {n : Int64} {h : Handle .client}
    {alias? : Option (Handle .client)} (j : Joined s address n h alias? s')
    (i : Ready plainTexts s) (sound : s'.registry.Sound) (plain : TextPool.Plain address) :
    AddsClient s address h alias? s' where
  frame := j.frame
  isNew := j.isNew
  hasKey := by
    obtain ⟨placed, manager, text_eq, hget⟩ := j.record
    rw [TextPool.beforeNul_eq_self_iff.2 plain] at text_eq
    exact (clientAt_iff sound).2 ⟨_, hget, text_eq⟩
  others k hne halias := by
    cases hk : s.clients.get? k with
    | some c =>
      -- An alias-client that was there may have taken the newcomer's counts over, not its texts.
      obtain ⟨c', hk', rfl | ⟨placed, rfl⟩⟩ := j.kept k c hk
      · rw [hk']
      · rw [hk']
        rfl
    | none =>
      cases hk' : s'.clients.get? k with
      | none => rfl
      | some c =>
        have hno : ¬ s.clients.contains k := by simp [SlotTable.contains, hk]
        rcases j.only k (SlotTable.contains_iff.2 ⟨c, hk'⟩) with hold | heq | heq
        · exact absurd hold hno
        · exact absurd heq hne
        · exact absurd heq halias
  presented k hk := by
    obtain ⟨hne, isNew, keyOf, key, placed, member, hdirectory, hkey, text_eq, hget⟩ :=
      j.presented k hk
    rw [TextPool.beforeNul_eq_self_iff.2 plain] at hkey
    have given : key ∈ plainTexts := i.directory keyOf hdirectory _ _ key hkey
    rw [TextPool.beforeNul_eq_self_iff.2 given] at text_eq
    exact ⟨hne, isNew, keyOf, key, _, hdirectory, hkey, hget, rfl,
      (sound.textAt_client hget).1.trans text_eq⟩

theorem eq_none_of_never {K : Kind} {found : Option (Handle K)} {P : Handle K → Prop}
    (hf : ∀ h, found = some h ↔ P h) (hno : ∀ h, ¬ P h) : found = none :=
  Option.eq_none_iff_forall_ne_some.2 fun h hh => hno h ((hf h).1 hh)

section
variable (i : Ready plainTexts s)
include i

theorem sound_apply {c : Command} {text : String} (hc : c.texts = {text})
    (plain : TextPool.Plain text) : (c.apply s).registry.Sound := by
  have given : ∀ text ∈ c.texts, text ∈ plainTexts := by
    rw [hc]
    rintro _ rfl
    exact plain
  exact ((told i given).ready i).sound

variable (f : s.FindsByKey)
include f

theorem enrolsDomain {name : String} (plain : TextPool.Plain name) (counted : Bool) :
    s.EnrolsDomain name counted ((Command.enrolDomain name counted).answer s)
      ((Command.enrolDomain name counted).apply s) where
  known h hh := by
    obtain ⟨hanswer, happly⟩ := enrolDomain_known ((f.domain h name).2 hh) counted
    refine ⟨hanswer, ?_, happly⟩
    rw [happly]
    cases counted with
    | true => exact registry_countDomain s h true
    | false => rfl
  added hno a hanswer := by
    have hf : s.findDomain? name = none := eq_none_of_never (fun h => f.domain h name) hno
    have w := (SlotTable.wellFormed_map Domain.card).1 i.sound.domains
    obtain ⟨h, pool, domains, ha, hs', adds, d, hd, -, hname⟩ :=
      (enrolDomain_added w hf counted).of_ok hanswer
    refine ⟨h, pool, domains, ha, hs', adds, (domainAt_iff (sound_apply i rfl plain)).2 ⟨d, ?_, ?_⟩⟩
    · exact (congrArg (fun s : Store => s.domains.get? h) hs').trans hd
    · exact hname.trans (TextPool.beforeNul_eq_self_iff.2 plain)

theorem enrolsClient {address : String} (plain : TextPool.Plain address) (counted isAlias : Bool) :
    s.EnrolsClient address counted isAlias
      ((Command.enrolClient address counted isAlias).answer s)
      ((Command.enrolClient address counted isAlias).apply s) := by
  -- A search that could find only what is not there finds nothing.
  have hunknown : (∀ h, ¬ s.ClientAt h address) → s.findClient? address = none :=
    eq_none_of_never fun h => f.client h address
  have w := (SlotTable.wellFormed_map Client.card).1 i.sound.clients
  refine { known := ?_, suppressed := ?_, addedAsAlias := ?_, added := ?_ }
  · intro h hh
    obtain ⟨hanswer, happly⟩ := enrolClient_known ((f.client h address).2 hh) counted isAlias
    refine ⟨hanswer, ?_, happly⟩
    rw [happly]
    split
    · exact registry_charge s h _
    · rfl
  · rintro hno rfl rfl
    exact enrolClient_suppressed (hunknown hno)
  · rintro hno rfl a hanswer
    obtain ⟨h, pool, clients, events, ha, hs', adds, c, hc, haddress⟩ :=
      (enrolClient_addedAsAlias w (hunknown hno) counted).of_ok hanswer
    refine ⟨h, pool, clients, events, ha, hs', adds,
      (clientAt_iff (sound_apply i rfl plain)).2 ⟨c, ?_, ?_⟩⟩
    · exact (congrArg (fun s : Store => s.clients.get? h) hs').trans hc
    · exact haddress.trans (TextPool.beforeNul_eq_self_iff.2 plain)
  · rintro hno rfl rfl a hanswer
    obtain ⟨h, alias?, ha, entered⟩ := (enrolClient_added w (hunknown hno)).of_ok hanswer
    exact ⟨h, alias?, ha, (entered.joined w).addsClient i (sound_apply i rfl plain) plain⟩

theorem enrolsForwarder {address : String} (plain : TextPool.Plain address) (number : UInt16) :
    s.EnrolsForwarder address number ((Command.enrolForwarder address number).answer s)
      ((Command.enrolForwarder address number).apply s) where
  known h hh := enrolForwarder_known ((f.forwarder h address number).2 hh)
  added hno a hanswer := by
    have hf : s.findForwarder? address number = none :=
      eq_none_of_never (fun h => f.forwarder h address number) hno
    have w := (SlotTable.wellFormed_map Forwarder.card).1 i.sound.forwarders
    obtain ⟨h, pool, forwarders, events, ha, hs', adds, u, hu, hkey⟩ :=
      (enrolForwarder_added w hf).of_ok hanswer
    rw [TextPool.beforeNul_eq_self_iff.2 plain] at hkey
    refine ⟨h, pool, forwarders, events, ha, hs', adds,
      (forwarderAt_iff (sound_apply i rfl plain)).2 ⟨u, ?_, hkey⟩⟩
    exact (congrArg (fun s : Store => s.forwarders.get? h) hs').trans hu

theorem enrolsDecision (domain : Handle .domain) (client : Handle .client) (type : RecordType)
    (create : Bool) :
    s.EnrolsDecision domain client type create
      ((Command.enrolDecision domain client type create).answer s)
      ((Command.enrolDecision domain client type create).apply s) := by
  have hunknown : (∀ h, ¬ s.DecisionAt h domain client type) →
      s.findDecision? domain client type = none :=
    eq_none_of_never fun h => f.decision h domain client type
  have w := (SlotTable.wellFormed_map Decision.card).1 i.sound.decisions
  refine { known := ?_, suppressed := ?_, added := ?_ }
  · exact fun h hh => enrolDecision_known ((f.decision h domain client type).2 hh) create
  · rintro hno rfl
    exact enrolDecision_suppressed (hunknown hno)
  · rintro hno rfl a hanswer
    obtain ⟨h, decisions, ha, hs', adds, hd⟩ :=
      (enrolDecision_added w (hunknown hno)).of_ok hanswer
    refine ⟨h, decisions, ha, hs', adds, { domain, client, type }, ?_, rfl, rfl, rfl⟩
    exact (congrArg (fun s : Store => s.decisions.get? h) hs').trans hd

end

/-- Where no text has a NUL, no two live records of a kind have one key, the finders find the record
that has a key, and a call that finds none adds one record with the key. -/
theorem records_follow_keys {settings : Settings} {now : UInt64} {directory : Option AliasLookup}
    {sink : EventSink} {start : Store} (hcreate : create settings now directory sink = .ok start)
    (hdirectory : DirectoryIn plainTexts directory) {commands : List Command}
    (given : ∀ c ∈ commands, ∀ text ∈ c.texts, TextPool.Plain text) :
    let s := Command.runAll commands start
    s.KeysDiffer ∧ s.FindsByKey ∧
    (∀ name counted, TextPool.Plain name → s.EnrolsDomain name counted
      ((Command.enrolDomain name counted).answer s)
      ((Command.enrolDomain name counted).apply s)) ∧
    (∀ address counted isAlias, TextPool.Plain address → s.EnrolsClient address counted isAlias
      ((Command.enrolClient address counted isAlias).answer s)
      ((Command.enrolClient address counted isAlias).apply s)) ∧
    (∀ address number, TextPool.Plain address → s.EnrolsForwarder address number
      ((Command.enrolForwarder address number).answer s)
      ((Command.enrolForwarder address number).apply s)) ∧
    ∀ domain client type create, s.EnrolsDecision domain client type create
      ((Command.enrolDecision domain client type create).answer s)
      ((Command.enrolDecision domain client type create).apply s) := by
  intro s
  have i : Ready plainTexts s := ready_of_create hcreate hdirectory given
  have course := course_of_create hcreate hdirectory given
  have indexed : s.registry.Indexed :=
    course.indexed (sound_empty settings directory) (indexed_empty settings directory)
  have f := findsByKey indexed i.sound
  exact ⟨f.keysDiffer, f, fun _ counted plain => enrolsDomain i f plain counted,
    fun _ counted isAlias plain => enrolsClient i f plain counted isAlias,
    fun _ number plain => enrolsForwarder i f plain number, enrolsDecision i f⟩

/-- A domain is found by its name, and a second client is added beside the first. -/
theorem records_follow_keys_of_second_client :
    let settings : Settings := { buckets := 3 }
    let directory : Option AliasLookup := some fun _ _ => some "phones"
    let start := empty settings 5000000 directory .discard (.ending 600 3 5000000)
    let commands : List Command :=
      [.enrolDomain "ads.test" true, .enrolClient "10.0.0.1" true false]
    let s := Command.runAll commands start
    create settings 5000000 directory .discard = .ok start ∧ DirectoryIn plainTexts directory ∧
      (∀ c ∈ commands, ∀ text ∈ c.texts, TextPool.Plain text) ∧
      (∃ h, s.DomainAt h "ads.test" ∧
        (Command.enrolDomain "ads.test" true).answer s = .ok (.domain h)) ∧
      ∃ h alias?, AddsClient s "10.0.0.2" h alias?
        ((Command.enrolClient "10.0.0.2" true false).apply s) := by
  intro settings directory start commands s
  have hcreate : create settings 5000000 directory .discard = .ok start :=
    create_of_made _ _ rfl (by decide +kernel)
  have hdirectory : DirectoryIn plainTexts directory := by
    intro keyOf hkeyOf address hardware key hkey
    rw [← Option.some_inj.1 hkeyOf] at hkey
    rw [← Option.some_inj.1 hkey]
    change TextPool.Plain "phones"
    decide
  have hboth : TextPool.Plain "ads.test" ∧ TextPool.Plain "10.0.0.1" := by decide
  have given : ∀ c ∈ commands, ∀ text ∈ c.texts, TextPool.Plain text := by
    simpa [commands, Command.texts] using hboth
  obtain ⟨-, finds, enrolsDomain, enrolsClient, -⟩ :=
    records_follow_keys hcreate hdirectory given
  have hdomain : (s.findDomain? "ads.test").isSome := by decide +kernel
  obtain ⟨h, hh⟩ := Option.isSome_iff_exists.1 hdomain
  have hat := (finds.domain h "ads.test").1 hh
  have hunknown : s.findClient? "10.0.0.2" = none := by decide +kernel
  have hno : ∀ h, ¬ s.ClientAt h "10.0.0.2" := by
    intro h hh
    rw [← finds.client, hunknown] at hh
    cases hh
  have haccepted : ((Command.enrolClient "10.0.0.2" true false).answer s).isOk := by decide +kernel
  cases hanswer : (Command.enrolClient "10.0.0.2" true false).answer s with
  | error fault =>
    rw [hanswer] at haccepted
    cases haccepted
  | ok a =>
    obtain ⟨k, alias?, -, adds⟩ :=
      (enrolsClient "10.0.0.2" true false (by decide)).added hno rfl rfl a hanswer
    have hfound := ((enrolsDomain "ads.test" true (by decide)).known h hat).1
    exact ⟨hcreate, hdirectory, given, ⟨h, hat, hfound⟩, k, alias?, adds⟩

end Store

end Sinkhole
