import Sinkhole.Proofs.Slot.Insertions
import Sinkhole.Proofs.Store.Enrolments

namespace Sinkhole

/-- In `s` a command gives this answer and does nothing. -/
def Command.Repeats (c : Command) (s : Store) (answer : Answer) : Prop :=
  c.answer s = .ok answer ∧ c.apply s = s

namespace SlotTable

variable {K : Kind} {α : Type} {t t' : SlotTable K α} {h : Handle K} {a : α} {p : α → Bool}

theorem AddsOne.find?_of_none (o : t.AddsOne h t') (hf : t.find? p = none)
    (hg : t'.get? h = some a) (ha : p a) : t'.find? p = some h := by
  rw [find?_eq_some_iff]
  refine ⟨⟨a, hg, ha⟩, fun k b hk hb => ?_⟩
  by_cases hkh : k = h
  · rw [hkh]
  · rw [o.others k hkh] at hk
    rw [find?_eq_none_iff.1 hf k b hk] at hb
    cases hb

end SlotTable

namespace Store

open Attempt StoreM Registry

variable {s s' : Store} {name address : String} {number : UInt16}

/-! ### What a search compares -/

theorem findDomain?_of_registry (hr : s'.registry = s.registry) (name : String) :
    s'.findDomain? name = s.findDomain? name := by
  have hscan : ∀ s : Store, s.findDomain? name =
      s.registry.domains.find? fun d => d.hash == Text.hash name && d.name.text == name := by
    intro s
    exact (SlotTable.find?_map Domain.card s.domains fun d =>
      d.hash == Text.hash name && d.name.text == name).symm
  rw [hscan, hscan, hr]

theorem findClient?_of_registry (hr : s'.registry = s.registry) (address : String) :
    s'.findClient? address = s.findClient? address := by
  have hscan : ∀ s : Store, s.findClient? address =
      s.registry.clients.find? fun c => c.address.spells address := by
    intro s
    exact (SlotTable.find?_map Client.card s.clients (·.address.spells address)).symm
  rw [hscan, hscan, hr]

/-! ### What is found after a call -/

theorem findDomain?_of_enrolDomain (w : s.domains.WellFormed) (plain : TextPool.Plain name)
    {counted : Bool} {h : Handle .domain}
    (hanswer : (Command.enrolDomain name counted).answer s = .ok (.domain h)) :
    ((Command.enrolDomain name counted).apply s).findDomain? name = some h := by
  cases hf : s.findDomain? name with
  | some k =>
    obtain ⟨hknown, happly⟩ := enrolDomain_known hf counted
    rw [hknown] at hanswer
    cases hanswer
    have hregistry : ((Command.enrolDomain name counted).apply s).registry = s.registry := by
      rw [happly]
      cases counted with
      | true => exact registry_countDomain s h true
      | false => rfl
    rw [findDomain?_of_registry hregistry, hf]
  | none =>
    obtain ⟨k, pool, domains, ha, happly, adds, d, hd, hhash, htext⟩ :=
      (enrolDomain_added w hf counted).of_ok hanswer
    cases ha
    change (Command.enrolDomain name counted).apply s = _ at happly
    rw [TextPool.beforeNul_eq_self_iff.2 plain] at htext
    rw [happly]
    exact adds.find?_of_none hf hd (by simp [hhash, htext])

theorem findForwarder?_of_enrolForwarder (w : s.forwarders.WellFormed)
    (plain : TextPool.Plain address) {h : Handle .forwarder}
    (hanswer : (Command.enrolForwarder address number).answer s = .ok (.forwarder h)) :
    ((Command.enrolForwarder address number).apply s).findForwarder? address number = some h := by
  cases hf : s.findForwarder? address number with
  | some k =>
    obtain ⟨hknown, happly⟩ := enrolForwarder_known hf
    rw [hknown] at hanswer
    cases hanswer
    rw [happly, hf]
  | none =>
    obtain ⟨k, pool, forwarders, events, ha, happly, adds, u, hu, hkey⟩ :=
      (enrolForwarder_added w hf).of_ok hanswer
    cases ha
    change (Command.enrolForwarder address number).apply s = _ at happly
    rw [TextPool.beforeNul_eq_self_iff.2 plain, Prod.mk.injEq] at hkey
    rw [happly]
    exact adds.find?_of_none hf hu (by simp [hkey])

/-- The alias-client that comes with a newcomer lies behind it, so a search meets the newcomer first
even where both have one address. -/
theorem Entered.findClient? {n : Int64} {h : Handle .client} {alias? : Option (Handle .client)}
    (e : Entered s address n h alias? s') (w : s.clients.WellFormed)
    (plain : TextPool.Plain address) (hf : s.findClient? address = none) :
    s'.findClient? address = some h := by
  obtain ⟨text_eq, put, followed⟩ := e
  rw [TextPool.beforeNul_eq_self_iff.2 plain] at text_eq
  have hp := SlotTable.placed_of_insert w put
  have hfound := hp.addsOne.find?_of_none hf hp.get?_self (PooledText.spells_iff.2 text_eq)
  cases followed with
  | alone pool' => exact hfound
  | managed known isAlias =>
    rw [findClient?_of_registry (registry_of_clients (SlotTable.map_managed _ _ _))]
    exact hfound
  | presented directory named added =>
    obtain ⟨events', key_eq, put'⟩ := added
    have hp' := SlotTable.placed_of_insert (w.insert put) put'
    rw [findClient?_of_registry (registry_of_clients (SlotTable.map_managed _ _ _))]
    exact hp'.find?_of_lt hfound (SlotTable.index_lt_of_insert w put put')

theorem findClient?_of_enrolClient (w : s.clients.WellFormed) (plain : TextPool.Plain address)
    {counted isAlias : Bool} {h : Handle .client}
    (hanswer : (Command.enrolClient address counted isAlias).answer s = .ok (.client (some h))) :
    ((Command.enrolClient address counted isAlias).apply s).findClient? address = some h := by
  cases hf : s.findClient? address with
  | some k =>
    obtain ⟨hknown, happly⟩ := enrolClient_known hf counted isAlias
    rw [hknown] at hanswer
    cases hanswer
    have hregistry : ((Command.enrolClient address counted isAlias).apply s).registry =
        s.registry := by
      rw [happly]
      split
      · exact registry_charge s h _
      · rfl
    rw [findClient?_of_registry hregistry, hf]
  | none =>
    cases isAlias with
    | true =>
      obtain ⟨k, pool, clients, events, ha, happly, adds, c, hc, htext⟩ :=
        (enrolClient_addedAsAlias w hf counted).of_ok hanswer
      cases ha
      change (Command.enrolClient address counted true).apply s = _ at happly
      rw [TextPool.beforeNul_eq_self_iff.2 plain] at htext
      rw [happly]
      exact adds.find?_of_none hf hc (PooledText.spells_iff.2 htext)
    | false =>
      cases counted with
      | true =>
        obtain ⟨k, alias?, ha, entered⟩ := (enrolClient_added w hf).of_ok hanswer
        cases ha
        exact entered.findClient? w plain hf
      | false =>
        -- Nobody is added then, so no handle could be answered.
        rw [(enrolClient_suppressed hf).1] at hanswer
        cases hanswer

/-! ### The second call -/

/-- A call that does nothing has found its record. -/
theorem repeats_enrolDomain_iff (w : s.domains.WellFormed) {h : Handle .domain} :
    (Command.enrolDomain name false).Repeats s (.domain h) ↔ s.findDomain? name = some h := by
  constructor
  · rintro ⟨hanswer, happly⟩
    cases hf : s.findDomain? name with
    | some k =>
      rw [(enrolDomain_known hf false).1] at hanswer
      cases hanswer
      rfl
    | none =>
      obtain ⟨k, pool, domains, ha, hs, adds, -⟩ := (enrolDomain_added w hf false).of_ok hanswer
      change (Command.enrolDomain name false).apply s = _ at hs
      have hlive : s.domains.contains k := by
        rw [← happly, hs]
        exact adds.live
      rw [adds.isNew] at hlive
      cases hlive
  · intro hf
    exact enrolDomain_known hf false

theorem repeats_enrolForwarder_iff (w : s.forwarders.WellFormed) {h : Handle .forwarder} :
    (Command.enrolForwarder address number).Repeats s (.forwarder h) ↔
      s.findForwarder? address number = some h := by
  constructor
  · rintro ⟨hanswer, happly⟩
    cases hf : s.findForwarder? address number with
    | some k =>
      rw [(enrolForwarder_known hf).1] at hanswer
      cases hanswer
      rfl
    | none =>
      obtain ⟨k, pool, forwarders, events, ha, hs, adds, -⟩ :=
        (enrolForwarder_added w hf).of_ok hanswer
      change (Command.enrolForwarder address number).apply s = _ at hs
      -- A forwarder that was added would have lived before.
      have hlive : s.forwarders.contains k := by
        rw [← happly, hs]
        exact adds.live
      rw [adds.isNew] at hlive
      cases hlive
  · intro hf
    exact enrolForwarder_known hf

theorem repeats_enrolClient_iff {h : Handle .client} :
    (Command.enrolClient address false false).Repeats s (.client (some h)) ↔
      s.findClient? address = some h := by
  constructor
  · rintro ⟨hanswer, -⟩
    cases hf : s.findClient? address with
    | some k =>
      rw [(enrolClient_known hf false false).1] at hanswer
      cases hanswer
      rfl
    | none =>
      rw [(enrolClient_suppressed hf).1] at hanswer
      cases hanswer
  · intro hf
    exact enrolClient_known hf false false

section
variable (i : Ready Set.univ s)
include i

theorem repeats_enrolDomain_iff_plain {counted : Bool} {h : Handle .domain}
    (hanswer : (Command.enrolDomain name counted).answer s = .ok (.domain h)) :
    (Command.enrolDomain name false).Repeats ((Command.enrolDomain name counted).apply s)
      (.domain h) ↔ TextPool.Plain name := by
  have i' := i.apply (.enrolDomain name counted)
  rw [repeats_enrolDomain_iff ((SlotTable.wellFormed_map Domain.card).1 i'.sound.domains)]
  constructor
  · exact plain_of_findDomain? i'.sound
  · intro plain
    exact findDomain?_of_enrolDomain ((SlotTable.wellFormed_map Domain.card).1 i.sound.domains)
      plain hanswer

theorem repeats_enrolForwarder_iff_plain {h : Handle .forwarder}
    (hanswer : (Command.enrolForwarder address number).answer s = .ok (.forwarder h)) :
    (Command.enrolForwarder address number).Repeats ((Command.enrolForwarder address number).apply s)
      (.forwarder h) ↔ TextPool.Plain address := by
  have i' := i.apply (.enrolForwarder address number)
  rw [repeats_enrolForwarder_iff ((SlotTable.wellFormed_map Forwarder.card).1 i'.sound.forwarders)]
  constructor
  · exact plain_of_findForwarder? i'.sound
  · intro plain
    exact findForwarder?_of_enrolForwarder
      ((SlotTable.wellFormed_map Forwarder.card).1 i.sound.forwarders) plain hanswer

theorem repeats_enrolClient_iff_plain {counted isAlias : Bool} {h : Handle .client}
    (hanswer : (Command.enrolClient address counted isAlias).answer s = .ok (.client (some h))) :
    (Command.enrolClient address false false).Repeats
      ((Command.enrolClient address counted isAlias).apply s) (.client (some h)) ↔
      TextPool.Plain address := by
  rw [repeats_enrolClient_iff]
  constructor
  · exact plain_of_findClient? (i.apply _).sound
  · intro plain
    exact findClient?_of_enrolClient ((SlotTable.wellFormed_map Client.card).1 i.sound.clients)
      plain hanswer

end

/-- A record that was found or added is found by the same key at once, and nothing changes, exactly
if the key has no NUL. -/
theorem found_again_iff_plain {settings : Settings} {now : UInt64} {directory : Option AliasLookup}
    {sink : EventSink} {start : Store} (hcreate : create settings now directory sink = .ok start)
    (commands : List Command) :
    let s := Command.runAll commands start
    (∀ name counted h, (Command.enrolDomain name counted).answer s = .ok (.domain h) →
      ((Command.enrolDomain name false).Repeats ((Command.enrolDomain name counted).apply s)
        (.domain h) ↔ TextPool.Plain name)) ∧
    (∀ address number h, (Command.enrolForwarder address number).answer s = .ok (.forwarder h) →
      ((Command.enrolForwarder address number).Repeats
        ((Command.enrolForwarder address number).apply s) (.forwarder h) ↔
        TextPool.Plain address)) ∧
    ∀ address counted isAlias h,
      (Command.enrolClient address counted isAlias).answer s = .ok (.client (some h)) →
      ((Command.enrolClient address false false).Repeats
        ((Command.enrolClient address counted isAlias).apply s) (.client (some h)) ↔
        TextPool.Plain address) := by
  intro s
  have i : Ready Set.univ s := ready_univ hcreate commands
  exact ⟨fun _ _ _ ha => repeats_enrolDomain_iff_plain i ha,
    fun _ _ _ ha => repeats_enrolForwarder_iff_plain i ha,
    fun _ _ _ _ ha => repeats_enrolClient_iff_plain i ha⟩

/-- A client is found again that came with its alias-client, and one is not whose address has a NUL.
-/
theorem found_again_iff_plain_of_presented_client :
    let settings : Settings := { buckets := 3 }
    let start := empty settings 5000000 (some fun _ _ => some "phones") .discard
      (.ending 600 3 5000000)
    let s := Command.runAll [.enrolDomain "ads.test" true] start
    let first := Command.enrolClient "10.0.0.1" true false
    let cut := Command.enrolClient "10.0.0.1\x00" true false
    create settings 5000000 (some fun _ _ => some "phones") .discard = .ok start ∧
      (Command.enrolClient "10.0.0.1" false false).Repeats (first.apply s) (.client (some ⟨0, 0⟩)) ∧
      cut.answer s = .ok (.client (some ⟨0, 0⟩)) ∧
      ¬ (Command.enrolClient "10.0.0.1\x00" false false).Repeats (cut.apply s)
        (.client (some ⟨0, 0⟩)) := by
  intro settings start s first cut
  have hcreate : create settings 5000000 (some fun _ _ => some "phones") .discard = .ok start :=
    create_of_made _ _ rfl (by decide +kernel)
  obtain ⟨-, -, hclient⟩ := found_again_iff_plain hcreate [.enrolDomain "ads.test" true]
  have hfirst : first.answer s = .ok (.client (some ⟨0, 0⟩)) := by decide +kernel
  have hcut : cut.answer s = .ok (.client (some ⟨0, 0⟩)) := by decide +kernel
  refine ⟨hcreate, (hclient "10.0.0.1" true false _ hfirst).2 (by decide), hcut, ?_⟩
  rw [hclient "10.0.0.1\x00" true false _ hcut]
  decide

/-- Asked twice for a name with a NUL, a store without domains adds two of them. -/
theorem name_with_nul_added_twice :
    let settings : Settings := {}
    let start := empty settings 5000000 none .discard (.ending 600 150 5000000)
    let ask := Command.enrolDomain "a\x00b" false
    create settings 5000000 none .discard = .ok start ∧
      ask.answer start = .ok (.domain ⟨0, 0⟩) ∧
      ask.answer (ask.apply start) = .ok (.domain ⟨1, 0⟩) ∧
      (ask.apply start).domains.live = 1 ∧ (ask.apply (ask.apply start)).domains.live = 2 := by
  refine ⟨create_of_made _ _ rfl (by decide +kernel), ?_⟩
  decide +kernel

end Store

end Sinkhole
