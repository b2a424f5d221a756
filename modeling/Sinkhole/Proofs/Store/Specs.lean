import Sinkhole.Proofs.Record.Counts
import Sinkhole.Proofs.Slot.Generation
import Sinkhole.Store.Queries
import Sinkhole.Store.Removal

namespace Sinkhole

/-- A client after a query of it arrived, with the counts that it had. -/
def Client.noteArrival (time : UInt64) (added : Bool) (c : Client) : Client :=
  { c with
    lastQuery := time
    sinceScan := if added then 1 else c.sinceScan }

/-- A client after those of an alias-client left its care. -/
def Client.dismiss (h : Handle .client) (c : Client) : Client :=
  if c.manager = some h then { c with manager := none } else c

namespace SlotTable

section
variable {K : Kind} {α : Type} (t : SlotTable K α) {f : α → α} (hf : ∀ a, f a = a)
include hf

theorem modify_eq_self (h : Handle K) : t.modify h f = t := by
  have hid : f = id := funext hf
  have hslots : t.slots.modify h.index (fun slot => if slot.generation = h.generation then
      { slot with value := slot.value.map f } else slot) = t.slots := by
    apply Array.ext_getElem?
    intro i
    rw [Array.getElem?_modify]
    simp [hid]
  rw [modify, hslots]

theorem mapLive_eq_self : t.mapLive f = t := by
  have hid : f = id := funext hf
  simp [mapLive, hid]

end

def vacated {K : Kind} {α : Type} (t : SlotTable K α) (h : Handle K) : SlotTable K α :=
  ((t.vacate? h).map (·.2)).getD t

theorem vacated_of_not_contains {K : Kind} {α : Type} {t : SlotTable K α} {h : Handle K}
    (hc : t.contains h = false) : t.vacated h = t := by
  have hn : t.get? h = none := by simpa [contains] using hc
  simp [vacated, vacate?_eq_none_iff.2 hn]

theorem vacate?_of_get? {K : Kind} {α : Type} {t : SlotTable K α} {h : Handle K} {a : α}
    (hg : t.get? h = some a) : t.vacate? h = some (a, t.vacated h) := by
  simp [vacate?, vacated, hg]

variable (t : SlotTable .client Client) (h m : Handle .client)

/-- The clients after a change of one client's counts. -/
def charge (δ : CountChange) : SlotTable .client Client :=
  match t.get? h with
  | some c =>
    if c.isAlias then t
    else
      match c.manager with
      | some m => (t.modify h (·.adjust δ)).modify m (·.adjust δ)
      | none => t.modify h (·.adjust δ)
  | none => t

def released : SlotTable .client Client :=
  match t.get? h with
  | some c =>
    match c.manager with
    | some m => (t.modify m (·.expel c)).modify h ({ · with manager := none })
    | none => t
  | none => t

def managed : SlotTable .client Client :=
  match t.get? h, t.get? m with
  | some c, some a =>
    if c.isAlias || !a.isAlias || c.manager == some m then t
    else ((t.released h).modify m (·.absorb c)).modify h ({ · with manager := some m })
  | _, _ => t

def dismissed : SlotTable .client Client :=
  t.mapLive (Client.dismiss h)

theorem contains_released (k : Handle .client) : (t.released h).contains k = t.contains k := by
  unfold released
  split
  · split
    · rw [contains_modify, contains_modify]
    · rfl
  · rfl

def withoutClient : SlotTable .client Client :=
  match t.get? h with
  | some c => if c.isAlias then (t.dismissed h).vacated h else (t.released h).vacated h
  | none => t

end SlotTable

namespace Store

variable (s : Store)

@[simp] theorem store_notifyIf (condition : Bool) (n : Notice) :
    ((StoreM.notifyIf condition n).run s).store = s := by
  cases condition <;> rfl

@[simp] theorem store_discard {α : Type} (x : StoreM α) :
    ((discard x).run s).store = (x.run s).store := by
  simp [discard, Functor.discard, Functor.mapConst]

def eventsAfter (e : Event) : Array Event :=
  if s.sink = .keep then s.events.push e else s.events

theorem store_raise (e : Event) :
    ((StoreM.raise e).run s).store = { s with events := s.eventsAfter e } := by
  unfold StoreM.raise
  dsimp only
  split
  · rename_i hkeep
    rw [eventsAfter, if_pos hkeep]
  · rename_i hclosed
    rw [eventsAfter, if_neg (by simp [hclosed])]
  · rename_i hdiscard
    rw [eventsAfter, if_neg (by simp [hdiscard])]

theorem store_adjustClient (h : Handle .client) (δ : CountChange) :
    ((adjustClient h δ).run s).store = { s with clients := s.clients.charge h δ } := by
  simp only [adjustClient, SlotTable.charge, StoreM.run_bind, StoreM.run_get]
  cases hg : s.clients.get? h with
  | none => rfl
  | some c =>
    by_cases ha : c.isAlias
    · simp only [ha, if_true]
      rfl
    · cases hm : c.manager with
      | none => simp [ha, hm]
      | some m => simp [ha, hm]

theorem store_release (h : Handle .client) :
    ((release h).run s).store = { s with clients := s.clients.released h } := by
  simp only [release, SlotTable.released, StoreM.run_bind, StoreM.run_get]
  cases hg : s.clients.get? h with
  | none => rfl
  | some c =>
    cases hm : c.manager with
    | none => simp [hm]
    | some m => simp [hm]

theorem store_manage (h m : Handle .client) :
    ((manage h m).run s).store = { s with clients := s.clients.managed h m } := by
  simp only [manage, SlotTable.managed, StoreM.run_bind, StoreM.run_get]
  cases hg : s.clients.get? h with
  | none => rfl
  | some c =>
    cases hg' : s.clients.get? m with
    | none => rfl
    | some a =>
      by_cases ha : c.isAlias || !a.isAlias
      · simp [ha]
      · -- A client without an alias-client is not released, which comes to the same.
        by_cases hm : c.manager = some m
        · simp [ha, hm]
        · by_cases hold : c.manager.isSome
          · simp [ha, hm, hold, store_release]
          · have hnone : c.manager = none := by simpa using hold
            simp [ha, hnone, SlotTable.released, hg]

def slid (now : UInt64) : Store :=
  { s with
    ledger := s.ledger.slideTo now
    clients := s.clients.mapLive (Client.foldHistory (s.ledger.window.shiftTo now)) }

theorem store_slideTo (now : UInt64) : ((slideTo now).run s).store = s.slid now := by
  simp only [slideTo, slid, StoreM.run_bind, StoreM.run_get]
  -- Where the window stays, nothing is written, and moving by nothing changes nothing.
  by_cases hshift : s.ledger.window.shiftTo now = 0
  · simp [hshift, Ledger.slideTo, SlotTable.mapLive_eq_self _ Client.foldHistory_zero]
  · simp [hshift]

def blockedShifted (domain : Handle .domain) (client : Handle .client) (n : Int64) : Store :=
  { s with
    domains := s.domains.modify domain (·.addBlocked n)
    clients := s.clients.charge client { blocked := n } }

theorem charge_zero (t : SlotTable .client Client) (h : Handle .client) : t.charge h {} = t := by
  unfold SlotTable.charge
  split
  · split
    · rfl
    · split <;> simp [SlotTable.modify_eq_self _ Client.adjust_zero]
  · rfl

theorem store_shiftBlocked (domain : Handle .domain) (client : Handle .client) (n : Int64) :
    ((shiftBlocked domain client n).run s).store = s.blockedShifted domain client n := by
  unfold shiftBlocked blockedShifted
  by_cases hn : n = 0
  · have hdomain : ∀ d : Domain, d.addBlocked 0 = d := fun d => by simp [Domain.addBlocked]
    subst hn
    rw [SlotTable.modify_eq_self _ hdomain]
    simp [charge_zero]
  · simp [hn, store_adjustClient]

theorem store_reclassify_of_none {query : Handle .query} (hq : s.queries.get? query = none)
    (new : Status) (first : Bool) : ((reclassify query new first).run s).store = s := by
  simp [reclassify, hq]

def reclassified (query : Handle .query) (q : Query) (new : Status) (old : Option Status) : Store :=
  { s with
    ledger := s.ledger.reclassify old new (s.bucketOf q.time)
    queries := s.queries.modify query ({ · with status := new }) }.blockedShifted q.domain q.client
      (blockedChange old new)

theorem store_reclassify_of_some {query : Handle .query} {q : Query}
    (hq : s.queries.get? query = some q) (new : Status) (first : Bool) :
    ((reclassify query new first).run s).store =
      if q.status = new ∧ first = false then s
      else s.reclassified query q new (if first then none else some q.status) := by
  by_cases hkept : q.status = new ∧ first = false
  · simp [reclassify, hq, hkept]
  · simp [reclassify, hq, hkept, store_shiftBlocked, reclassified]

theorem store_noteReply_of_none {query : Handle .query} (hq : s.queries.get? query = none)
    (reply : ReplyKind) : ((noteReply query reply).run s).store = s := by
  simp [noteReply, hq]

def replied (query : Handle .query) (q : Query) (reply : ReplyKind) : Store :=
  { s with
    ledger := s.ledger.replaceReply (some q.reply) reply
    queries := s.queries.modify query ({ · with reply }) }

theorem store_noteReply_of_some {query : Handle .query} {q : Query}
    (hq : s.queries.get? query = some q) (reply : ReplyKind) :
    ((noteReply query reply).run s).store =
      if q.reply = reply then s else s.replied query q reply := by
  by_cases hkept : q.reply = reply
  · simp [noteReply, hq, hkept]
  · simp [noteReply, hq, hkept, replied]

theorem store_countDomain (domain : Handle .domain) (added : Bool) :
    ((countDomain domain added).run s).store =
      { s with domains := s.domains.modify domain (·.addQuery (!added) s.now) } := rfl

/-- The store after a query's arrival was booked. -/
def arrivalCounted (client : Handle .client) (type : RecordType) (time : UInt64) (added : Bool) :
    Store :=
  let bucket := s.bucketOf time
  { s with
    ledger := ((s.ledger.addTotal bucket 1).addType type 1).replaceReply none .unknown
    clients := (s.clients.charge client { total := 1, history := some (bucket, 1) }).modify client
      (Client.noteArrival time added) }

theorem store_countArrival (client : Handle .client) (type : RecordType) (time : UInt64)
    (added : Bool) :
    ((countArrival client type time added).run s).store =
      s.arrivalCounted client type time added := by
  simp only [countArrival, StoreM.run_bind, StoreM.run_get, StoreM.run_modify, store_discard,
    store_adjustClient]
  rfl

theorem store_removeQuery_of_none {query : Handle .query} (hq : s.queries.vacate? query = none) :
    ((removeQuery query).run s).store = s := by
  simp [removeQuery, hq]

def withoutQuery (q : Query) (queries : SlotTable .query Query) : Store :=
  let blocked := q.status.isBlocked
  { s with
    queries
    ledger := unbook s.ledger q
    domains := s.domains.modify q.domain (·.uncount blocked)
    clients := s.clients.charge q.client
      { total := -1
        blocked := if blocked then -1 else 0
        history := some ((unbook s.ledger q).window.bucketOf q.time, -1) } }

theorem store_removeQuery_of_some {query : Handle .query} {q : Query}
    {queries : SlotTable .query Query} (hq : s.queries.vacate? query = some (q, queries)) :
    ((removeQuery query).run s).store = s.withoutQuery q queries := by
  simp [removeQuery, hq, store_adjustClient, withoutQuery, bucketOf]

theorem value_removeFrom {K : Kind} {α : Type} (table : Store → SlotTable K α)
    (put : SlotTable K α → Store → Store) (h : Handle K) :
    ((removeFrom table put h).run s).value = (table s).contains h := by
  simp only [removeFrom, StoreM.run_bind, StoreM.run_get]
  cases hv : (table s).vacate? h with
  | none => simp [SlotTable.contains, SlotTable.vacate?_eq_none_iff.1 hv]
  | some r => simp [SlotTable.contains, SlotTable.get?_vacated hv]

theorem store_removeFrom {K : Kind} {α : Type} (table : Store → SlotTable K α)
    {put : SlotTable K α → Store → Store} (hput : put (table s) s = s) (h : Handle K) :
    ((removeFrom table put h).run s).store = put ((table s).vacated h) s := by
  simp only [removeFrom, SlotTable.vacated, StoreM.run_bind, StoreM.run_get]
  cases hv : (table s).vacate? h with
  | none => simp [hput]
  | some r => simp

theorem run_removeDomain (h : Handle .domain) :
    ((removeDomain h).run s).value = s.domains.contains h ∧
      ((removeDomain h).run s).store = { s with domains := s.domains.vacated h } :=
  ⟨value_removeFrom s _ _ h, store_removeFrom s _ rfl h⟩

theorem run_removeClient (h : Handle .client) :
    ((removeClient h).run s).value = s.clients.contains h ∧
      ((removeClient h).run s).store = { s with clients := s.clients.withoutClient h } := by
  simp only [removeClient, SlotTable.withoutClient, StoreM.run_bind, StoreM.run_get]
  cases hg : s.clients.get? h with
  | none => simp [SlotTable.contains, hg]
  | some c =>
    have hc : s.clients.contains h := SlotTable.contains_iff.2 ⟨c, hg⟩
    by_cases ha : c.isAlias
    · have hdismiss : Client.dismiss h = fun c =>
          if c.manager = some h then { c with manager := none } else c := rfl
      simp [ha, hc, value_removeFrom, store_removeFrom, dismissAll, SlotTable.dismissed, hdismiss,
        SlotTable.contains_mapLive]
    · simp [ha, hc, store_removeFrom, store_release, value_removeFrom, SlotTable.contains_released]

end Store

end Sinkhole
