import Sinkhole.Proofs.Store.Associations
import Sinkhole.Proofs.Store.Leniency

namespace Sinkhole.Store

open Attempt StoreM

variable {s s' s'' : Store} {h k : Handle .client} {n? n'? n''? : Option Int64}
  {f : Option Int64 → Option Int64}

theorem wellFormed_scans (w : s.WellFormed) : s.scans.WellFormed :=
  (SlotTable.wellFormed_map _).2 w.clients

theorem contains_scans (s : Store) (h : Handle .client) :
    s.clients.contains h = (s.scans.get? h).isSome := by
  rw [← SlotTable.contains_map (·.sinceScan)]
  rfl

/-- Clients may have come, and the counts of those that were there are as they were. -/
def Still (s s' : Store) : Prop :=
  ∃ newcomers : List (Handle .client), s.scans.Inserts (newcomers.map (·, 0)) s'.scans

/-- What one count may have become then. -/
inductive Stays : Option Int64 → Option Int64 → Prop where
  | same (n? : Option Int64) : Stays n? n?
  | came : Stays none (some 0)

theorem Stays.trans (a : Stays n? n'?) (a' : Stays n'? n''?) : Stays n? n''? := by
  cases a with
  | same => exact a'
  | came =>
    cases a' with
    | same => exact .came

theorem Stays.eq_some {n : Int64} (a : Stays (some n) n'?) : n'? = some n := by
  cases a with
  | same => rfl

namespace Still

theorem of_eq (hscans : s'.scans = s.scans) : Still s s' := by
  refine ⟨[], ?_⟩
  rw [hscans]
  exact .none

theorem trans (a : Still s s') (a' : Still s' s'') : Still s s'' := by
  obtain ⟨hs, i⟩ := a
  obtain ⟨hs', i'⟩ := a'
  refine ⟨hs ++ hs', ?_⟩
  rw [List.map_append]
  exact i.trans i'

theorem wellFormed (a : Still s s') (w : s.scans.WellFormed) : s'.scans.WellFormed := by
  obtain ⟨hs, i⟩ := a
  exact i.wellFormed w

theorem stays (a : Still s s') (w : s.scans.WellFormed) (h : Handle .client) :
    Stays (s.scans.get? h) (s'.scans.get? h) := by
  obtain ⟨hs, i⟩ := a
  cases hn : s'.scans.get? h with
  | none =>
    cases hm : s.scans.get? h with
    | none => exact .same none
    | some m =>
      rw [(i.get?_eq_some_iff w).2 (.inl hm)] at hn
      cases hn
  | some n =>
    rcases (i.get?_eq_some_iff w).1 hn with hold | hnew
    · rw [hold]
      exact .same (some n)
    · have hdead := SlotTable.get?_of_not_contains (i.not_contains w hnew)
      obtain ⟨_, -, hzero⟩ := List.mem_map.1 hnew
      cases hzero
      rw [hdead]
      exact .came

end Still

instance : Lenient Still where
  of_eq _ _ hscans := .of_eq hscans
  newcomer {_ _ h} _ _ put := ⟨[h], .single put⟩
  trans := .trans

/-! ### What leaves all counts still -/

theorem still_forgetDecisions : Keeping Still forgetDecisions := by
  intro s
  have hgroups : ∀ c : Client, Client.sinceScan { c with groupsKnown := false } = c.sinceScan :=
    fun _ => rfl
  exact .of_eq (SlotTable.map_mapLive_eq Client.sinceScan hgroups s.clients)

theorem still_takeOver (lists : ListSource) (start : UInt64) :
    Keeping Still (takeOver lists start) := by
  intro s
  simp only [takeOver, run_bind, StoreM.run_get, StoreM.run_modify, store_foldlM_takeCount,
    store_orZero, run_notify, run_pure]
  exact Still.trans (.of_eq rfl) (still_forgetDecisions _)

theorem still_reload (lists : ListSource) : KeepingAttempt Still (reload lists) := by
  refine .bind .get fun s => .bind (.liftM fun _ => .of_eq rfl) fun _ => .bind ?_ fun _ => ?_
  · refine .tryCatch (fun s => ?_) fun _ => .bind (.notify _) fun _ => .throw _
    rw [ensures_consult]
    split <;> exact Lenient.refl s
  · exact .liftM (still_takeOver lists _)

theorem still_enrolDecision (domain : Handle .domain) (client : Handle .client)
    (type : RecordType) (create : Bool) :
    KeepingAttempt Still (enrolDecision domain client type create) := by
  refine .bind .get fun s => ?_
  split
  · exact .pure _
  · split
    · exact .bind .get fun s => .bind (.ofTable (fun _ _ => .of_eq rfl) _) fun h => .pure _
    · exact .pure _

/-- Commands on decisions and on lists do not touch the counts either. -/
theorem still_of_unconcerned {c : Command} (hc : c.concernsScans = false) (s : Store) :
    Still s (c.apply s) := by
  cases hlists : c.concernsLists with
  | false => exact keeps_of_unconcerned hlists hc s
  | true =>
    cases c with
    | enrolDecision d c type create =>
      exact keeps_of_attempt (f := .decision) rfl (still_enrolDecision d c type create) s
    | noteVerdict => exact .of_eq rfl
    | forgetDecisions => exact keeps_of_action (f := .number) rfl still_forgetDecisions s
    | removeDecision d =>
      refine keeps_of_action (f := .flag) rfl (keeping_removeFrom (fun _ => rfl) ?_ d) s
      exact fun _ _ => .of_eq rfl
    | reload lists => exact keeps_of_attempt (f := .report) rfl (still_reload lists) s
    | refresh lists =>
      refine keeps_of_attempt (f := .report) rfl ?_ s
      exact .bind (still_reload lists) fun _ => .bind (.notify _) fun _ => .pure _
    | _ => cases hlists

/-! ### What touches one count -/

/-- One client's count became what `f` makes of it, and all others are still. -/
structure Touches (s : Store) (k : Handle .client) (f : Option Int64 → Option Int64)
    (s' : Store) : Prop where
  wellFormed : s'.scans.WellFormed
  self : s'.scans.get? k = f (s.scans.get? k)
  others : ∀ h, h ≠ k → Stays (s.scans.get? h) (s'.scans.get? h)

/-- A client that is there keeps its count, and one that is not comes with a count of one. -/
def seenCount (n? : Option Int64) : Option Int64 :=
  some (n?.getD 1)

theorem Touches.trans (t : Touches s k f s') (live : (f (s.scans.get? k)).isSome)
    (a : Still s' s'') : Touches s k f s'' where
  wellFormed := a.wellFormed t.wellFormed
  self := by
    obtain ⟨n, hn⟩ := Option.isSome_iff_exists.1 live
    have hstays := a.stays t.wellFormed k
    rw [t.self, hn] at hstays
    rw [hn, hstays.eq_some]
  others h hne := (t.others h hne).trans (a.stays t.wellFormed h)

theorem touches_of_modify {g : Int64 → Int64} (w : s.scans.WellFormed)
    (hscans : s'.scans = s.scans.modify k g) : Touches s k (Option.map g) s' where
  wellFormed := by
    rw [hscans]
    exact w.modify k g
  self := by rw [hscans, SlotTable.get?_modify, if_pos rfl]
  others h hne := by
    rw [hscans, SlotTable.get?_modify, if_neg hne.symm]
    exact .same _

theorem touches_removeClient (w : s.WellFormed) (k : Handle .client) :
    Touches s k (fun _ => none) ((Command.removeClient k).apply s) := by
  have hscans : ((Command.removeClient k).apply s).scans = s.scans.vacated k := by
    rw [apply_eq (f := .flag) rfl, (run_removeClient s k).2]
    exact SlotTable.map_withoutClient_of_bare s.clients k fun _ => rfl
  refine ⟨?_, ?_, fun h hne => ?_⟩
  · rw [hscans]
    exact (wellFormed_scans w).vacated k
  · rw [hscans, SlotTable.get?_vacated_eq, if_pos rfl]
  · rw [hscans, SlotTable.get?_vacated_eq, if_neg hne.symm]
    exact .same _

/-- The report of a live client resets its count before the alias-client can find no room. -/
theorem touches_assignHardware (w : s.WellFormed) (k : Handle .client)
    (hardware : HardwareAddress) (interface : String) :
    Ensures (assignHardware k hardware interface) s
      (fun _ s' => if (s.pool.intern interface).isOk then
          s.clients.contains k ∧ Touches s k (Option.map fun _ => 0) s'
        else s' = s)
      fun known s' => if known then
          s.clients.contains k ∧ Touches s k (Option.map fun _ => 0) s'
        else s' = s := by
  cases hc : s.clients.contains k with
  | false => simp [assignHardware, hc]
  | true =>
    rw [ensures_assignHardware_iff hc]
    split
    · rename_i placed pool hplaced
      let s₁ : Store :=
        { s with pool, clients := s.clients.modify k (Client.sighted hardware placed) }
      have hscans : s₁.scans = s.scans.modify k fun _ => 0 :=
        SlotTable.map_modify Client.sinceScan (fun _ => rfl) s.clients k
      have hlive : ((s.scans.get? k).map fun _ => (0 : Int64)).isSome := by
        rw [Option.isSome_map, ← contains_scans, hc]
      -- The count is reset before the directory is asked, which touches no count any more.
      have htouches : ∀ s', Still s₁ s' → Touches s k (Option.map fun _ => 0) s' := fun s' a =>
        (touches_of_modify (wellFormed_scans w) hscans).trans hlive a
      refine (keeping_followDirectory (R := Still) k s₁).mono (fun _ s' a => ?_) fun _ s' a => ?_
      · rw [if_pos (by rw [hplaced]; rfl)]
        exact ⟨rfl, htouches s' a⟩
      · exact ⟨rfl, htouches s' a⟩
    · rename_i full hfull
      rw [hfull]
      change s = s
      rfl

theorem Seated.touches {address : String} {isAlias : Bool} (w : s.WellFormed)
    (a : Seated s address isAlias 1 k s') : Touches s k seenCount s' := by
  obtain ⟨-, put⟩ := a
  have hput := SlotTable.insert_map Client.sinceScan put
  have hp := SlotTable.placed_of_insert (wellFormed_scans w) hput
  refine ⟨(wellFormed_scans w).insert hput, hp.get?_self.trans ?_, fun h hne => ?_⟩
  · rw [hp.get?_eq_none]
    rfl
  · have hsame := hp.get?_eq h
    rw [if_neg hne.symm] at hsame
    exact hsame ▸ .same _

theorem touches_enrolClient (w : s.WellFormed) (address : String) :
    Ensures (enrolClient address true false) s (fun _ => Still s) fun r s' =>
      ∃ k, r = some k ∧ Touches s k seenCount s' := by
  simp only [enrolClient, ensures_bind, ensures_get]
  split
  · rename_i k hf
    obtain ⟨n, hn⟩ := Option.isSome_iff_exists.1
      ((contains_scans s k).symm.trans (SlotTable.contains_of_find? hf))
    -- A client that was there keeps its count, though it is charged.
    have still := keeping_adjustClient (R := Still) k { total := 1 } s
    have hstays := still.stays (wellFormed_scans w)
    simp only [Bool.not_false, Bool.and_self, if_true, ensures_bind, ensures_discard, ensures_liftM,
      ensures_pure]
    refine ⟨k, rfl, still.wellFormed (wellFormed_scans w), ?_, fun h _ => hstays h⟩
    have hself := hstays k
    rw [hn] at hself ⊢
    exact hself.eq_some
  · simp only [Bool.false_eq_true, if_false, if_true, ensures_bind, ensures_pure]
    refine (ensures_addClient_iff address true).2 ?_
    refine (seated_addRecord address false true s).mono ?_ ?_
    · rintro _ s' ⟨-, pool, rfl⟩
      exact .of_eq rfl
    · intro k s₁ seated
      have hdone : ∀ s', Still s₁ s' → ∃ k', some k = some k' ∧ Touches s k' seenCount s' :=
        fun s' a => ⟨k, rfl, (seated.touches w).trans rfl a⟩
      exact (keeping_followDirectory (R := Still) k _).mono (fun _ s' a => hdone s' a)
        fun _ s' a => hdone s' a

theorem scans_arrivalCounted (s : Store) (client : Handle .client) (type : RecordType)
    (time : UInt64) (added : Bool) :
    (s.arrivalCounted client type time added).scans =
      s.scans.modify client fun n => if added then 1 else n := by
  have hnote : ∀ c : Client, (c.noteArrival time added).sinceScan =
      if added then 1 else c.sinceScan := fun _ => rfl
  have hcharge : ∀ δ, (s.clients.charge client δ).map Client.sinceScan = s.scans := fun δ =>
    SlotTable.map_of_bare (fun _ => rfl) (SlotTable.bare_charge s.clients client δ)
  rw [scans, arrivalCounted, SlotTable.map_modify Client.sinceScan hnote, hcharge]

/-- Whether its client was known or has come for it decides what an arrival makes of the count. -/
theorem ClientMet.touches {address : String} {r : Handle .client × Bool} {s₁ s₂ : Store}
    (w : s.WellFormed) (met : ClientMet s address r s₁) (a₁ : Still s s₁) (a₂ : Still s₁ s₂)
    (type : RecordType) (time : UInt64) :
    Touches s r.1 seenCount (s₂.arrivalCounted r.1 type time r.2) := by
  have w₁ := a₁.wellFormed (wellFormed_scans w)
  have t := touches_of_modify (a₂.wellFormed w₁) (scans_arrivalCounted s₂ r.1 type time r.2)
  -- A newcomer has a zero that becomes one, and any other client keeps what it has.
  have hself : (s₂.scans.get? r.1).map (fun n => if r.2 then 1 else n) =
      seenCount (s.scans.get? r.1) := by
    cases met with
    | @known k found =>
      obtain ⟨n, hn⟩ := Option.isSome_iff_exists.1
        ((contains_scans s k).symm.trans (SlotTable.contains_of_find? found))
      have hstays := a₂.stays w₁ k
      rw [hn] at hstays
      rw [hn, hstays.eq_some]
      rfl
    | @added k _ _ _ joined =>
      obtain ⟨placed, manager, -, hrecord⟩ := joined.record
      have hstays := a₂.stays w₁ k
      have hcome : s₁.scans.get? k = some 0 := SlotTable.get?_map_of_get? Client.sinceScan hrecord
      have hdead : s.scans.get? k = none := by
        rw [← Option.not_isSome_iff_eq_none, ← contains_scans, joined.isNew]
        exact Bool.false_ne_true
      rw [hcome] at hstays
      rw [hdead, hstays.eq_some]
      rfl
  exact ⟨t.wellFormed, t.self.trans hself, fun h hne =>
    ((a₁.trans a₂).stays (wellFormed_scans w) h).trans (t.others h hne)⟩

theorem client_of_registry {q : Handle .query} {r : Query} (hregistry : s'.registry = s.registry)
    (hq : s.queries.get? q = some r) : (s'.queries.get? q).map (·.client) = some r.client := by
  have hcard : (s'.queries.map Query.card).get? q = (s.queries.map Query.card).get? q :=
    congrArg (fun r : Registry => r.queries.get? q) hregistry
  rw [SlotTable.get?_map, SlotTable.get?_map, hq] at hcard
  obtain ⟨r', hr', hsame⟩ := Option.map_eq_some_iff.1 hcard
  rw [hr']
  exact congrArg (fun card : Query.Card => some card.client) hsame

theorem touches_booking {address : String} {q : Query} {newClient : Bool} {s₁ s₂ : Store}
    (w : s.WellFormed) (met : ClientMet s address (q.client, newClient) s₁) (a₁ : Still s s₁)
    (a₂ : Still s₁ s₂) (newDomain : Bool) :
    Touches s q.client seenCount (s₂.arrivalBooked q newDomain newClient) := by
  have a₃ : Still s₂ (s₂.slid q.time) := by
    rw [← store_slideTo]
    exact keeping_slideTo (R := Still) q.time s₂
  have a₄ := keeping_countDomain (R := Still) q.domain newDomain (s₂.slid q.time)
  rw [store_countDomain] at a₄
  exact met.touches w a₁ ((a₂.trans a₃).trans a₄) q.type q.time

/-- Only a client that comes with its query is given a count for it. -/
theorem touches_recordQuery (w : s.WellFormed) (new : Arrival) :
    Ensures (recordQuery new) s (fun _ => Still s) fun q s' =>
      ∃ k, (s'.queries.get? q).map (·.client) = some k ∧ Touches s k seenCount s' := by
  refine (ensures_recordQuery_iff new).2 ?_
  split
  · refine ((met_clientFor w.clients new.client).and
      (keeping_clientFor (R := Still) new.client s)).mono (fun _ _ a => a.2) ?_
    rintro ⟨client, newClient⟩ s₁ ⟨met, a₁⟩
    refine ((placed_domainFor new.domain s₁).and
      (keeping_domainFor (R := Still) new.domain s₁)).mono (fun _ _ a => a₁.trans a.2) ?_
    rintro ⟨domain, newDomain⟩ s₂ ⟨placed, a₂⟩
    -- The domain may be new, but no query has come since.
    have hqueries : s₂.queries = s.queries := by
      obtain ⟨pool, clients, events, rfl⟩ := met.frame
      cases placed <;> rfl
    intro q
    split
    · rename_i h t put
      rw [hqueries] at put
      have hrecord := (SlotTable.placed_of_push w.queries put).get?_self
      have hput : Still s₁ { s₂ with queries := t } := a₂.trans (.of_eq rfl)
      have t₃ : Touches s q.client seenCount _ := touches_booking w met a₁ hput newDomain
      refine ⟨q.client, ?_, t₃.trans rfl (keeping_reclassify (R := Still) h q.status true _)⟩
      refine client_of_registry (s := { s₂ with queries := t }) ?_ hrecord
      rw [registry_reclassify, registry_arrivalBooked]
    · exact a₁.trans a₂
  · exact Lenient.refl (R := Still) s

end Sinkhole.Store
