import Sinkhole.Proofs.Slot.Ring
import Sinkhole.Proofs.Store.Courses

namespace Sinkhole

namespace Client

/-- A record that nothing is counted for. -/
structure Uncounted (c : Client) : Prop where
  count_eq : c.count = 0
  blocked_eq : c.blocked = 0
  sinceScan_eq : c.sinceScan = 0
  history_eq : ∀ n ∈ c.history, n = 0

theorem zipWith_add_zeros (row zeros : List Int64) (hzeros : ∀ n ∈ zeros, n = 0) :
    List.zipWith (· + ·) row zeros ++ row.drop zeros.length = row := by
  induction row generalizing zeros with
  | nil => simp
  | cons n row ih =>
    cases zeros with
    | nil => rfl
    | cons zero zeros =>
      have hzero : zero = 0 := hzeros zero List.mem_cons_self
      have hrest := ih zeros fun m hm => hzeros m (List.mem_cons_of_mem _ hm)
      rw [List.zipWith_cons_cons, List.length_cons, List.drop_succ_cons, List.cons_append, hrest,
        hzero, Int64.add_zero]

theorem absorb_of_uncounted (c : Client) {member : Client} (u : member.Uncounted) :
    c.absorb member = c := by
  simp only [absorb, u.count_eq, u.blocked_eq, Int64.add_zero,
    zipWith_add_zeros c.history member.history u.history_eq]

end Client

namespace SlotTable

variable {t : SlotTable .client Client} {h m : Handle .client} {c a : Client}

theorem get?_managed (hg : t.get? h = some c) (hregular : c.isAlias = false)
    (hfree : c.manager = none) (ha : t.get? m = some a) (halias : a.isAlias) (k : Handle .client) :
    (t.managed h m).get? k =
      if h = k then some { c with manager := some m }
      else if m = k then some (a.absorb c) else t.get? k := by
  have hne : h ≠ m := by
    rintro rfl
    rw [hg] at ha
    cases ha
    rw [hregular] at halias
    cases halias
  -- Without an alias-client there are no counts to take back first.
  have hreleased : t.released h = t := by simp [released, hg, hfree]
  have hmanaged : t.managed h m =
      (t.modify m (·.absorb c)).modify h ({ · with manager := some m }) := by
    simp [managed, hg, ha, hregular, halias, hfree, hreleased]
  rw [hmanaged, get?_modify, get?_modify]
  by_cases hh : h = k
  · subst hh
    rw [if_pos rfl, if_pos rfl, if_neg hne.symm, hg]
    rfl
  · by_cases hm : m = k
    · subst hm
      rw [if_neg hh, if_pos rfl, if_neg hh, if_pos rfl, ha]
      rfl
    · rw [if_neg hh, if_neg hm, if_neg hh, if_neg hm]

theorem contains_managed (t : SlotTable .client Client) (h m k : Handle .client) :
    (t.managed h m).contains k = t.contains k := by
  unfold managed
  split
  · split
    · rfl
    · rw [contains_modify, contains_modify, contains_released]
  · rfl

theorem managed_of_regular (ha : t.get? m = some a) (hregular : a.isAlias = false) :
    t.managed h m = t := by
  unfold managed
  split
  · rename_i _ b _ hb
    rw [ha] at hb
    cases hb
    simp [hregular]
  · rfl

end SlotTable

namespace Store

open Attempt StoreM

variable {s s' s'' : Store} {address : String} {isAlias : Bool} {n : Int64}
  {h k : Handle .client} {c : Client}

/-- The record of a client that is added, with `n` calls counted. -/
def newcomer (s : Store) (placed : PooledText) (isAlias : Bool) (n : Int64) : Client where
  address := placed
  isAlias := isAlias
  count := n
  sinceScan := n
  history := List.replicate s.ledger.window.length 0
  firstSeen := s.now

theorem uncounted_newcomer (s : Store) (placed : PooledText) (isAlias : Bool) :
    (s.newcomer placed isAlias 0).Uncounted where
  count_eq := rfl
  blocked_eq := rfl
  sinceScan_eq := rfl
  history_eq _ hn := List.eq_of_mem_replicate hn

/-- The fault of an attempt that found no place for a text or for a record. -/
def LacksRoom (full : TableFull) (fault : Fault) : Prop :=
  (∃ limit, fault = .exhausted "string pool" limit) ∨ fault = .ofFullTable full

/-- A record was put into the clients, and nothing else was done. -/
inductive Enrolled (s : Store) (address : String) (isAlias : Bool) (n : Int64)
    (h : Handle .client) : Store → Prop where
  | intro {placed : PooledText} {pool : TextPool} {t : SlotTable .client Client}
      (events : Array Event) (text_eq : placed.text = TextPool.beforeNul address)
      (put : s.clients.insert (s.newcomer placed isAlias n) = .ok (h, t)) :
      Enrolled s address isAlias n h { s with pool, clients := t, events }

/-- A record was put into the clients, and its host name is to be found. -/
inductive Seated (s : Store) (address : String) (isAlias : Bool) (n : Int64)
    (h : Handle .client) : Store → Prop where
  | intro {placed : PooledText} {pool : TextPool} {t : SlotTable .client Client}
      (text_eq : placed.text = TextPool.beforeNul address)
      (put : s.clients.insert (s.newcomer placed isAlias n) = .ok (h, t)) :
      Seated s address isAlias n h
        { s with pool, clients := t, events := s.eventsAfter .resolveNames }

theorem seated_addRecord (address : String) (isAlias counted : Bool) (s : Store) :
    Ensures (addRecord address isAlias counted) s
      (fun fault s' => LacksRoom s.clients.full fault ∧ ∃ pool, s' = { s with pool })
      (Seated s address isAlias (if counted then 1 else 0)) := by
  simp only [addRecord, ensures_bind, ensures_intern]
  split
  · rename_i placed pool hplaced
    simp only [ensures_get, ensures_ofTable]
    split
    · rename_i h t put
      simp only [ensures_liftM, run_notify, ensures_pure, store_raise]
      exact .intro (TextPool.text_of_intern hplaced) put
    · rename_i full hfull
      exact ⟨.inr (congrArg _ (SlotTable.insert_eq_error hfull)), pool, rfl⟩
  · exact ⟨.inl ⟨_, rfl⟩, s.pool, rfl⟩

theorem enrolled_addRecord (address : String) (isAlias counted : Bool) (s : Store) :
    Ensures (addRecord address isAlias counted) s
      (fun fault s' => LacksRoom s.clients.full fault ∧ ∃ pool, s' = { s with pool })
      (Enrolled s address isAlias (if counted then 1 else 0)) := by
  refine (seated_addRecord address isAlias counted s).mono (fun _ _ f => f) ?_
  rintro h s' ⟨text_eq, put⟩
  exact .intro _ text_eq put

/-- What the directory makes of a regular client, where no fault comes up. -/
inductive Directed (s : Store) (h : Handle .client) (c : Client) : Store → Prop where
  | undirected (directory : s.directory = none) : Directed s h c s
  | released {keyOf : AliasLookup} (directory : s.directory = some keyOf)
      (unnamed : keyOf c.address.text c.hardware = none) :
      Directed s h c { s with clients := s.clients.released h }
  | known {keyOf : AliasLookup} {key : String} {m : Handle .client}
      (directory : s.directory = some keyOf) (named : keyOf c.address.text c.hardware = some key)
      (found : s.findClient? key = some m) :
      Directed s h c { s with clients := s.clients.managed h m }
  | added {keyOf : AliasLookup} {key : String} {m : Handle .client} {s' : Store}
      (directory : s.directory = some keyOf) (named : keyOf c.address.text c.hardware = some key)
      (unknown : s.findClient? key = none) (added : Enrolled s key true 0 m s') :
      Directed s h c { s' with clients := s'.clients.managed h m }

/-- Only an alias-client that is to be added can find no room. -/
theorem directed_followDirectory (hg : s.clients.get? h = some c) (hregular : c.isAlias = false) :
    Ensures (followDirectory h) s
      (fun fault s' => LacksRoom s.clients.full fault ∧ ∃ pool, s' = { s with pool })
      fun _ => Directed s h c := by
  simp only [followDirectory, ensures_bind, ensures_get]
  split
  · rename_i keyOf b hdirectory hb
    rw [hg] at hb
    cases hb
    rw [if_neg (Bool.not_eq_true _ ▸ hregular)]
    split
    · rename_i hnone
      simp only [ensures_discard, ensures_liftM, store_release]
      exact .released hdirectory hnone
    · rename_i key hkey
      simp only [aliasFor, ensures_bind, ensures_get]
      split
      · rename_i m hf
        have hdone : Directed s h c { s with clients := s.clients.managed h m } :=
          .known hdirectory hkey hf
        simp only [ensures_pure, ensures_liftM, store_manage]
        split
        · exact hdone
        · exact hdone
      · rename_i hf
        refine (enrolled_addRecord key true false s).mono (fun _ _ f => f) fun m s' added => ?_
        have hdone : Directed s h c { s' with clients := s'.clients.managed h m } :=
          .added hdirectory hkey hf added
        simp only [ensures_liftM, store_manage]
        split
        · exact hdone
        · exact hdone
  · rename_i hno
    refine .undirected (Option.eq_none_iff_forall_ne_some.2 fun keyOf hdirectory => ?_)
    exact hno keyOf c hdirectory hg

/-- What becomes of a regular client without an alias-client where it follows the directory. The
first argument is the alias-client that is added for it. -/
inductive Followed (s : Store) (h : Handle .client) (c : Client) :
    Option (Handle .client) → Store → Prop where
  | alone (pool : TextPool) : Followed s h c none { s with pool }
  | managed {m : Handle .client} {a : Client} (known : s.clients.get? m = some a)
      (isAlias : a.isAlias) : Followed s h c none { s with clients := s.clients.managed h m }
  | presented {keyOf : AliasLookup} {key : String} {m : Handle .client} {s' : Store}
      (directory : s.directory = some keyOf) (named : keyOf c.address.text c.hardware = some key)
      (added : Enrolled s key true 0 m s') :
      Followed s h c (some m) { s' with clients := s'.clients.managed h m }

theorem Directed.followed (hg : s.clients.get? h = some c) (hfree : c.manager = none)
    (d : Directed s h c s') : ∃ alias?, Followed s h c alias? s' := by
  have hsame : Followed s h c none s := .alone s.pool
  cases d with
  | undirected => exact ⟨none, hsame⟩
  | released =>
    -- A client without an alias-client is not released from one.
    have hreleased : s.clients.released h = s.clients := by simp [SlotTable.released, hg, hfree]
    rw [hreleased]
    exact ⟨none, hsame⟩
  | known _ _ found =>
    obtain ⟨a, ha, -⟩ := SlotTable.get?_of_find? found
    cases halias : a.isAlias with
    | true => exact ⟨none, .managed ha halias⟩
    | false =>
      rw [SlotTable.managed_of_regular ha halias]
      exact ⟨none, hsame⟩
  | added directory named _ added => exact ⟨_, .presented directory named added⟩

theorem followed_followDirectory (hg : s.clients.get? h = some c) (hregular : c.isAlias = false)
    (hfree : c.manager = none) :
    Ensures (followDirectory h) s (fun _ => Followed s h c none) fun _ s' =>
      ∃ alias?, Followed s h c alias? s' := by
  refine (directed_followDirectory hg hregular).mono ?_ fun _ s' d => d.followed hg hfree
  rintro fault s' ⟨-, pool, rfl⟩
  exact .alone pool

/-- A regular client with an address was added, and at most one alias-client with it. -/
structure Joined (s : Store) (address : String) (n : Int64) (h : Handle .client)
    (alias? : Option (Handle .client)) (s' : Store) : Prop where
  frame : ∃ pool clients events, s' = { s with pool, clients, events }
  isNew : s.clients.contains h = false
  record : ∃ placed manager, placed.text = TextPool.beforeNul address ∧
    s'.clients.get? h = some { s.newcomer placed false n with manager }
  kept : ∀ k c, s.clients.get? k = some c → ∃ c', s'.clients.get? k = some c' ∧
    (c' = c ∨ ∃ placed, c' = c.absorb (s.newcomer placed false n))
  only : ∀ k, s'.clients.contains k → s.clients.contains k ∨ k = h ∨ alias? = some k
  presented : ∀ k, alias? = some k → k ≠ h ∧ s.clients.contains k = false ∧
    ∃ keyOf key placed member, s.directory = some keyOf ∧
      keyOf (TextPool.beforeNul address) none = some key ∧
      placed.text = TextPool.beforeNul key ∧
      s'.clients.get? k = some ((s.newcomer placed true 0).absorb (s.newcomer member false n))

section
variable {placed : PooledText} {t t' : SlotTable .client Client} {m : Handle .client} {a : Client}
  {key : String} {keyOf : AliasLookup} (text_eq : placed.text = TextPool.beforeNul address)
  (hp : s.clients.Placed t h (s.newcomer placed false n))
include text_eq hp

theorem joined_alone (pool : TextPool) (events : Array Event) :
    Joined s address n h none { s with pool, clients := t, events } where
  frame := ⟨pool, t, events, rfl⟩
  isNew := hp.not_contains
  record := ⟨placed, none, text_eq, hp.get?_self⟩
  kept _ c hk := ⟨c, hp.get?_of_get? hk, .inl rfl⟩
  only _ hk := (hp.contains_or_eq hk).imp_right .inl
  presented := nofun

theorem joined_managed (known : t.get? m = some a) (isAlias : a.isAlias) (pool : TextPool)
    (events : Array Event) :
    Joined s address n h none { s with pool, clients := t.managed h m, events } := by
  have hview := SlotTable.get?_managed hp.get?_self rfl rfl known isAlias
  refine ⟨⟨pool, _, events, rfl⟩, hp.not_contains, ⟨placed, some m, text_eq, ?_⟩,
    fun k c hk => ?_, fun k hk => ?_, nofun⟩
  · exact (hview h).trans (if_pos rfl)
  · have hk' := hview k
    rw [if_neg (hp.ne_of_get? hk)] at hk'
    split at hk'
    · rename_i hm
      rw [hm, hp.get?_of_get? hk] at known
      cases known
      exact ⟨_, hk', .inr ⟨placed, rfl⟩⟩
    · exact ⟨c, hk'.trans (hp.get?_of_get? hk), .inl rfl⟩
  · have hlive : t.contains k := by
      rw [← SlotTable.contains_managed t h m k]
      exact hk
    exact (hp.contains_or_eq hlive).imp_right .inl

theorem joined_presented {placed' : PooledText} (key_eq : placed'.text = TextPool.beforeNul key)
    (hp' : t.Placed t' m (s.newcomer placed' true 0)) (directory : s.directory = some keyOf)
    (named : keyOf placed.text none = some key) (pool : TextPool) (events : Array Event) :
    Joined s address n h (some m) { s with pool, clients := t'.managed h m, events } := by
  have hne : m ≠ h := hp'.ne_of_get? hp.get?_self
  -- Taking the newcomer over changes no client but the two new ones.
  have hview := SlotTable.get?_managed (hp'.get?_of_get? hp.get?_self) rfl rfl hp'.get?_self rfl
  refine ⟨⟨pool, _, events, rfl⟩, hp.not_contains, ⟨placed, some m, text_eq, ?_⟩,
    fun k c hk => ?_, fun k hk => ?_, ?_⟩
  · exact (hview h).trans (if_pos rfl)
  · have hk' := hview k
    rw [if_neg (hp.ne_of_get? hk), if_neg (hp'.ne_of_get? (hp.get?_of_get? hk)),
      hp'.get?_of_get? (hp.get?_of_get? hk)] at hk'
    exact ⟨c, hk', .inl rfl⟩
  · have hlive : t'.contains k := by
      rw [← SlotTable.contains_managed t' h m k]
      exact hk
    rcases hp'.contains_or_eq hlive with hold | rfl
    · exact (hp.contains_or_eq hold).imp_right .inl
    · exact .inr (.inr rfl)
  · rintro k hk
    cases hk
    -- What was put in last has a handle that no earlier client had.
    have hfresh : s.clients.contains m = false := by
      refine Bool.eq_false_of_not_eq_true fun hc => ?_
      obtain ⟨c, hc⟩ := SlotTable.contains_iff.1 hc
      exact hp'.ne_of_get? (hp.get?_of_get? hc) rfl
    refine ⟨hne, hfresh, keyOf, key, placed', placed, directory, text_eq ▸ named, key_eq, ?_⟩
    exact (hview m).trans (by rw [if_neg hne.symm, if_pos rfl])

end

/-- A regular client was put into the clients, and followed the directory then. -/
inductive Entered (s : Store) (address : String) (n : Int64) (h : Handle .client)
    (alias? : Option (Handle .client)) (s' : Store) : Prop where
  | intro {placed : PooledText} {pool : TextPool} {t : SlotTable .client Client}
      {events : Array Event} (text_eq : placed.text = TextPool.beforeNul address)
      (put : s.clients.insert (s.newcomer placed false n) = .ok (h, t))
      (followed : Followed { s with pool, clients := t, events } h (s.newcomer placed false n)
        alias? s')

theorem Entered.joined {alias? : Option (Handle .client)} (w : s.clients.WellFormed)
    (e : Entered s address n h alias? s') : Joined s address n h alias? s' := by
  obtain ⟨text_eq, put, followed⟩ := e
  have hp := SlotTable.placed_of_insert w put
  cases followed with
  | alone pool' => exact joined_alone text_eq hp pool' _
  | managed known isAlias => exact joined_managed text_eq hp known isAlias _ _
  | presented directory named added =>
    obtain ⟨events', key_eq, put'⟩ := added
    have hp' := SlotTable.placed_of_insert (w.insert put) put'
    exact joined_presented text_eq hp key_eq hp' directory named _ events'

/-- Once the newcomer is in, no fault of its alias-client gets out. -/
theorem entered_addClient (w : s.clients.WellFormed) (address : String) (counted : Bool) :
    Ensures (addClient address counted) s
      (fun fault s' => LacksRoom s.clients.full fault ∧ ∃ pool, s' = { s with pool })
      fun h s' => ∃ alias?, Entered s address (if counted then 1 else 0) h alias? s' := by
  refine (ensures_addClient_iff address counted).2 ?_
  refine (enrolled_addRecord address false counted s).mono (fun _ _ f => f) ?_
  rintro h s₁ ⟨events, text_eq, put⟩
  rename_i placed pool t
  have hrecord : t.get? h = some (s.newcomer placed false (if counted then 1 else 0)) :=
    (SlotTable.placed_of_insert w put).get?_self
  refine (followed_followDirectory hrecord rfl rfl).mono (fun _ s' f => ?_) ?_
  · exact ⟨none, text_eq, put, f⟩
  · rintro _ s' ⟨alias?, f⟩
    exact ⟨alias?, text_eq, put, f⟩

theorem joined_addClient (w : s.clients.WellFormed) (address : String) (counted : Bool) :
    Ensures (addClient address counted) s
      (fun fault s' => LacksRoom s.clients.full fault ∧ ∃ pool, s' = { s with pool })
      fun h s' => ∃ alias?, Joined s address (if counted then 1 else 0) h alias? s' :=
  (entered_addClient w address counted).mono (fun _ _ f => f)
    fun _ _ ⟨alias?, entered⟩ => ⟨alias?, entered.joined w⟩

/-- A client was known, or has joined uncounted. -/
inductive ClientMet (s : Store) (address : String) : Handle .client × Bool → Store → Prop where
  | known {h : Handle .client} (found : s.findClient? address = some h) :
      ClientMet s address (h, false) s
  | added {h : Handle .client} {alias? : Option (Handle .client)} {s' : Store}
      (unknown : s.findClient? address = none) (joined : Joined s address 0 h alias? s') :
      ClientMet s address (h, true) s'

theorem met_clientFor (w : s.clients.WellFormed) (address : String) :
    Ensures (clientFor address) s
      (fun fault s' => LacksRoom s.clients.full fault ∧ ∃ pool, s' = { s with pool })
      (ClientMet s address) := by
  simp only [clientFor, ensures_bind, ensures_get]
  split
  · rename_i h hf
    exact .known hf
  · rename_i hf
    simp only [ensures_bind, ensures_pure]
    refine (joined_addClient w address false).mono (fun _ _ f => f) ?_
    rintro h s' ⟨alias?, joined⟩
    exact .added hf joined

theorem ClientMet.frame {address : String} {r : Handle .client × Bool}
    (m : ClientMet s address r s') :
    ∃ pool clients events, s' = { s with pool, clients, events } := by
  cases m with
  | known => exact ⟨s.pool, s.clients, s.events, rfl⟩
  | added _ joined => exact joined.frame

/-- A domain was known, or was put into the domains. -/
inductive DomainMet (s : Store) (name : String) : Handle .domain × Bool → Store → Prop where
  | known {h : Handle .domain} (found : s.findDomain? name = some h) : DomainMet s name (h, false) s
  | added {placed : PooledText} {pool : TextPool} {h : Handle .domain}
      {t : SlotTable .domain Domain} (unknown : s.findDomain? name = none)
      (text_eq : placed.text = TextPool.beforeNul name)
      (put : s.domains.insert { name := placed, hash := Text.hash name } = .ok (h, t)) :
      DomainMet s name (h, true) { s with pool, domains := t }

theorem placed_domainFor (name : String) (s : Store) :
    Ensures (domainFor name) s
      (fun fault s' => LacksRoom s.domains.full fault ∧ ∃ pool, s' = { s with pool })
      (DomainMet s name) := by
  simp only [domainFor, ensures_bind, ensures_get]
  split
  · rename_i h hf
    exact .known hf
  · rename_i hf
    simp only [addDomain, ensures_bind, ensures_intern]
    split
    · rename_i placed pool hplaced
      simp only [ensures_get, ensures_ofTable]
      split
      · rename_i h t put
        exact .added hf (TextPool.text_of_intern hplaced) put
      · rename_i full hfull
        exact ⟨.inr (congrArg _ (SlotTable.insert_eq_error hfull)), pool, rfl⟩
    · exact ⟨.inl ⟨_, rfl⟩, s.pool, rfl⟩

/-- How a query is refused. -/
inductive Refused (s : Store) (new : Arrival) : Fault → Store → Prop where
  | noSlot (full : s.queries.hasRoom = false) : Refused s new (.ofFullTable s.queries.full) s
  | noClient {fault : Fault} (pool : TextPool) (lacking : LacksRoom s.clients.full fault) :
      Refused s new fault { s with pool }
  | noDomain {fault : Fault} {r : Handle .client × Bool} {s' : Store} (pool : TextPool)
      (met : ClientMet s new.client r s') (lacking : LacksRoom s.domains.full fault) :
      Refused s new fault { s' with pool }

theorem refused_recordQuery (w : s.WellFormed) (new : Arrival) :
    Ensures (recordQuery new) s (Refused s new) fun h s' => s'.queries.contains h := by
  refine (ensures_recordQuery_iff new).2 ?_
  split
  · rename_i hroom
    refine (met_clientFor w.clients new.client).mono ?_ ?_
    · rintro fault s' ⟨lacking, pool, rfl⟩
      exact .noClient pool lacking
    · rintro ⟨client, newClient⟩ s₁ met
      obtain ⟨pool₁, clients₁, events₁, hs₁⟩ := met.frame
      refine (placed_domainFor new.domain s₁).mono ?_ ?_
      · rintro fault s' ⟨lacking, pool, rfl⟩
        subst hs₁
        exact .noDomain pool met lacking
      · rintro ⟨domain, newDomain⟩ s₂ placed
        have hqueries : s₂.queries = s.queries := by
          subst hs₁
          cases placed <;> rfl
        intro q
        -- The slot that was free at first is free still, so from here on no fault can come.
        split
        · rename_i h t put
          rw [hqueries] at put
          have hlive : ({ s₂ with queries := t } : Store).registry.queries.contains h := by
            rw [registry, SlotTable.contains_map]
            exact SlotTable.contains_iff.2 ⟨_, (SlotTable.placed_of_push w.queries put).get?_self⟩
          rw [← SlotTable.contains_map Query.card]
          change (Store.registry _).queries.contains h
          simpa only [registry_reclassify, registry_arrivalBooked] using hlive
        · rename_i full hfull
          have hno := (SlotTable.push_eq_error hfull).2
          rw [hqueries, hroom] at hno
          cases hno
  · rename_i hroom
    exact .noSlot (Bool.eq_false_of_not_eq_true hroom)

theorem ensures_perform_recordQuery (w : s.WellFormed) (new : Arrival) :
    Ensures (Command.recordQuery new).perform s (Refused s new) fun a s' =>
      ∃ h, a = .query h ∧ s'.queries.contains h := by
  simp only [Command.perform, ensures_bind]
  exact (refused_recordQuery w new).mono (fun _ _ r => r) fun h _ hc => ⟨h, rfl, hc⟩

theorem refused_of_error (w : s.WellFormed) {new : Arrival} {fault : Fault}
    (hfault : (Command.recordQuery new).answer s = .error fault) :
    Refused s new fault ((Command.recordQuery new).apply s) :=
  (ensures_perform_recordQuery w new).of_error hfault

theorem contains_of_recordQuery (w : s.WellFormed) {new : Arrival} {h : Handle .query}
    (haccepted : (Command.recordQuery new).answer s = .ok (.query h)) :
    ((Command.recordQuery new).apply s).queries.contains h := by
  obtain ⟨k, hk, hc⟩ := (ensures_perform_recordQuery w new).of_ok haccepted
  cases hk
  exact hc

end Store

end Sinkhole
