import Sinkhole.Proofs.Store.Newcomers

namespace Sinkhole.Store

variable {s s' : Store}

/-- A client that is added for its own sake, and only so. -/
def AddedFor (s s' : Store) (address : String) (h : Handle .client) : Prop :=
  s.clients.contains h = false ∧ ∃ c, s'.clients.get? h = some c ∧ c.isAlias = false ∧
    c.address.text = TextPool.beforeNul address ∧ c.Uncounted

/-- An alias-client that is added because the directory names it for a client without a known
hardware address. -/
def AddedAsAliasFor (s s' : Store) (address : String) (h : Handle .client) : Prop :=
  s.clients.contains h = false ∧ ∃ c keyOf key, s'.clients.get? h = some c ∧ c.isAlias ∧
    s.directory = some keyOf ∧ keyOf (TextPool.beforeNul address) none = some key ∧
    c.address.text = TextPool.beforeNul key ∧ c.Uncounted

/-- Only a regular client and an alias-client of it may be new. -/
structure Prepared (s s' : Store) (address : String) (regular? alias? : Option (Handle .client)) :
    Prop where
  frame : s' = { s with pool := s'.pool, clients := s'.clients, events := s'.events }
  kept : ∀ h c, s.clients.get? h = some c → s'.clients.get? h = some c
  only : ∀ h, s'.clients.contains h → s.clients.contains h ∨ regular? = some h ∨ alias? = some h
  regular : ∀ h, regular? = some h → AddedFor s s' address h
  alias_regular : alias?.isSome → regular?.isSome
  presented : ∀ h, alias? = some h → AddedAsAliasFor s s' address h

theorem Joined.prepared {address : String} {h : Handle .client} {alias? : Option (Handle .client)}
    (j : Joined s address 0 h alias? s') : Prepared s s' address (some h) alias? where
  frame := by
    obtain ⟨pool, clients, events, rfl⟩ := j.frame
    rfl
  kept k c hk := by
    obtain ⟨c', hk', rfl | ⟨placed, rfl⟩⟩ := j.kept k c hk
    · exact hk'
    · rwa [Client.absorb_of_uncounted c (s.uncounted_newcomer placed false)] at hk'
  only k hk := (j.only k hk).imp_right fun h => h.imp (fun h => congrArg some h.symm) id
  regular k hk := by
    cases hk
    obtain ⟨placed, manager, text_eq, hget⟩ := j.record
    exact ⟨j.isNew, _, hget, rfl, text_eq, rfl, rfl, rfl,
      (s.uncounted_newcomer placed false).history_eq⟩
  alias_regular _ := rfl
  presented k hk := by
    obtain ⟨-, isNew, keyOf, key, placed, member, hdirectory, hkey, text_eq, hget⟩ :=
      j.presented k hk
    rw [Client.absorb_of_uncounted _ (s.uncounted_newcomer member false)] at hget
    exact ⟨isNew, _, keyOf, key, hget, rfl, hdirectory, hkey, text_eq,
      s.uncounted_newcomer placed true⟩

theorem Prepared.pooled {address : String} {regular? alias? : Option (Handle .client)}
    (p : Prepared s s' address regular? alias?) (pool : TextPool) :
    Prepared s { s' with pool } address regular? alias? where
  frame := by rw [p.frame]
  kept := p.kept
  only := p.only
  regular := p.regular
  alias_regular := p.alias_regular
  presented := p.presented

theorem prepared_of_same (pool : TextPool) (address : String) :
    Prepared s { s with pool } address none none :=
  ⟨rfl, fun _ _ hk => hk, fun _ hk => .inl hk, nofun, id, nofun⟩

/-- A query that ends with a fault leaves the ledger and its window, the queries, the domains, the
forwarders and the decisions as they were, and every client that was there. All that it may add is a
regular client for its address and an alias-client for that one, and nothing is counted for them. -/
theorem refused_query_counts_nothing {settings : Settings} {now : UInt64}
    {directory : Option AliasLookup} {sink : EventSink} {start : Store}
    (hcreate : create settings now directory sink = .ok start) (commands : List Command)
    (new : Arrival) {fault : Fault}
    (hrefused : (Command.recordQuery new).answer (Command.runAll commands start) = .error fault) :
    let s := Command.runAll commands start
    let s' := (Command.recordQuery new).apply s
    (fault = .ofFullTable s.queries.full ∨ LacksRoom s.clients.full fault ∨
      LacksRoom s.domains.full fault) ∧
    ∃ regular? alias?, Prepared s s' new.client regular? alias? := by
  intro s s'
  have r : Refused s new fault s' :=
    refused_of_error (wellFormed_of_create hcreate commands) hrefused
  generalize s' = s' at r
  cases r with
  | noSlot => exact ⟨.inl rfl, none, none, prepared_of_same s.pool _⟩
  | noClient pool lacking => exact ⟨.inr (.inl lacking), none, none, prepared_of_same pool _⟩
  | noDomain pool met lacking =>
    -- Only here can a client have come already.
    refine ⟨.inr (.inr lacking), ?_⟩
    cases met with
    | known => exact ⟨none, none, prepared_of_same pool _⟩
    | added _ joined => exact ⟨_, _, joined.prepared.pooled pool⟩

/-- The only slot for domains is taken, so the second query is refused after its client and the
alias-client of that one were added. -/
theorem refused_query_counts_nothing_of_full_domains :
    let settings : Settings := { domains := 1, buckets := 3 }
    let directory : Option AliasLookup := some fun _ _ => some "phones"
    let start := empty settings 5000000 directory .discard (.ending 600 3 5000000)
    let first : Arrival := { id := 1, domain := "a.test", client := "10.0.0.1", wire := 1 }
    let second : Arrival := { id := 2, domain := "b.test", client := "10.0.0.2", wire := 1 }
    let s := Command.runAll [.recordQuery first] start
    let s' := (Command.recordQuery second).apply s
    create settings 5000000 directory .discard = .ok start ∧
      (Command.recordQuery second).answer s = .error (.exhausted "domains" 1) ∧
      s'.ledger = s.ledger ∧ s'.queries = s.queries ∧ s'.domains = s.domains := by
  intro settings directory start first second s s'
  have hcreate : create settings 5000000 directory .discard = .ok start :=
    create_of_made _ _ rfl (by decide +kernel)
  have hrefused : (Command.recordQuery second).answer s = .error (.exhausted "domains" 1) := by
    have hfault : (match (Command.recordQuery second).answer s with
        | .error fault => decide (fault = .exhausted "domains" 1)
        | .ok _ => false) = true := by
      decide +kernel
    split at hfault
    · rename_i fault hanswer
      rw [hanswer, of_decide_eq_true hfault]
    · cases hfault
  obtain ⟨-, _, _, p⟩ := refused_query_counts_nothing hcreate [.recordQuery first] second hrefused
  have hframe : s' = _ := p.frame
  exact ⟨hcreate, hrefused, congrArg (·.ledger) hframe, congrArg (·.queries) hframe,
    congrArg (·.domains) hframe⟩

end Sinkhole.Store
