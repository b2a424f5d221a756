import Sinkhole.Proofs.Ledger.Recount
import Sinkhole.Proofs.Store.Managers

namespace Sinkhole

open scoped Words

namespace Store

variable {s s' : Store}

/-- The clients of a store are in order, and every alias-client is the sum of its clients. -/
def AliasesSum (s : Store) : Prop :=
  Managed s.ledger.window.length 0 s.clients

theorem aliasesSum_of_quiet (i : s.AliasesSum) (q : Quiet s s') : s'.AliasesSum := by
  have h := Managed.edits i q.clients
  rw [← q.window_eq] at h
  exact h

theorem aliasesSum_insert {c : Client} {h : Handle .client} {t : SlotTable .client Client}
    {n : Int64} (i : s.AliasesSum) (put : s.clients.insert c = .ok (h, t))
    (isNew : c.IsNew s.ledger.window.length n) (isAlias_eq : c.isAlias = false) :
    AliasesSum { s with clients := t } := by
  refine Managed.placed i (SlotTable.placed_of_insert i.wellFormed put) (i.wellFormed.insert put)
    isNew fun halias => ?_
  rw [isAlias_eq] at halias
  cases halias

theorem aliasesSum_of_added {n : Int64} {h : Handle .client} (i : s.AliasesSum)
    (a : ClientAdded s n false h s') : s'.AliasesSum := by
  obtain ⟨before, put, isNew, isAlias_eq, after⟩ := a
  rw [← before.window_eq] at isNew
  have hput := aliasesSum_insert (aliasesSum_of_quiet i before) put isNew isAlias_eq
  exact aliasesSum_of_quiet hput after

theorem window_reclassify (l : Ledger) (old : Option Status) (new : Status) (bucket : ℕ) :
    (l.reclassify old new bucket).window = l.window := by
  cases old <;> rfl

theorem length_window_slid (s : Store) (now : UInt64) :
    (s.slid now).ledger.window.length = s.ledger.window.length := by
  rw [slid, Ledger.window_slideTo, Window.length_slideTo]

theorem aliasesSum_slid (i : s.AliasesSum) (now : UInt64) : (s.slid now).AliasesSum := by
  rw [AliasesSum, length_window_slid]
  exact i.fold _

theorem aliasesSum_of_effect {c : Command} {m : Option Mark} (i : s.AliasesSum)
    (e : Effect s c m s') : s'.AliasesSum := by
  cases e with
  | quiet q => exact aliasesSum_of_quiet i q
  | slid now => exact aliasesSum_slid i now
  | domainCounted known before =>
    have h := aliasesSum_of_quiet i before
    exact h
  | clientCounted => exact i.charge _ _
  | clientAdded added => exact aliasesSum_of_added i added
  | @recorded new q k s₁ queries newDomain newClient before =>
    -- A query moves the window first, and then it is charged to its client twice.
    have hbefore := aliasesSum_of_quiet i before
    have hslid := aliasesSum_slid (s := { s₁ with queries }) hbefore q.time
    have hcharge := Managed.charge hslid q.client
      { total := 1, history := some ((s₁.slid q.time).bucketOf q.time, 1) }
    have hdescribe := hcharge.describe q.client fun c => c.countsAs_noteArrival q.time newClient
    exact hdescribe.charge q.client { blocked := blockedChange none q.status }
  | reclassified =>
    rw [AliasesSum, reclassified, blockedShifted, window_reclassify]
    exact i.charge _ _
  | adjusted => exact i.charge _ _
  | queryRemoved => exact i.charge _ _
  | clientRemoved => exact i.withoutClient _
  | replied | domainRemoved => exact i

theorem aliasesSum_empty (settings : Settings) (now : UInt64) (directory : Option AliasLookup)
    (sink : EventSink) (window : Window) :
    (empty settings now directory sink window).AliasesSum where
  wellFormed := SlotTable.wellFormed_empty _ _
  length_eq hg := by simp [empty, SlotTable.get?] at hg
  manager_isAlias hg := by simp [empty, SlotTable.get?] at hg
  alias_unmanaged hg := by simp [empty, SlotTable.get?] at hg
  counts_eq hg := by simp [empty, SlotTable.get?] at hg

end Store

namespace SlotTable

def members (t : SlotTable .client Client) (m : Handle .client) : List Client :=
  (t.entries.map (·.2)).filter (·.manager = some m)

theorem shares_eq_sum_members (t : SlotTable .client Client) (m : Handle .client) :
    t.shares m = ((t.members m).map Client.counts).sum := by
  have hfilter : ∀ cs : List Client, (cs.map (Client.share m)).sum =
      ((cs.filter (·.manager = some m)).map Client.counts).sum := by
    intro cs
    induction cs with
    | nil => rfl
    | cons c cs ih =>
      by_cases hm : c.manager = some m <;> simp [Client.share, hm, ← ih]
  exact (Multiset.sum_coe _).trans (hfilter _)

theorem charge_of_alias {t : SlotTable .client Client} {h : Handle .client} {a : Client}
    (hg : t.get? h = some a) (ha : a.isAlias) (δ : CountChange) : t.charge h δ = t := by
  simp [charge, hg, ha]

end SlotTable

namespace Store

variable {s : Store}

theorem ensures_domainFor (name : String) (s : Store) :
    Attempt.Ensures (domainFor name) s (fun _ s' => ∃ pool domains, s' = { s with pool, domains })
      fun _ s' => ∃ pool domains, s' = { s with pool, domains } := by
  simp only [domainFor, addDomain, Attempt.ensures_bind, Attempt.ensures_get]
  split
  · exact ⟨s.pool, s.domains, rfl⟩
  · simp only [Attempt.ensures_bind, Attempt.ensures_intern, Attempt.ensures_get,
      Attempt.ensures_ofTable]
    split
    · split <;> exact ⟨_, _, rfl⟩
    · exact ⟨_, _, rfl⟩

/-- The window moved for some instant, and with it the history of a client whose counts are the
same. -/
def MovedOnly (s : Store) (h : Handle .client) (a : Client) (s' : Store) : Prop :=
  ∃ a' now, s'.clients.get? h = some a' ∧ a'.count = a.count ∧ a'.blocked = a.blocked ∧
    s'.ledger.window = s.ledger.window.slideTo now ∧
    a'.history = Row.fold (s.ledger.window.shiftTo now) a.history

theorem movedOnly_of_arrival {h : Handle .client} {a : Client} (hg : s.clients.get? h = some a)
    (ha : a.isAlias) {query : Handle .query} {q : Query} (hq : s.queries.get? query = some q)
    (hclient : q.client = h) (newDomain newClient : Bool) :
    MovedOnly s h a ((reclassify query q.status true).run
      (s.arrivalBooked q newDomain newClient)).store := by
  subst hclient
  have hq' : (s.arrivalBooked q newDomain newClient).queries.get? query = some q := hq
  rw [store_reclassify_of_some _ hq', if_neg (by simp), if_pos rfl]
  let f := Client.noteArrival q.time newClient
  let shift := s.ledger.window.shiftTo q.time
  have hfold : (s.clients.mapLive (Client.foldHistory shift)).get? q.client =
      some (a.foldHistory shift) := by
    rw [SlotTable.get?_mapLive, hg]
    rfl
  have hmodify : ((s.clients.mapLive (Client.foldHistory shift)).modify q.client f).get? q.client =
      some (f (a.foldHistory shift)) := by
    rw [SlotTable.get?_modify, if_pos rfl, hfold]
    rfl
  refine ⟨f (a.foldHistory shift), q.time, ?_, rfl, rfl, ?_, rfl⟩
  · -- Both charges name the alias-client, so neither counts, and only the description is left.
    have hfirst := SlotTable.charge_of_alias hfold ha
      { total := 1, history := some ((s.slid q.time).bucketOf q.time, 1) }
    have hclients : ((s.arrivalBooked q newDomain newClient).clients) =
        (s.clients.mapLive (Client.foldHistory shift)).modify q.client f := by
      exact congrArg (·.modify q.client f) hfirst
    rw [reclassified, blockedShifted]
    dsimp only
    rw [hclients, SlotTable.charge_of_alias hmodify ha, hmodify]
  · rw [reclassified, blockedShifted, window_reclassify]
    exact Ledger.window_slideTo s.ledger q.time

/-- A query that comes from an alias-client itself only moves the window. -/
theorem recordQuery_of_alias (w : s.queries.WellFormed) {h : Handle .client} {a : Client}
    (hg : s.clients.get? h = some a) (ha : a.isAlias) (new : Arrival)
    (hf : s.findClient? new.client = some h) :
    MovedOnly s h a ((Command.recordQuery new).apply s) := by
  -- Where nothing moves, the epoch is an instant that the window needs no move for.
  have hunmoved : ∀ s', s'.clients = s.clients → s'.ledger = s.ledger → MovedOnly s h a s' := by
    intro s' hclients hledger
    have hstays := s.ledger.window.shiftTo_zero
    refine ⟨a, 0, ?_, rfl, rfl, ?_, ?_⟩
    · rw [hclients, hg]
    · rw [hledger, Window.slideTo_of_shiftTo_eq_zero _ hstays]
    · rw [hstays, Row.fold_zero]
  have hrecord : Attempt.Ensures (Command.recordQuery new).perform s
      (fun _ => MovedOnly s h a) fun _ => MovedOnly s h a := by
    rw [Command.perform, Attempt.ensures_bind, ensures_recordQuery_iff]
    -- The client is known, so only its domain may have to be added before the query is put in.
    split
    · simp only [clientFor, hf, Attempt.ensures_bind, Attempt.ensures_get, Attempt.ensures_pure]
      refine (ensures_domainFor new.domain s).mono ?_ ?_
      · rintro fault s' ⟨pool, domains, rfl⟩
        exact hunmoved _ rfl rfl
      · rintro ⟨domain, newDomain⟩ s' ⟨pool, domains, rfl⟩
        split
        · rename_i k queries put
          have hq := (SlotTable.placed_of_push w put).get?_eq k
          rw [if_pos rfl] at hq
          obtain ⟨a', instant, hmoved⟩ := movedOnly_of_arrival
            (s := { s with pool, domains, queries }) hg ha hq rfl newDomain false
          exact ⟨a', instant, hmoved⟩
        · exact hunmoved _ rfl rfl
    · exact hunmoved s rfl rfl
  exact hrecord.store

/-- In every state that a run reaches, a client's alias-client lives and is one, and no alias-client
has one. The counts of an alias-client are the sums over the clients that it manages, and nothing
that is counted for the alias-client itself changes them. -/
theorem alias_clients_sum_their_members {settings : Settings} {now : UInt64}
    {directory : Option AliasLookup} {sink : EventSink} {start : Store}
    (hcreate : create settings now directory sink = .ok start) (commands : List Command) :
    let s := Command.runAll commands start
    (∀ h c m, s.clients.get? h = some c → c.manager = some m →
      ∃ a, s.clients.get? m = some a ∧ a.isAlias) ∧
    ∀ h a, s.clients.get? h = some a → a.isAlias →
      a.manager = none ∧
      SumsTo a.count ((s.clients.members h).map (·.count)) ∧
      SumsTo a.blocked ((s.clients.members h).map (·.blocked)) ∧
      a.history.length = s.ledger.window.length ∧
      (∀ b, SumsTo (a.history.getD b 0) ((s.clients.members h).map (·.history.getD b 0))) ∧
      (∀ δ, ((Command.adjustClient h δ).apply s).clients = s.clients) ∧
      (∀ query q, s.queries.get? query = some q → q.client = h →
        (∀ new first, ((Command.reclassify query new first).apply s).clients = s.clients) ∧
        ((Command.removeQuery query).apply s).clients = s.clients) ∧
      ∀ new, s.findClient? new.client = some h →
        MovedOnly s h a ((Command.recordQuery new).apply s) := by
  intro s
  obtain ⟨window, -, rfl, -, -⟩ := create_eq_ok hcreate
  have w₀ := wellFormed_empty settings now directory sink window
  have w : s.WellFormed := Command.wellFormed_runAll commands w₀
  have i : s.AliasesSum :=
    Command.run_invariant (fun _ s => s.AliasesSum) (fun _ => True)
      (fun _ _ i e => aliasesSum_of_effect i e) (fun _ _ => trivial) w₀
      (aliasesSum_empty settings now directory sink window)
  refine ⟨fun h c m hg hm => i.manager_isAlias hg hm, fun h a hg ha => ?_⟩
  -- The counts are summed as a whole, and each of them by a map that keeps sums.
  have hsum : a.counts = ((s.clients.members h).map Client.counts).sum := by
    rw [i.counts_eq hg ha, SlotTable.shares_eq_sum_members, Pi.zero_apply, add_zero]
  have hcount := congrArg (AddMonoidHom.fst Int64 _) hsum
  have hblocked := congrArg ((AddMonoidHom.fst Int64 _).comp (AddMonoidHom.snd Int64 _)) hsum
  have hbucket : ∀ b, _ := fun b => congrArg ((Pi.evalAddMonoidHom (fun _ => Int64) b).comp
    ((AddMonoidHom.snd Int64 _).comp (AddMonoidHom.snd Int64 _))) hsum
  rw [map_list_sum, List.map_map] at hcount hblocked
  refine ⟨i.alias_unmanaged hg ha, sumsTo_of_eq hcount, sumsTo_of_eq hblocked, i.length_eq hg,
    fun b => sumsTo_of_eq ?_, fun δ => ?_, fun query q hq hclient => ?_,
    fun new hf => recordQuery_of_alias w.queries hg ha new hf⟩
  · have hb := hbucket b
    rw [map_list_sum, List.map_map] at hb
    exact hb
  · rw [apply_eq (f := .flag) rfl, store_adjustClient]
    exact SlotTable.charge_of_alias hg ha δ
  · subst hclient
    refine ⟨fun new first => ?_, ?_⟩
    · rw [apply_eq (f := .flag) rfl, store_reclassify_of_some s hq]
      split
      · rfl
      · exact SlotTable.charge_of_alias hg ha _
    · rw [apply_eq (f := .flag) rfl, store_removeQuery_of_some s (SlotTable.vacate?_of_get? hq)]
      exact SlotTable.charge_of_alias hg ha _

/-- A client that followed its directory, was counted before and after, and left again. -/
theorem alias_clients_sum_their_members_of_directory :
    let settings : Settings := { buckets := 3 }
    let directory : Option AliasLookup := some fun _ _ => some "phones"
    let start := empty settings 5000000 directory .discard (.ending 600 3 5000000)
    let commands : List Command :=
      [.recordQuery { id := 1, domain := "a.test", client := "10.0.0.1", wire := 1 },
        .recordQuery { id := 2, domain := "a.test", client := "phones", wire := 1 },
        .adjustClient ⟨0, 0⟩ { total := 4, history := some (2, 4) }, .slideTo 6000000,
        .enrolClient "10.0.0.2" true false, .removeClient ⟨2, 0⟩]
    create settings 5000000 directory .discard = .ok start ∧
      ∃ a, (Command.runAll commands start).clients.get? ⟨1, 0⟩ = some a ∧
        SumsTo a.count [5] := by
  intro settings directory start commands
  have hcreate : create settings 5000000 directory .discard = .ok start :=
    create_of_made _ _ rfl (by decide +kernel)
  have halias : ((Command.runAll commands start).clients.get? ⟨1, 0⟩).any (·.isAlias) := by
    decide +kernel
  have hmembers : ((Command.runAll commands start).clients.members ⟨1, 0⟩).map (·.count) = [5] := by
    decide +kernel
  obtain ⟨a, ha, ha'⟩ := (Option.any_eq_true _ _).1 halias
  have hsum := (alias_clients_sum_their_members hcreate commands).2 ⟨1, 0⟩ a ha ha'
  rw [hmembers] at hsum
  exact ⟨hcreate, a, ha, hsum.2.1⟩

end Store

end Sinkhole
