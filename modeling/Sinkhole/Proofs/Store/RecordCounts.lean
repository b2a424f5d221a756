import Sinkhole.Proofs.Store.ClientCounts
import Sinkhole.Proofs.Store.DomainCounts

namespace Sinkhole

open scoped Words

namespace SlotTable

section
variable {K : Kind} {α : Type} {t : SlotTable K α} {h : Handle K}

theorem generationAt_vacated (hc : t.contains h) (i : ℕ) :
    (t.vacated h).generationAt i = t.generationAt i + if h.index = i then 1 else 0 := by
  obtain ⟨a, ha⟩ := contains_iff.1 hc
  rw [generationAt_vacate (vacate?_of_get? ha)]
  split
  · rfl
  · exact (UInt32.add_zero _).symm

theorem Extends.unremoved {t' : SlotTable K α} (e : t.Extends t') (i : ℕ) :
    t'.generationAt i = t.generationAt i + UInt32.ofNat 0 :=
  (e.generationAt_eq i).trans (UInt32.add_zero _).symm

end

variable (t : SlotTable .client Client) (h : Handle .client)

theorem Extends.charge (δ : CountChange) : t.Extends (t.charge h δ) := by
  unfold SlotTable.charge
  split
  · split
    · exact .refl t
    · split
      · exact (Extends.modify t _ _).trans (.modify _ _ _)
      · exact .modify t _ _
  · exact .refl t

theorem generationAt_withoutClient {t : SlotTable .client Client} (hc : t.contains h) (i : ℕ) :
    (t.withoutClient h).generationAt i = t.generationAt i + if h.index = i then 1 else 0 := by
  obtain ⟨c, hg⟩ := contains_iff.1 hc
  simp only [withoutClient, hg]
  split
  · have hdismissed : (t.dismissed h).contains h := by rwa [dismissed, contains_mapLive]
    rw [generationAt_vacated hdismissed, dismissed, generationAt_mapLive]
  · have hreleased : (t.released h).contains h := by rwa [contains_released]
    rw [generationAt_vacated hreleased, (Extends.released t h).generationAt_eq]

end SlotTable

open SlotTable

namespace Store

variable {s s' : Store} {c : Command} {m : Option Mark} {ms : List Mark}

theorem generationAt_domains (w : s.WellFormed) (e : Effect s c m s') (i : ℕ) :
    s'.domains.generationAt i =
      s.domains.generationAt i + UInt32.ofNat (m.toList.countP (Mark.removesDomainAt i)) := by
  cases e with
  | quiet q => exact (q.extends_domains w).unremoved i
  | domainCounted known before =>
    exact ((before.extends_domains w).trans (.modify _ _ _)).unremoved i
  | clientAdded added =>
    obtain ⟨before, put, -, -, after⟩ := added
    have w₁ := before.wellFormed w
    have hafter := after.extends_domains ⟨w₁.queries, w₁.domains, w₁.clients.insert put⟩
    exact ((before.extends_domains w).trans hafter).unremoved i
  | recorded newDomain newClient before =>
    have hbefore := before.extends_domains w
    exact ((hbefore.trans (.modify _ _ _)).trans (.modify _ _ _)).unremoved i
  | reclassified | queryRemoved => exact (Extends.modify _ _ _).unremoved i
  | slid | clientCounted | replied | adjusted | clientRemoved => exact (Extends.refl _).unremoved i
  | @domainRemoved h live =>
    rw [generationAt_vacated live]
    by_cases hi : h.index = i <;> simp [Mark.removesDomainAt, hi]

theorem generationAt_clients (w : s.WellFormed) (e : Effect s c m s') (i : ℕ) :
    s'.clients.generationAt i =
      s.clients.generationAt i + UInt32.ofNat (m.toList.countP (Mark.removesClientAt i)) := by
  -- Only a removal moves a generation; every other effect keeps the handles that it finds.
  cases e with
  | quiet q => exact (q.extends_clients w).unremoved i
  | slid now => exact (Extends.mapLive _ _).unremoved i
  | domainCounted known before => exact (before.extends_clients w).unremoved i
  | clientAdded added =>
    obtain ⟨before, put, -, -, after⟩ := added
    have w₁ := before.wellFormed w
    have hput := (before.extends_clients w).trans (.of_placed (placed_of_insert w₁.clients put))
    have hafter := after.extends_clients ⟨w₁.queries, w₁.domains, w₁.clients.insert put⟩
    exact (hput.trans hafter).unremoved i
  | recorded newDomain newClient before =>
    have hbefore := before.extends_clients w
    exact ((((hbefore.trans (.mapLive _ _)).trans (.charge _ _ _)).trans (.modify _ _ _)).trans
      (.charge _ _ _)).unremoved i
  | clientCounted | reclassified | adjusted | queryRemoved =>
    exact (Extends.charge _ _ _).unremoved i
  | replied | domainRemoved => exact (Extends.refl _).unremoved i
  | @clientRemoved h live =>
    rw [generationAt_withoutClient h live]
    by_cases hi : h.index = i <;> simp [Mark.removesClientAt, hi]

/-- No slot of a domain or a client was vacated so often that its generation wrapped round. -/
def Unwrapped (ms : List Mark) : Prop :=
  (∀ i, ms.countP (Mark.removesDomainAt i) < 2 ^ 32) ∧
    ∀ i, ms.countP (Mark.removesClientAt i) < 2 ^ 32

/-- What is known of the counts in a store that a run with these marks led to. -/
structure RecordsFollow (ms : List Mark) (s : Store) : Prop where
  ledger : s.ledger.Follows s.queries.records
  aliases : s.AliasesSum
  domain_generation : ∀ i,
    s.domains.generationAt i = UInt32.ofNat (ms.countP (Mark.removesDomainAt i))
  client_generation : ∀ i,
    s.clients.generationAt i = UInt32.ofNat (ms.countP (Mark.removesClientAt i))
  domains : Unwrapped ms → DomainsBooked s.domains (domainCharges s.queries.records ms)
  clients : Unwrapped ms →
    ClientsBooked s.clients (clientCharges s.ledger.window s.queries.records ms)

theorem Unwrapped.of_append {ms' : List Mark} (u : Unwrapped (ms ++ ms')) : Unwrapped ms := by
  refine ⟨fun i => Nat.lt_of_le_of_lt ?_ (u.1 i), fun i => Nat.lt_of_le_of_lt ?_ (u.2 i)⟩
  · rw [List.countP_append]
    exact Nat.le_add_right _ _
  · rw [List.countP_append]
    exact Nat.le_add_right _ _

theorem toNat_generation {g : UInt32} {n : ℕ} (hg : g = UInt32.ofNat n) (hn : n + 1 < 2 ^ 32) :
    g.toNat + 1 < 2 ^ 32 := by
  rw [hg, UInt32.toNat_ofNat', Nat.mod_eq_of_lt (Nat.lt_of_succ_lt hn)]
  exact hn

theorem RecordsFollow.effect (r : RecordsFollow ms s) (w : s.WellFormed)
    (hfirst : c.isFirst = false) (hdirect : ∀ h δ, c ≠ .adjustClient h δ) (e : Effect s c m s') :
    RecordsFollow (ms ++ m.toList) s' where
  ledger := follows_of_effect w hfirst r.ledger e
  aliases := aliasesSum_of_effect r.aliases e
  domain_generation i := by
    rw [generationAt_domains w e, r.domain_generation, List.countP_append, UInt32.ofNat_add]
  client_generation i := by
    rw [generationAt_clients w e, r.client_generation, List.countP_append, UInt32.ofNat_add]
  domains u := by
    refine domainsBooked_of_effect w hfirst (fun h hm => ?_) (r.domains u.of_append) e
    subst hm
    -- The removal has left its mark, so `u` counts it among those that the slot has room for.
    refine toNat_generation (r.domain_generation _) ?_
    have hnext := u.1 h.index
    simpa [List.countP_append, Mark.removesDomainAt] using hnext
  clients u := by
    refine clientsBooked_of_effect w hfirst hdirect (fun h hm => ?_) r.ledger r.aliases
      (r.clients u.of_append) e
    subst hm
    refine toNat_generation (r.client_generation _) ?_
    have hnext := u.2 h.index
    simpa [List.countP_append, Mark.removesClientAt] using hnext

theorem recordsFollow_empty (settings : Settings) (now : UInt64) (directory : Option AliasLookup)
    (sink : EventSink) (window : Window) :
    RecordsFollow [] (empty settings now directory sink window) := by
  refine ⟨follows_empty settings now directory sink window,
    aliasesSum_empty settings now directory sink window, fun i => ?_, fun i => ?_, fun _ => ?_,
    fun _ => ?_⟩
  · simp [empty, generationAt]
  · simp [empty, generationAt]
  · exact Booked.empty _ _
  · exact Booked.empty _ _

theorem numbers_of_domain (w : s.queries.WellFormed) {h : Handle .domain} {d : Domain}
    (b : DomainsBooked s.domains (domainCharges s.queries.records ms))
    (hg : s.domains.get? h = some d) :
    CountsTo d.count (s.queries.count (·.domain = h) + ms.count (.domainCounted h)) ∧
      d.blocked.toInt = s.queries.count (fun q => q.domain = h && q.status.isBlocked) := by
  have hdue := b.value_eq hg trivial
  have hcount := congrArg (AddMonoidHom.fst Int64 Int64) hdue
  have hblocked := congrArg (AddMonoidHom.snd Int64 Int64) hdue
  rw [domainCharges, due_charges (p := fun _ => true) (n := 1) _ _ _ _ _ (fun _ => rfl) rfl,
    Mark.count_domainCalls, Nat.mul_one] at hcount
  rw [domainCharges, due_charges (p := (·.status.isBlocked)) (n := 0) _ _ _ _ _ (fun _ => rfl) rfl,
    Nat.mul_zero, Nat.add_zero] at hblocked
  refine ⟨countsTo_of_eq ?_, ?_⟩
  · simp only [Bool.and_true] at hcount
    rw [SlotTable.count_eq_countP]
    exact hcount
  · rw [← toInt_census_records w]
    exact congrArg Int64.toInt hblocked

theorem numbers_of_client (w : s.queries.WellFormed) {h : Handle .client} {c : Client}
    (b : ClientsBooked s.clients (clientCharges s.ledger.window s.queries.records ms))
    (hg : s.clients.get? h = some c) (hregular : c.isAlias = false) :
    CountsTo c.count (s.queries.count (·.client = h) + ms.count (.clientCounted h)) ∧
      c.blocked.toInt = s.queries.count (fun q => q.client = h && q.status.isBlocked) ∧
      ∀ b, (c.history.getD b 0).toInt =
        s.queries.count (fun q => q.client = h && s.bucketOf q.time = b) := by
  have hdue := b.value_eq hg hregular
  let history : Counts →+ (ℕ → Int64) := (AddMonoidHom.snd _ _).comp (AddMonoidHom.snd _ _)
  -- The due of a client is one triple, of which each number is read by a map of sums.
  have hcount := congrArg (AddMonoidHom.fst Int64 _) hdue
  have hblocked := congrArg ((AddMonoidHom.fst _ _).comp (AddMonoidHom.snd Int64 _)) hdue
  have hhistory := fun b => congrArg ((Pi.evalAddMonoidHom _ b).comp history) hdue
  rw [clientCharges, due_charges (p := fun _ => true) (n := 1) _ _ _ _ _ (fun _ => rfl) rfl,
    Mark.count_clientCalls, Nat.mul_one] at hcount
  rw [clientCharges, due_charges (p := (·.status.isBlocked)) (n := 0) _ _ _ _ _ (fun _ => rfl) rfl,
    Nat.mul_zero, Nat.add_zero] at hblocked
  refine ⟨countsTo_of_eq ?_, ?_, fun b => ?_⟩
  · simp only [Bool.and_true] at hcount
    rw [SlotTable.count_eq_countP]
    exact hcount
  · rw [← toInt_census_records w]
    exact congrArg Int64.toInt hblocked
  · have hb := hhistory b
    rw [clientCharges, due_charges (p := fun q => s.bucketOf q.time = b) (n := 0) _ _ _ _ _
      (fun q => by simp only [decide_eq_true_eq]; rfl) rfl, Nat.mul_zero, Nat.add_zero] at hb
    rw [← toInt_census_records w]
    exact congrArg Int64.toInt hb

/-- After every run that counts no status twice, changes no client's counts directly and wraps no
generation round: a domain has counted its live queries and the calls that counted it, and among
them the blocked queries. A regular client has done the same, also by bucket of the window as it
stands. A query or a call is of a record only if it names it by handle, whatever else lived in the
same slot. -/
theorem records_count_their_queries {settings : Settings} {now : UInt64}
    {directory : Option AliasLookup} {sink : EventSink} {start : Store}
    (hcreate : create settings now directory sink = .ok start)
    (commands : List Command) (hfirst : ∀ c ∈ commands, c.isFirst = false)
    (hdirect : ∀ c ∈ commands, ∀ h δ, c ≠ .adjustClient h δ)
    (hunwrapped : Unwrapped (Command.marks commands start)) :
    let s := Command.runAll commands start
    let ms := Command.marks commands start
    (∀ h d, s.domains.get? h = some d →
      CountsTo d.count (s.queries.count (·.domain = h) + ms.count (.domainCounted h)) ∧
      d.blocked.toInt = s.queries.count (fun q => q.domain = h && q.status.isBlocked)) ∧
    ∀ h c, s.clients.get? h = some c → c.isAlias = false →
      CountsTo c.count (s.queries.count (·.client = h) + ms.count (.clientCounted h)) ∧
      c.blocked.toInt = s.queries.count (fun q => q.client = h && q.status.isBlocked) ∧
      c.history.length = s.ledger.buckets.length ∧
      ∀ (b : ℕ) (n : Int64), c.history[b]? = some n →
        n.toInt = s.queries.count (fun q => q.client = h && s.bucketOf q.time = b) := by
  intro s ms
  obtain ⟨window, -, rfl, -, -⟩ := create_eq_ok hcreate
  have w₀ := wellFormed_empty settings now directory sink window
  have w : s.WellFormed := Command.wellFormed_runAll commands w₀
  have r : RecordsFollow ms s :=
    Command.run_invariant RecordsFollow
      (fun c => c.isFirst = false ∧ ∀ h δ, c ≠ .adjustClient h δ)
      (fun hc w r e => r.effect w hc.1 hc.2 e) (fun c hc => ⟨hfirst c hc, hdirect c hc⟩) w₀
      (recordsFollow_empty settings now directory sink window)
  refine ⟨fun h d hg => numbers_of_domain w.queries (r.domains hunwrapped) hg,
    fun h c hg hregular => ?_⟩
  obtain ⟨hcount, hblocked, hhistory⟩ :=
    numbers_of_client w.queries (r.clients hunwrapped) hg hregular
  refine ⟨hcount, hblocked, ?_, fun b n hb => ?_⟩
  · rw [s.ledger.length_buckets]
    exact r.aliases.length_eq hg
  · have hn : c.history.getD b 0 = n := by rw [List.getD_eq_getElem?_getD, hb, Option.getD_some]
    rw [← hn]
    exact hhistory b

/-- A domain and a client that were removed and came back into their slots, while a query of those
before lived on. -/
theorem records_count_their_queries_of_reused_slots :
    let settings : Settings := { buckets := 3 }
    let start := empty settings 5000000 none .discard (.ending 600 3 5000000)
    let commands : List Command :=
      [.recordQuery { id := 1, domain := "ads.test", client := "10.0.0.1", wire := 1 },
        .removeDomain ⟨0, 0⟩, .removeClient ⟨0, 0⟩,
        .recordQuery { id := 2, domain := "ads.test", client := "10.0.0.1", wire := 1 },
        .enrolDomain "ads.test" true, .reclassify ⟨0, 0⟩ .gravity false,
        .reclassify ⟨1, 0⟩ .gravity false, .slideTo 6000000]
    create settings 5000000 none .discard = .ok start ∧
      (∀ c ∈ commands, c.isFirst = false) ∧ (∀ c ∈ commands, ∀ h δ, c ≠ .adjustClient h δ) ∧
      Unwrapped (Command.marks commands start) ∧
      ∃ d, (Command.runAll commands start).domains.get? ⟨0, 1⟩ = some d ∧ CountsTo d.count 2 ∧
        d.blocked.toInt = 1 := by
  intro settings start commands
  have hcreate : create settings 5000000 none .discard = .ok start :=
    create_of_made _ _ rfl (by decide +kernel)
  have hfirst : ∀ c ∈ commands, c.isFirst = false := by simp [commands, Command.isFirst]
  have hdirect : ∀ c ∈ commands, ∀ h δ, c ≠ .adjustClient h δ := by simp [commands]
  have hlength : (Command.marks commands start).length < 2 ^ 32 := by decide +kernel
  have hunwrapped : Unwrapped (Command.marks commands start) :=
    ⟨fun _ => Nat.lt_of_le_of_lt List.countP_le_length hlength,
      fun _ => Nat.lt_of_le_of_lt List.countP_le_length hlength⟩
  have hlive : (Command.runAll commands start).domains.contains ⟨0, 1⟩ := by decide +kernel
  have hqueries : (Command.runAll commands start).queries.count (·.domain = ⟨0, 1⟩) = 1 := by
    decide +kernel
  have hblocked : (Command.runAll commands start).queries.count
      (fun q => q.domain = ⟨0, 1⟩ && q.status.isBlocked) = 1 := by
    decide +kernel
  have hcalls : (Command.marks commands start).count (.domainCounted ⟨0, 1⟩) = 1 := by
    decide +kernel
  obtain ⟨d, hd⟩ := SlotTable.contains_iff.1 hlive
  have hcounts := (records_count_their_queries hcreate commands hfirst hdirect hunwrapped).1
    ⟨0, 1⟩ d hd
  rw [hqueries, hblocked, hcalls] at hcounts
  exact ⟨hcreate, hfirst, hdirect, hunwrapped, d, hd, hcounts⟩

end Store

end Sinkhole
