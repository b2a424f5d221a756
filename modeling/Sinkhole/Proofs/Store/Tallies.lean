import Sinkhole.Proofs.Ledger.Recount
import Sinkhole.Proofs.Store.Runs

namespace Sinkhole

namespace Ledger

/-- A ledger is right about some queries, and none of them lies past the end of its window. -/
structure Follows (l : Ledger) (qs : Multiset Query) : Prop where
  recounts : l.Recounts qs
  within : ∀ q ∈ qs, l.window.intervalOf q.time ≤ l.window.lastInterval

namespace Follows

variable {l : Ledger} {qs : Multiset Query} {q : Query}

theorem congr {l' : Ledger} (h : l.Follows qs) (hwindow : l'.window = l.window)
    (hview : ∀ v, l'.view v = l.view v) : l'.Follows qs where
  recounts v := by rw [hview, hwindow, h.recounts v]
  within := by rw [hwindow]; exact h.within

theorem slideTo (h : l.Follows qs) (now : UInt64) : (l.slideTo now).Follows qs where
  recounts := h.recounts.slideTo now h.within
  within q hq := by
    rw [window_slideTo, Window.intervalOf_slideTo, Window.lastInterval_slideTo]
    exact Nat.le_trans (h.within q hq) (Nat.le_max_left _ _)

theorem replace {l' : Ledger} {q' : Query} (h : l.Follows (q ::ₘ qs)) (htime : q'.time = q.time)
    (hwindow : l'.window = l.window) (hrecounts : l'.Recounts (q' ::ₘ qs)) :
    l'.Follows (q' ::ₘ qs) where
  recounts := hrecounts
  within := by
    rw [hwindow]
    intro r hr
    rcases Multiset.mem_cons.1 hr with rfl | hr
    · rw [htime]
      exact h.within q (Multiset.mem_cons_self q qs)
    · exact h.within r (Multiset.mem_cons_of_mem hr)

theorem enter (h : l.Follows qs) (hreply : q.reply = .unknown)
    (hwithin : l.window.intervalOf q.time ≤ l.window.lastInterval) :
    ((((l.addTotal (l.window.bucketOf q.time) 1).addType q.type 1).replaceReply none
      .unknown).reclassify none q.status (l.window.bucketOf q.time)).Follows (q ::ₘ qs) where
  recounts := h.recounts.enter hreply
  within r hr := by
    rcases Multiset.mem_cons.1 hr with rfl | hr
    · exact hwithin
    · exact h.within r hr

theorem unbook (h : l.Follows (q ::ₘ qs)) : (Store.unbook l q).Follows qs where
  recounts := h.recounts.unbook
  within r hr := h.within r (Multiset.mem_cons_of_mem hr)

theorem edit {t t' : SlotTable .query Query} (h : l.Follows t.records) (e : QueryEdit t t') :
    l.Follows t'.records := by
  cases e with
  | @described f k keeps =>
    cases hg : t.get? k with
    | none =>
      rw [SlotTable.modify_of_get?_eq_none hg]
      exact h
    | some q =>
      obtain ⟨rest, hrest, hrest'⟩ := SlotTable.records_modify hg f
      rw [hrest] at h
      rw [hrest']
      have hf := keeps q
      exact h.replace hf.time_eq rfl
        (h.recounts.congr hf.status_eq hf.time_eq hf.type_eq hf.reply_eq)

theorem edits {t t' : SlotTable .query Query} (h : l.Follows t.records)
    (e : Relation.ReflTransGen QueryEdit t t') : l.Follows t'.records := by
  induction e with
  | refl => exact h
  | tail _ last ih => exact ih.edit last

end Follows

end Ledger

namespace Store

variable {s s' : Store}

theorem follows_of_quiet (h : s.ledger.Follows s.queries.records) (q : Quiet s s') :
    s'.ledger.Follows s'.queries.records :=
  (h.edits q.queries).congr q.window_eq q.view_eq

theorem follows_of_effect (w : s.WellFormed) {c : Command} {m : Option Mark}
    (hfirst : c.isFirst = false) (h : s.ledger.Follows s.queries.records)
    (e : Effect s c m s') : s'.ledger.Follows s'.queries.records := by
  cases e with
  | quiet q => exact follows_of_quiet h q
  | slid now => exact h.slideTo now
  | domainCounted known before =>
    have h' := follows_of_quiet h before
    exact h'
  | clientAdded added =>
    obtain ⟨before, -, -, -, after⟩ := added
    have h' := follows_of_quiet h before
    refine follows_of_quiet ?_ after
    exact h'
  | @recorded new q k s₁ queries newDomain newClient before domain client reply_eq put =>
    -- The window has moved when the query is booked, so the query lies within it.
    have hslide := (follows_of_quiet h before).slideTo q.time
    have hwithin : (s₁.ledger.slideTo q.time).window.intervalOf q.time ≤
        (s₁.ledger.slideTo q.time).window.lastInterval := by
      rw [Ledger.window_slideTo, Window.intervalOf_slideTo, Window.lastInterval_slideTo]
      exact Nat.le_max_right _ _
    have henter := hslide.enter reply_eq hwithin
    rw [← records_recorded (before.wellFormed w).queries put] at henter
    exact henter
  | @reclassified c query q new known =>
    obtain ⟨rest, hrest, hrest'⟩ := SlotTable.records_modify known ({ · with status := new })
    rw [hrest] at h
    simp only [hfirst, Bool.false_eq_true, if_false, reclassified, blockedShifted]
    rw [hrest']
    exact h.replace rfl rfl (h.recounts.reclassify new)
  | @replied query q reply known =>
    obtain ⟨rest, hrest, hrest'⟩ := SlotTable.records_modify known ({ · with reply })
    rw [hrest] at h
    simp only [replied]
    rw [hrest']
    exact h.replace rfl rfl (h.recounts.replaceReply reply)
  | queryRemoved out =>
    rw [SlotTable.records_vacate out] at h
    exact h.unbook
  | clientCounted | adjusted | domainRemoved | clientRemoved => exact h

theorem follows_empty (settings : Settings) (now : UInt64) (directory : Option AliasLookup)
    (sink : EventSink) (window : Window) :
    (empty settings now directory sink window).ledger.Follows
      (empty settings now directory sink window).queries.records where
  recounts := by
    rw [empty, SlotTable.records_empty]
    exact Ledger.recounts_empty _
  within q hq := by
    rw [empty, SlotTable.records_empty] at hq
    exact absurd hq (Multiset.notMem_zero q)

theorem toInt_census_records (w : s.queries.WellFormed) (p : Query → Bool) :
    (census p s.queries.records).toInt = s.queries.count p := by
  have hcard : s.queries.records.card < 2 ^ 63 := by
    rw [SlotTable.card_records w, w.live_eq]
    calc s.queries.slots.countP (·.value.isSome)
        ≤ s.queries.slots.size := Array.countP_le_size
      _ ≤ SlotTable.maxIndex := w.highWater_le_maxIndex
      _ < 2 ^ 63 := by decide
  rw [toInt_census p hcard, SlotTable.count_eq_countP]

theorem toInt_view (w : s.queries.WellFormed) (h : s.ledger.Follows s.queries.records) (v : View) :
    (s.ledger.view v).toInt = s.queries.count (v.counts s.ledger.window) := by
  rw [h.recounts v, toInt_census_records w]

/-- After every run in which no status was counted twice, each number of the ledger is the number of
live queries that it counts: by status, by type, by reply, by class and by bucket of the window as
it stands. -/
theorem ledger_counts_live_queries {settings : Settings} {now : UInt64}
    {directory : Option AliasLookup} {sink : EventSink} {start : Store}
    (hcreate : create settings now directory sink = .ok start)
    (commands : List Command) (hfirst : ∀ c ∈ commands, c.isFirst = false) :
    let s := Command.runAll commands start
    (∀ u : Status, (s.ledger.tally.ofStatus u).toInt = s.queries.count (·.status = u)) ∧
    (∀ t : RecordType, (s.ledger.tally.ofType t).toInt = s.queries.count (·.type = t)) ∧
    (∀ r : ReplyKind, (s.ledger.tally.ofReply r).toInt = s.queries.count (·.reply = r)) ∧
    s.ledger.tally.total.toInt = s.queries.live ∧
    s.ledger.tally.blocked.toInt = s.queries.count (·.status.isBlocked) ∧
    s.ledger.tally.cached.toInt = s.queries.count (·.status.isCached) ∧
    s.ledger.tally.forwarded.toInt = s.queries.count (·.status.isForwarded) ∧
    s.ledger.buckets.length = s.ledger.window.length ∧
    ∀ (b : ℕ) (bucket : Bucket), s.ledger.buckets[b]? = some bucket →
      bucket.total.toInt = s.queries.count (fun q => s.bucketOf q.time = b) ∧
      bucket.blocked.toInt =
        s.queries.count (fun q => s.bucketOf q.time = b && q.status.isBlocked) ∧
      bucket.cached.toInt =
        s.queries.count (fun q => s.bucketOf q.time = b && q.status.isCached) ∧
      bucket.forwarded.toInt =
        s.queries.count (fun q => s.bucketOf q.time = b && q.status.isForwarded) := by
  intro s
  obtain ⟨window, -, rfl, -, -⟩ := create_eq_ok hcreate
  have w₀ := wellFormed_empty settings now directory sink window
  have w : s.queries.WellFormed := (Command.wellFormed_runAll commands w₀).queries
  have h : s.ledger.Follows s.queries.records :=
    Command.run_invariant (fun _ s => s.ledger.Follows s.queries.records)
      (fun c => c.isFirst = false) (fun hc w h e => follows_of_effect w hc h e) hfirst w₀
      (follows_empty settings now directory sink window)
  have hview := toInt_view w h
  -- The total is a count too, that of the queries with any status.
  have htotal : s.queries.count (fun _ => true) = s.queries.live := by
    rw [SlotTable.count_eq_countP, ← SlotTable.card_records w]
    simp
  refine ⟨fun u => hview (.ofStatus u), fun t => hview (.ofType t), fun r => hview (.ofReply r), ?_,
    hview (.ofClass .blocked), hview (.ofClass .cached), hview (.ofClass .forwarded),
    s.ledger.length_buckets, fun b bucket hb => ?_⟩
  · rw [← htotal]
    exact hview .total
  · have hrow : ∀ f : Bucket → Int64, s.ledger.row f b = f bucket := by
      intro f
      simp [Ledger.row, List.getD_eq_getElem?_getD, hb]
    have htotal := hview (.bucketTotal b)
    have hblocked := hview (.bucketOfClass .blocked b)
    have hcached := hview (.bucketOfClass .cached b)
    have hforwarded := hview (.bucketOfClass .forwarded b)
    simp only [Ledger.view, hrow] at htotal hblocked hcached hforwarded
    exact ⟨htotal, hblocked, hcached, hforwarded⟩

/-- Two queries of one client, of which one was blocked and the other is gone. -/
theorem ledger_counts_live_queries_of_blocked_query :
    let settings : Settings := { buckets := 4, queries := 2 }
    let start := empty settings 5000000 none .discard (.ending 600 4 5000000)
    let commands : List Command :=
      [.recordQuery { id := 1, domain := "ads.test", client := "10.0.0.1", wire := 1 },
        .recordQuery { id := 2, domain := "ads.test", client := "10.0.0.1", wire := 28 },
        .reclassify ⟨1, 0⟩ .gravity false, .moveClock 900000, .slideTo 5900000,
        .removeQuery ⟨0, 0⟩]
    create settings 5000000 none .discard = .ok start ∧
      (∀ c ∈ commands, c.isFirst = false) ∧
      (Command.runAll commands start).ledger.tally.total.toInt = 1 := by
  intro settings start commands
  have hcreate : create settings 5000000 none .discard = .ok start :=
    create_of_made _ _ rfl (by decide +kernel)
  have hfirst : ∀ c ∈ commands, c.isFirst = false := by simp [commands, Command.isFirst]
  have hlive : (Command.runAll commands start).queries.live = 1 := by decide +kernel
  obtain ⟨-, -, -, htotal, -⟩ := ledger_counts_live_queries hcreate commands hfirst
  rw [hlive] at htotal
  exact ⟨hcreate, hfirst, htotal⟩

end Store

end Sinkhole
