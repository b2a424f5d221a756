import Sinkhole.Proofs.Slot.Records
import Sinkhole.Proofs.Store.Effects

namespace Sinkhole

namespace SlotTable

variable {K : Kind} {α : Type} {t : SlotTable K α}

theorem WellFormed.vacated (w : t.WellFormed) (h : Handle K) : (t.vacated h).WellFormed := by
  unfold SlotTable.vacated
  cases hv : t.vacate? h with
  | none => exact w
  | some r => exact w.vacate hv

theorem WellFormed.charge {t : SlotTable .client Client} (w : t.WellFormed) (h : Handle .client)
    (δ : CountChange) : (t.charge h δ).WellFormed := by
  unfold SlotTable.charge
  split
  · split
    · exact w
    · split
      · exact (w.modify _ _).modify _ _
      · exact w.modify _ _
  · exact w

theorem WellFormed.withoutClient {t : SlotTable .client Client} (w : t.WellFormed)
    (h : Handle .client) : (t.withoutClient h).WellFormed := by
  unfold SlotTable.withoutClient
  split
  · split
    · exact (w.mapLive _).vacated h
    · exact (w.released h).vacated h
  · exact w

end SlotTable

namespace Store

variable {s s' : Store}

theorem WellFormed.reclassified (w : s.WellFormed) (query : Handle .query) (q : Query)
    (new : Status) (old : Option Status) : (s.reclassified query q new old).WellFormed where
  queries := w.queries.modify _ _
  domains := w.domains.modify _ _
  clients := w.clients.charge _ _

theorem Effect.wellFormed (w : s.WellFormed) {c : Command} {m : Option Mark}
    (e : Effect s c m s') : s'.WellFormed := by
  cases e with
  | quiet q => exact q.wellFormed w
  | slid now => exact ⟨w.queries, w.domains, w.clients.mapLive _⟩
  | domainCounted known before =>
    have w' := before.wellFormed w
    exact ⟨w'.queries, w'.domains.modify _ _, w'.clients⟩
  | clientCounted => exact ⟨w.queries, w.domains, w.clients.charge _ _⟩
  | clientAdded added => exact added.wellFormed w
  | recorded newDomain newClient before _ _ _ put =>
    have w' := before.wellFormed w
    -- The first status is counted last.
    refine WellFormed.reclassified ⟨w'.queries.push put, w'.domains.modify _ _, ?_⟩ _ _ _ _
    exact ((w'.clients.mapLive _).charge _ _).modify _ _
  | reclassified new => exact w.reclassified _ _ _ _
  | replied => exact ⟨w.queries.modify _ _, w.domains, w.clients⟩
  | adjusted => exact ⟨w.queries, w.domains, w.clients.charge _ _⟩
  | queryRemoved out =>
    exact ⟨w.queries.vacate out, w.domains.modify _ _, w.clients.charge _ _⟩
  | domainRemoved => exact ⟨w.queries, w.domains.vacated _, w.clients⟩
  | clientRemoved => exact ⟨w.queries, w.domains, w.clients.withoutClient _⟩

theorem wellFormed_empty (settings : Settings) (now : UInt64) (directory : Option AliasLookup)
    (sink : EventSink) (window : Window) :
    (empty settings now directory sink window).WellFormed :=
  ⟨SlotTable.wellFormed_empty _ _, SlotTable.wellFormed_empty _ _, SlotTable.wellFormed_empty _ _⟩

/-- Recording a query adds it, and giving it the status that it has changes nothing. -/
theorem records_recorded {t t' : SlotTable .query Query} (w : t.WellFormed) {h : Handle .query}
    {q : Query} (put : t.push q = .ok (h, t')) :
    (t'.modify h ({ · with status := q.status })).records = q ::ₘ t.records := by
  have placed := SlotTable.placed_of_push w put
  have hq : t'.get? h = some q := placed.get?_self
  obtain ⟨rest, hrest, hrest'⟩ := SlotTable.records_modify hq ({ · with status := q.status })
  rw [hrest', ← placed.records_eq, hrest]

/-- Settings that are in order have buckets, and buckets of some width. -/
theorem buckets_of_check {settings settings' : Settings} (h : settings.check = .ok settings') :
    settings' = settings ∧ settings.bucketSeconds ≠ 0 ∧ 0 < settings.buckets := by
  unfold Settings.check at h
  cases hf : settings.fault? with
  | some fault => simp [hf] at h
  | none =>
    simp only [hf, Except.ok.injEq] at h
    refine ⟨h.symm, ?_⟩
    unfold Settings.fault? at hf
    split at hf
    · cases hf
    · rename_i hcounts
      have hbuckets := List.find?_eq_none.1 hcounts ("overtime_slots", settings.buckets)
        (by simp [Settings.counts])
      refine ⟨?_, Nat.pos_of_ne_zero (by simpa using hbuckets)⟩
      intro hzero
      simp only [hzero, if_true] at hf
      split at hf <;> cases hf

/-- A store is only made with buckets of some width, and with a window that was made for `now`. -/
theorem create_eq_ok {settings : Settings} {now : UInt64} {directory : Option AliasLookup}
    {sink : EventSink} (h : create settings now directory sink = .ok s) :
    ∃ window, Window.ending? settings.bucketSeconds settings.buckets now = some window ∧
      s = empty settings now directory sink window ∧ settings.bucketSeconds ≠ 0 ∧
      0 < settings.buckets := by
  unfold create at h
  split at h
  · rename_i hcheck
    obtain ⟨rfl, hbuckets⟩ := buckets_of_check hcheck
    split at h
    · rename_i window hwindow
      exact ⟨window, hwindow, (Except.ok.inj h).symm, hbuckets⟩
    · cases h
  · cases h

section
variable {settings : Settings} {now : UInt64} (directory : Option AliasLookup) (sink : EventSink)
  (hcheck : settings.check = .ok settings)
include hcheck

theorem create_of_window {window : Window}
    (hwindow : Window.ending? settings.bucketSeconds settings.buckets now = some window) :
    create settings now directory sink = .ok (empty settings now directory sink window) := by
  simp only [create, hcheck, hwindow]

theorem create_of_made
    (made : (Window.ending? settings.bucketSeconds settings.buckets now).isSome) :
    create settings now directory sink = .ok (empty settings now directory sink
      (.ending settings.bucketSeconds settings.buckets now)) :=
  create_of_window directory sink hcheck (Window.ending?_eq_ending made)

theorem create_of_none
    (hnone : Window.ending? settings.bucketSeconds settings.buckets now = none) :
    create settings now directory sink = .error .overflow := by
  simp only [create, hcheck, hnone]

end

end Store

namespace Command

def marks : List Command → Store → List Mark
  | [], _ => []
  | c :: cs, s => (c.mark? (c.answer s)).toList ++ marks cs (c.apply s)

/-- What every effect of an allowed command keeps, every run of such commands keeps. -/
theorem run_invariant (Inv : List Mark → Store → Prop) (allowed : Command → Prop)
    (hstep : ∀ {ms s c m s'}, allowed c → s.WellFormed → Inv ms s → Store.Effect s c m s' →
      Inv (ms ++ m.toList) s')
    {cs : List Command} (hcs : ∀ c ∈ cs, allowed c) {s : Store} (w : s.WellFormed)
    (h : Inv [] s) : Inv (marks cs s) (runAll cs s) := by
  -- The marks of what went before are kept in the induction, since the invariant speaks of all.
  have hrun : ∀ ms, Inv ms s → Inv (ms ++ marks cs s) (runAll cs s) := by
    clear h
    induction cs generalizing s with
    | nil =>
      intro ms h
      simpa [marks, runAll] using h
    | cons c cs ih =>
      intro ms h
      have e := Store.effect w c
      have hnext := hstep (hcs c List.mem_cons_self) w h e
      have hrest := ih (fun c hc => hcs c (List.mem_cons_of_mem _ hc)) (e.wellFormed w) _ hnext
      rw [List.append_assoc] at hrest
      exact hrest
  exact hrun [] h

theorem wellFormed_runAll (cs : List Command) {s : Store} (w : s.WellFormed) :
    (runAll cs s).WellFormed := by
  induction cs generalizing s with
  | nil => exact w
  | cons c cs ih => exact ih ((Store.effect w c).wellFormed w)

end Command

end Sinkhole
