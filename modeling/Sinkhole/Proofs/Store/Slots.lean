import Sinkhole.Proofs.Slot.Reuse
import Sinkhole.Proofs.Store.Courses

namespace Sinkhole

open SlotTable

/-- Only the table of queries is pushed to. -/
structure Registry.Unpushed (settings : Settings) (r : Registry) : Prop where
  domains : r.domains.Unpushed "domains" settings.domains
  clients : r.clients.Unpushed "clients" settings.clients
  forwarders : r.forwarders.Unpushed "upstreams" settings.forwarders
  decisions : r.decisions.Unpushed "cache" settings.decisions

theorem Registry.Turn.unpushed {texts : Set String} {settings : Settings} {ds : List Deed}
    {r r' : Registry} (u : r.Unpushed settings) (h : Turn texts r ds r') :
    r'.Unpushed settings := by
  cases h with
  | domainAdded _ _ _ _ _ put => exact { u with domains := u.domains.insert put }
  | clientAdded _ _ _ _ _ put => exact { u with clients := u.clients.insert put }
  | forwarderAdded _ _ _ _ put => exact { u with forwarders := u.forwarders.insert put }
  | decisionAdded _ put => exact { u with decisions := u.decisions.insert put }
  | clientNamed => exact { u with clients := u.clients.modify _ _ }
  | domainRemoved => exact { u with domains := u.domains.vacated _ }
  | clientRemoved => exact { u with clients := u.clients.vacated _ }
  | forwarderRemoved => exact { u with forwarders := u.forwarders.vacated _ }
  | decisionRemoved => exact { u with decisions := u.decisions.vacated _ }
  | interned | redirected | queryRecorded | cnameNoted | queryRemoved => exact { u with }

namespace Store

/-- A table that is never pushed to fills its vacated slots before it grows, and the tables of a
store other than that of its queries never are, whatever the store is told. -/
theorem slots_are_reused_before_growth :
    (∀ {K : Kind} {α : Type} (name : String) (capacity : ℕ) (ops : List (Op K α)),
      capacity ≤ maxIndex → (∀ op ∈ ops, op.isPush = false) →
      Op.ReusesSlots ops { name, capacity }) ∧
    ∀ {settings : Settings} {now : UInt64} {directory : Option AliasLookup} {sink : EventSink}
      {start : Store} (commands : List Command),
      create settings now directory sink = .ok start →
      (Command.runAll commands start).registry.Unpushed settings := by
  refine ⟨fun name capacity ops hcapacity hpush => Op.reusesSlots name hcapacity hpush,
    fun {settings _ directory _ _} commands hcreate => ?_⟩
  have hempty : (Registry.empty settings directory).Unpushed settings :=
    ⟨.empty, .empty, .empty, .empty⟩
  exact (course_univ hcreate commands).keeps (fun u turn => turn.unpushed u) hempty

/-- Of two vacated slots the lower one is filled first, and the records between them stay where they
are. -/
theorem slots_are_reused_before_growth_of_two_vacated :
    let ops : List (Op .domain ℕ) :=
      [.insert 10, .insert 20, .insert 30, .vacate ⟨2, 0⟩, .vacate ⟨0, 0⟩]
    let t := Op.runAll ops { name := "domains", capacity := 3 }
    let settings : Settings := { buckets := 3 }
    let start := empty settings 5000000 none .keep (.ending 600 3 5000000)
    let commands := [.enrolDomain "a.example" true, .enrolDomain "b.example" true,
      .removeDomain ⟨0, 0⟩, .enrolDomain "c.example" true]
    3 ≤ maxIndex ∧ (∀ op ∈ ops, op.isPush = false) ∧
      IsLeast {i | t.occupant? i = none} 0 ∧ t.highWater = 3 ∧ t.occupant? 1 = some ⟨1, 0⟩ ∧
      create settings 5000000 none .keep = .ok start ∧
      ∃ ops : List (Op .domain Domain.Card), (∀ op ∈ ops, op.isPush = false) ∧
        Op.runAll ops { name := "domains", capacity := settings.domains } =
          (Command.runAll commands start).registry.domains := by
  intro ops t settings start commands
  have hcapacity : 3 ≤ maxIndex := by decide
  have hpush : ∀ op ∈ ops, op.isPush = false := by simp [ops, Op.isPush]
  have hcreate : create settings 5000000 none .keep = .ok start :=
    create_of_made _ _ rfl (by decide +kernel)
  have r := slots_are_reused_before_growth.1 "domains" 3 ops hcapacity hpush
  have u := slots_are_reused_before_growth.2 commands hcreate
  have hlowest : IsLeast {i | t.occupant? i = none} 0 := by
    cases put : t.insert 40 with
    | error full =>
      have hfull := (r.refused_iff 40).1 ⟨full, put⟩
      exact absurd hfull (by decide +kernel)
    | ok placed =>
      have hleast := (r.lowest 40 placed.1 placed.2 put).1
      have hzero : placed.1.index = 0 :=
        Nat.le_zero.1 (hleast.2 (by decide +kernel : t.occupant? 0 = none))
      rwa [hzero] at hleast
  have hmiddle := r.stays (ops.take 2) (ops.drop 2) ⟨1, 0⟩ rfl (by decide +kernel) (by simp [ops])
  exact ⟨hcapacity, hpush, hlowest, by decide +kernel, hmiddle.1, hcreate, u.domains⟩

end Store

end Sinkhole
