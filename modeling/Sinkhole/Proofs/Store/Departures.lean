import Sinkhole.Proofs.Store.Redactions

namespace Sinkhole

/-- A handle of any kind. -/
abbrev Reference : Type :=
  (K : Kind) × Handle K

namespace Deed

def removedForwarder? : Deed → Option (Handle .forwarder)
  | forwarderRemoved h => some h
  | _ => none

def removedDecision? : Deed → Option (Handle .decision)
  | decisionRemoved h => some h
  | _ => none

/-- No slot of any table is removed from so often that its generation wraps round. -/
structure Lasting (ds : List Deed) : Prop extends Unwrapped ds where
  forwarders : SlotTable.Fits (ds.filterMap removedForwarder?)
  decisions : SlotTable.Fits (ds.filterMap removedDecision?)

variable {ds ds' : List Deed}

theorem Lasting.of_append (l : Lasting (ds ++ ds')) : Lasting ds := by
  obtain ⟨unwrapped, forwarders, decisions⟩ := l
  rw [List.filterMap_append] at forwarders decisions
  exact ⟨unwrapped.of_append, forwarders.of_append, decisions.of_append⟩

theorem mem_removedForwarder?_iff {h : Handle .forwarder} :
    h ∈ ds.filterMap removedForwarder? ↔ forwarderRemoved h ∈ ds :=
  mem_picked_iff fun d _ => by cases d <;> simp [removedForwarder?]

theorem mem_removedDecision?_iff {h : Handle .decision} :
    h ∈ ds.filterMap removedDecision? ↔ decisionRemoved h ∈ ds :=
  mem_picked_iff fun d _ => by cases d <;> simp [removedDecision?]

def removed : Reference → Deed
  | ⟨.query, h⟩ => queryRemoved h
  | ⟨.domain, h⟩ => domainRemoved h
  | ⟨.client, h⟩ => clientRemoved h
  | ⟨.forwarder, h⟩ => forwarderRemoved h
  | ⟨.decision, h⟩ => decisionRemoved h

end Deed

def Store.holds (s : Store) : Reference → Bool
  | ⟨.query, h⟩ => s.queries.contains h
  | ⟨.domain, h⟩ => s.domains.contains h
  | ⟨.client, h⟩ => s.clients.contains h
  | ⟨.forwarder, h⟩ => s.forwarders.contains h
  | ⟨.decision, h⟩ => s.decisions.contains h

namespace Registry

open SlotTable

variable {texts : Set String} {ds ds' : List Deed} {r r' : Registry}

theorem Turn.forwarders_change (i : r.Sound) (t : Turn texts r ds r') :
    Change r.forwarders (ds.filterMap Deed.removedForwarder?) (ds.filterMap Deed.removedForwarder?)
      r'.forwarders := by
  cases t with
  | forwarderAdded _ _ _ _ put => exact .placed (placed_of_insert i.forwarders put) nofun
  | forwarderRemoved live => exact .vacated live
  | interned | redirected | domainAdded | clientAdded | decisionAdded | queryRecorded | clientNamed
  | cnameNoted
  | queryRemoved | domainRemoved | clientRemoved | decisionRemoved => exact .none

theorem Turn.decisions_change (i : r.Sound) (t : Turn texts r ds r') :
    Change r.decisions (ds.filterMap Deed.removedDecision?) (ds.filterMap Deed.removedDecision?)
      r'.decisions := by
  cases t with
  | decisionAdded _ put => exact .placed (placed_of_insert i.decisions put) nofun
  | decisionRemoved live => exact .vacated live
  | interned | redirected | domainAdded | clientAdded | forwarderAdded | queryRecorded | clientNamed
  | cnameNoted
  | queryRemoved | domainRemoved | clientRemoved | forwarderRemoved => exact .none

/-- A registry agrees with the deeds that led to it, in all its tables. -/
structure NarratesAll (ds : List Deed) (r : Registry) : Prop extends Narrates ds r where
  forwarders : Traced (ds.filterMap Deed.removedForwarder?) (ds.filterMap Deed.removedForwarder?)
    r.forwarders
  decisions : Traced (ds.filterMap Deed.removedDecision?) (ds.filterMap Deed.removedDecision?)
    r.decisions

theorem narratesAll_empty (settings : Settings) (directory : Option AliasLookup) :
    NarratesAll [] (empty settings directory) :=
  ⟨narrates_empty settings directory, traced_empty _ _, traced_empty _ _⟩

theorem NarratesAll.turn (n : NarratesAll ds r) (t : Turn texts r ds' r')
    (l : Deed.Lasting (ds ++ ds')) : NarratesAll (ds ++ ds') r' := by
  obtain ⟨unwrapped, hforwarders, hdecisions⟩ := l
  rw [List.filterMap_append] at hforwarders hdecisions
  refine ⟨n.toNarrates.turn t unwrapped, ?_, ?_⟩
  · rw [List.filterMap_append]
    exact n.forwarders.change (t.forwarders_change n.sound) hforwarders
  · rw [List.filterMap_append]
    exact n.decisions.change (t.decisions_change n.sound) hdecisions

theorem Course.narratesAll {settings : Settings} {directory : Option AliasLookup}
    (h : Course texts (empty settings directory) ds r) (l : Deed.Lasting ds) :
    NarratesAll ds r := by
  have hturn : ∀ {ds ds' r r'}, (Deed.Lasting ds → NarratesAll ds r) → Turn texts r ds' r' →
      Deed.Lasting (ds ++ ds') → NarratesAll (ds ++ ds') r' := fun n t l => (n l.of_append).turn t l
  exact h.invariant (fun told r => Deed.Lasting told → NarratesAll told r) hturn
    (fun _ => narratesAll_empty settings directory) l

/-- A record that was removed does not live. -/
theorem NarratesAll.not_holds {s : Store} (n : NarratesAll ds s.registry) {r : Reference}
    (hremoved : Deed.removed r ∈ ds) : s.holds r = false := by
  obtain ⟨K, h⟩ := r
  cases K with
  | query =>
    have hdead := (n.queries.dead h (Deed.mem_removedQuery?_iff.2 hremoved)).2
    rwa [Store.registry, contains_map] at hdead
  | domain =>
    have hdead := (n.domains.dead h (Deed.mem_removedDomain?_iff.2 hremoved)).2
    rwa [Store.registry, contains_map] at hdead
  | client =>
    have hdead := (n.clients.dead h (Deed.mem_removedClient?_iff.2 hremoved)).2
    rwa [Store.registry, contains_map] at hdead
  | forwarder =>
    have hdead := (n.forwarders.dead h (Deed.mem_removedForwarder?_iff.2 hremoved)).2
    rwa [Store.registry, contains_map] at hdead
  | decision =>
    have hdead := (n.decisions.dead h (Deed.mem_removedDecision?_iff.2 hremoved)).2
    rwa [Store.registry, contains_map] at hdead

end Registry

end Sinkhole
