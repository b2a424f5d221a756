import Sinkhole.Proofs.Store.Newcomers

namespace Sinkhole

/-- The accepted queries by their handles and ids, the latest first. -/
abbrev Acceptances : Type :=
  List (Pushed .query Int)

namespace Deed

def note (history : Acceptances) : Deed → Acceptances
  | queryRecorded h new _ => ⟨h, new.id, true⟩ :: history
  | queryRemoved h => history.map (Pushed.vacate h)
  | _ => history

def accepted (ds : List Deed) : Acceptances :=
  ds.foldl note []

theorem accepted_append (ds ds' : List Deed) :
    accepted (ds ++ ds') = ds'.foldl note (accepted ds) :=
  List.foldl_append

end Deed

namespace Registry

variable {texts : Set String} {ds : List Deed} {r r' : Registry}

theorem Turn.full_eq (h : Turn texts r ds r') :
    r'.queries.full = r.queries.full ∧ r'.domains.full = r.domains.full ∧
      r'.clients.full = r.clients.full := by
  cases h with
  | domainAdded _ _ _ _ _ put => exact ⟨rfl, SlotTable.full_insert put, rfl⟩
  | clientAdded _ _ _ _ _ put => exact ⟨rfl, rfl, SlotTable.full_insert put⟩
  | queryRecorded _ _ _ _ put => exact ⟨SlotTable.full_push put, rfl, rfl⟩
  | queryRemoved => exact ⟨SlotTable.full_vacated _ _, rfl, rfl⟩
  | domainRemoved => exact ⟨rfl, SlotTable.full_vacated _ _, rfl⟩
  | clientRemoved => exact ⟨rfl, rfl, SlotTable.full_vacated _ _⟩
  | interned | redirected | forwarderAdded | decisionAdded | clientNamed | cnameNoted
  | forwarderRemoved | decisionRemoved => exact ⟨rfl, rfl, rfl⟩

theorem Course.full_eq (h : Course texts r ds r') :
    r'.queries.full = r.queries.full ∧ r'.domains.full = r.domains.full ∧
      r'.clients.full = r.clients.full := by
  refine h.keeps (P := fun r' => r'.queries.full = r.queries.full ∧
    r'.domains.full = r.domains.full ∧ r'.clients.full = r.clients.full) (fun i t => ?_)
    ⟨rfl, rfl, rfl⟩
  obtain ⟨hq, hd, hc⟩ := t.full_eq
  exact ⟨hq.trans i.1, hd.trans i.2.1, hc.trans i.2.2⟩

/-- The queries are the ring of a history, which names each live query. -/
structure Remembers (capacity : Nat) (history : Acceptances) (r : Registry) : Prop where
  wellFormed : r.queries.WellFormed
  capacity_eq : r.queries.capacity = capacity
  rings : r.queries.Rings Query.Card.id history
  complete : ∀ h, r.queries.contains h → ∃ p ∈ history, p.handle = h ∧ p.live

variable {capacity : Nat} {history : Acceptances}

theorem Remembers.turn (i : r.Remembers capacity history) (hpos : 0 < capacity)
    (hmax : capacity ≤ SlotTable.maxIndex) (h : Turn texts r ds r') :
    r'.Remembers capacity (ds.foldl Deed.note history) := by
  obtain ⟨wellFormed, rfl, rings, complete⟩ := i
  have hcapacity := congrArg TableFull.capacity h.full_eq.1
  cases h with
  | @queryRecorded new q k t id_eq _ _ _ put =>
    have hplaced := SlotTable.placed_of_push wellFormed put
    have hrings := rings.push wellFormed hpos hmax put
    rw [id_eq] at hrings
    refine ⟨wellFormed.push put, hcapacity, hrings, fun j hj => ?_⟩
    rw [SlotTable.contains, hplaced.get?_eq] at hj
    split at hj
    · rename_i heq
      exact ⟨_, List.mem_cons_self, heq, rfl⟩
    · obtain ⟨p, hp, hhandle, hlive⟩ := complete j hj
      exact ⟨p, List.mem_cons_of_mem _ hp, hhandle, hlive⟩
  | @queryRemoved k live =>
    refine ⟨wellFormed.vacated k, hcapacity, rings.vacated live, fun j hj => ?_⟩
    rw [SlotTable.contains, SlotTable.get?_vacated_eq] at hj
    split at hj
    · cases hj
    · rename_i hne
      obtain ⟨p, hp, rfl, hlive⟩ := complete j hj
      refine ⟨p.vacate k, List.mem_map_of_mem hp, p.handle_vacate k, ?_⟩
      rw [p.live_vacate k, hlive, decide_eq_true (Ne.symm hne)]
      rfl
  | @cnameNoted k target domain =>
    have hrings := rings.modify (f := ({ · with cname := some domain })) (fun _ => rfl) k
    refine ⟨wellFormed.modify _ _, hcapacity, hrings, fun j hj => complete j ?_⟩
    rwa [SlotTable.contains_modify] at hj
  | interned | redirected | domainAdded | clientAdded | forwarderAdded | decisionAdded | clientNamed
  | domainRemoved | clientRemoved | forwarderRemoved | decisionRemoved =>
    exact ⟨wellFormed, hcapacity, rings, complete⟩

theorem Remembers.course (i : r.Remembers capacity []) (hpos : 0 < capacity)
    (hmax : capacity ≤ SlotTable.maxIndex) (h : Course texts r ds r') :
    r'.Remembers capacity (Deed.accepted ds) := by
  have hturn : ∀ {ds ds' r r'}, Remembers capacity (Deed.accepted ds) r → Turn texts r ds' r' →
      Remembers capacity (Deed.accepted (ds ++ ds')) r' := by
    intro ds ds' r r' i t
    rw [Deed.accepted_append]
    exact i.turn hpos hmax t
  have hnone : Remembers capacity (Deed.accepted []) r := i
  exact h.invariant (fun told r => r.Remembers capacity (Deed.accepted told)) hturn hnone

theorem remembers_empty (settings : Settings) (directory : Option AliasLookup) :
    (empty settings directory).Remembers settings.queries [] where
  wellFormed := SlotTable.wellFormed_empty _ _
  capacity_eq := rfl
  rings := SlotTable.rings_empty _ _ _
  complete h hc := by simp [empty, SlotTable.contains, SlotTable.get?] at hc

end Registry

namespace Store

open Attempt

variable {settings : Settings} {now : UInt64} {directory : Option AliasLookup} {sink : EventSink}
  {start s : Store}

theorem queries_pos_of_create (hcreate : create settings now directory sink = .ok s) :
    0 < settings.queries := by
  unfold create Settings.check at hcreate
  cases hf : settings.fault? with
  | some fault => simp [hf] at hcreate
  | none =>
    unfold Settings.fault? at hf
    split at hf
    · cases hf
    · rename_i hcounts
      have hqueries := List.find?_eq_none.1 hcounts ("max_queries", settings.queries)
        (by simp [Settings.counts])
      exact Nat.pos_of_ne_zero (by simpa using hqueries)

theorem remembers_runAll (hcreate : create settings now directory sink = .ok start)
    (hmax : settings.queries ≤ SlotTable.maxIndex) (commands : List Command) :
    (Command.runAll commands start).registry.Remembers settings.queries
      (Deed.accepted (Command.deeds commands start)) :=
  (Registry.remembers_empty settings directory).course (queries_pos_of_create hcreate) hmax
    (course_univ hcreate commands)

/-- The only fault that names the queries is that of a ring without room. -/
theorem recordQuery_refused_iff (hcreate : create settings now directory sink = .ok start)
    (commands : List Command) (new : Arrival) :
    let s := Command.runAll commands start
    (Command.recordQuery new).answer s = .error (.exhausted "queries" settings.queries) ↔
      s.queries.hasRoom = false := by
  intro s
  obtain ⟨hqueries, hdomains, hclients⟩ : s.queries.full = ⟨"queries", settings.queries⟩ ∧
      s.domains.full = ⟨"domains", settings.domains⟩ ∧
      s.clients.full = ⟨"clients", settings.clients⟩ :=
    (course_univ hcreate commands).full_eq
  constructor
  · intro hrefused
    have r : Refused s new _ ((Command.recordQuery new).apply s) :=
      refused_of_error (wellFormed_of_create hcreate commands) hrefused
    generalize (Command.recordQuery new).apply s = s' at r
    generalize hfault : Fault.exhausted "queries" settings.queries = fault at r
    cases r with
    | noSlot full => exact full
    | noClient pool lacking =>
      rcases lacking with ⟨limit, rfl⟩ | rfl
      · simp at hfault
      · simp [Fault.ofFullTable, hclients] at hfault
    | noDomain pool met lacking =>
      rcases lacking with ⟨limit, rfl⟩ | rfl
      · simp at hfault
      · simp [Fault.ofFullTable, hdomains] at hfault
  · intro hroom
    have hfault : Fault.ofFullTable s.queries.full = .exhausted "queries" settings.queries := by
      rw [hqueries]
      rfl
    rw [← hfault]
    simp [Command.answer, Command.perform, recordQuery, hroom]

/-! ### A caller that removes the oldest query -/

/-- A caller that removes the oldest live query whenever as many live as there may be. -/
def Relieves (most : Nat) (commands : List Command) (start : Store) : Prop :=
  ∀ before c after, commands = before ++ c :: after →
    let history := Deed.accepted (Command.deeds before start)
    most ≤ history.countP (·.live) →
      ∃ p, history.reverse.find? (·.live) = some p ∧ c = .removeQuery p.handle

/-- A caller that removes no live query but the oldest one. -/
def OldestFirst (commands : List Command) (start : Store) : Prop :=
  ∀ before h after, commands = before ++ .removeQuery h :: after →
    let history := Deed.accepted (Command.deeds before start)
    ∀ p ∈ history, p.live → p.handle = h → history.reverse.find? (·.live) = some p

theorem OldestFirst.of_append {cs cs' : List Command} (o : OldestFirst (cs ++ cs') start) :
    OldestFirst cs start := by
  intro before h after heq
  refine o before h (after ++ cs') ?_
  rw [heq, List.append_assoc, List.cons_append]

/-- The live queries of a history are its latest. -/
def LatestLive (history : Acceptances) : Prop :=
  ∃ young old, history = young ++ old ∧ (∀ p ∈ young, p.live) ∧ ∀ p ∈ old, p.live = false

namespace LatestLive

variable {history : Acceptances} {p : Pushed .query Int}

theorem recorded (l : LatestLive history) (hp : p.live) : LatestLive (p :: history) := by
  obtain ⟨young, old, rfl, hyoung, hold⟩ := l
  exact ⟨p :: young, old, rfl, List.forall_mem_cons.2 ⟨hp, hyoung⟩, hold⟩

/-- The oldest live query is the last of the live ones, and they share no handle. -/
theorem removed {t : SlotTable .query Query.Card} (l : LatestLive history)
    (rings : t.Rings Query.Card.id history) (hp : history.reverse.find? (·.live) = some p) :
    LatestLive (history.map (Pushed.vacate p.handle)) := by
  obtain ⟨young, old, rfl, hyoung, hold⟩ := l
  have hdead : old.reverse.find? (·.live) = none :=
    List.find?_eq_none.2 fun q hq => by simp [hold q (List.mem_reverse.1 hq)]
  rw [List.reverse_append, List.find?_append, hdead, Option.none_or] at hp
  rcases List.eq_nil_or_concat young with rfl | ⟨ys, y, rfl⟩
  · cases hp
  have hy : y.live := hyoung y (by simp)
  have heq : y = p := by simpa [hy] using hp
  subst heq
  -- A handle of its own leaves the younger ones alone.
  have hkept : ys.map (Pushed.vacate y.handle) = ys := by
    refine (List.map_congr_left fun q hq => ?_).trans (List.map_id ys)
    obtain ⟨age, hage, rfl⟩ := List.mem_iff_getElem.1 hq
    have hatage : (ys.concat y ++ old)[age]? = some ys[age] := by
      rw [List.concat_eq_append, List.append_assoc, List.getElem?_append_left hage,
        List.getElem?_eq_getElem hage]
    have hlast : (ys.concat y ++ old)[ys.length]? = some y := by simp
    have hne := rings.handle_ne hage hatage hlast hy
    simp [Pushed.vacate, hne]
  refine ⟨ys, (y :: old).map (Pushed.vacate y.handle), ?_, fun q hq => hyoung q (by simp [hq]),
    fun q hq => ?_⟩
  · rw [List.concat_eq_append, List.append_assoc, List.map_append, hkept]
    rfl
  · obtain ⟨b, hb, rfl⟩ := List.mem_map.1 hq
    rw [Pushed.live_vacate]
    rcases List.mem_cons.1 hb with rfl | hb
    · simp
    · simp [hold b hb]

/-- Then the query of a revolution ago lives just if a revolution of queries does. -/
theorem live_iff {most : Nat} (l : LatestLive history) (hpos : 0 < most) :
    (most ≤ history.length ∧ ∃ p, history[most - 1]? = some p ∧ p.live) ↔
      most ≤ history.countP (·.live) := by
  obtain ⟨young, old, rfl, hyoung, hold⟩ := l
  -- Of the old ones none lives, so the living ones are counted by the length of the others.
  have hdead : old.countP (·.live) = 0 :=
    List.countP_eq_zero.2 fun p hp => by simp [hold p hp]
  rw [List.countP_append, List.countP_eq_length.2 hyoung, hdead, Nat.add_zero]
  constructor
  · rintro ⟨-, p, hp, hlive⟩
    by_contra hfew
    rw [List.getElem?_append_right (by omega)] at hp
    rw [hold p (List.mem_of_getElem? hp)] at hlive
    cases hlive
  · intro hmany
    have hlt : most - 1 < young.length := by omega
    refine ⟨by rw [List.length_append]; omega, young[most - 1], ?_,
      hyoung _ (List.getElem_mem hlt)⟩
    rw [List.getElem?_append_left hlt, List.getElem?_eq_getElem hlt]

end LatestLive

theorem latestLive_of_oldestFirst (hcreate : create settings now directory sink = .ok start)
    (hmax : settings.queries ≤ SlotTable.maxIndex) {commands : List Command}
    (o : OldestFirst commands start) :
    LatestLive (Deed.accepted (Command.deeds commands start)) := by
  induction commands using List.reverseRecOn with
  | nil => exact ⟨[], [], rfl, nofun, nofun⟩
  | append_singleton cs c ih =>
    have l := ih o.of_append
    rw [Command.deeds_append, Deed.accepted_append, Command.deeds, Command.deeds, List.append_nil]
    unfold Command.deed?
    split
    · exact l.recorded rfl
    · -- What was removed has lived, so it was the oldest one.
      rename_i h hanswer
      have i := remembers_runAll hcreate hmax cs
      rw [answer_eq (f := .flag) rfl, value_removeQuery] at hanswer
      have hc : (Command.runAll cs start).queries.contains h := by simpa using hanswer
      rw [← SlotTable.contains_map Query.card] at hc
      obtain ⟨p, hp, rfl, hlive⟩ := i.complete h hc
      exact l.removed i.rings (o cs p.handle [] rfl p hp hlive rfl)
    all_goals exact l

/-! ### The ring of the history -/

theorem hasRoom_eq_false_iff {n : Nat} {history : Acceptances}
    (i : s.registry.Remembers n history) (hpos : 0 < n) (hmax : n ≤ SlotTable.maxIndex) :
    s.queries.hasRoom = false ↔
      n ≤ history.length ∧ ∃ p, history[n - 1]? = some p ∧ p.live := by
  have hcapacity := i.capacity_eq
  have hroom := i.rings.hasRoom_iff (hcapacity ▸ hpos) (hcapacity ▸ hmax)
  have hcards : s.registry.queries.hasRoom = s.queries.hasRoom :=
    SlotTable.hasRoom_map Query.card s.queries
  rw [hcapacity, hcards] at hroom
  rw [← Bool.not_eq_true, hroom]
  constructor
  · intro hno
    obtain ⟨p, hp⟩ := not_forall.1 hno
    obtain ⟨hp, hlive⟩ := Classical.not_imp.1 hp
    have hlt := (List.getElem?_eq_some_iff.1 hp).1
    exact ⟨by omega, p, hp, Bool.eq_true_of_not_eq_false hlive⟩
  · rintro ⟨-, p, hp, hlive⟩ hall
    rw [hall p hp] at hlive
    cases hlive

theorem correlate?_eq {n : Nat} {history : Acceptances} (i : s.registry.Remembers n history)
    (id : Int) :
    s.correlate? id =
      ((history.take (min s.settings.lookback (min n history.length))).find? fun p =>
        p.live && p.key == id).map (·.handle) := by
  have hfind := i.rings.findRecent?_eq s.settings.lookback (· == id)
  have hcards : s.registry.queries.findRecent? s.settings.lookback (fun q => q.id == id) =
      s.correlate? id := SlotTable.findRecent?_map Query.card s.queries _ _
  rw [hcards, i.rings.size_eq, i.capacity_eq, Nat.min_comm history.length] at hfind
  exact hfind

section
variable (hcreate : create settings now directory sink = .ok start)
  (hmax : settings.queries ≤ SlotTable.maxIndex)
include hcreate hmax

theorem get?_of_accepted (commands : List Command) {p : Pushed .query Int}
    (hp : p ∈ Deed.accepted (Command.deeds commands start)) (hlive : p.live) :
    ∃ q, (Command.runAll commands start).queries.get? p.handle = some q ∧ q.id = p.key := by
  have i := remembers_runAll hcreate hmax commands
  obtain ⟨age, hage, rfl⟩ := List.mem_iff_getElem.1 hp
  obtain ⟨card, hcard, hid⟩ := i.rings.get?_of_live (List.getElem?_eq_getElem hage) hlive
  rw [Store.registry, SlotTable.get?_map] at hcard
  obtain ⟨q, hq, rfl⟩ := Option.map_eq_some_iff.1 hcard
  exact ⟨q, hq, hid⟩

theorem removeQuery_answer_of_accepted (commands : List Command) {p : Pushed .query Int}
    (hp : (Deed.accepted (Command.deeds commands start)).reverse.find? (·.live) = some p) :
    (Command.removeQuery p.handle).answer (Command.runAll commands start) = .ok (.flag true) := by
  have hmem := List.mem_reverse.1 (List.mem_of_find?_eq_some hp)
  obtain ⟨q, hq, -⟩ := get?_of_accepted hcreate hmax commands hmem (List.find?_some hp)
  rw [answer_eq (f := .flag) rfl, value_removeQuery, SlotTable.contains, hq]
  rfl

theorem refused_iff_of_oldestFirst {commands : List Command} (o : OldestFirst commands start)
    (new : Arrival) :
    (Command.recordQuery new).answer (Command.runAll commands start) =
        .error (.exhausted "queries" settings.queries) ↔
      settings.queries ≤ (Deed.accepted (Command.deeds commands start)).countP (·.live) := by
  have hpos := queries_pos_of_create hcreate
  have i := remembers_runAll hcreate hmax commands
  exact ((recordQuery_refused_iff hcreate commands new).trans
    (hasRoom_eq_false_iff i hpos hmax)).trans
      ((latestLive_of_oldestFirst hcreate hmax o).live_iff hpos)

end

/-- The query table is the ring of the accepted queries. An answer is matched with the latest live
query that has its id, among the last ones accepted. A query is refused for want of a slot if and
only if the one accepted a revolution ago still lives, whatever is free elsewhere. For a caller that
removes live queries oldest first, that is when as many live as there may be. -/
theorem queries_are_ring_of_history (hcreate : create settings now directory sink = .ok start)
    (hmax : settings.queries ≤ SlotTable.maxIndex) (commands : List Command) :
    let s := Command.runAll commands start
    let history := Deed.accepted (Command.deeds commands start)
    (∀ p ∈ history, p.live → ∃ q, s.queries.get? p.handle = some q ∧ q.id = p.key) ∧
    (∀ h, s.queries.contains h → ∃ p ∈ history, p.handle = h ∧ p.live) ∧
    (∀ id, s.correlate? id =
      ((history.take (min settings.lookback (min settings.queries history.length))).find? fun p =>
        p.live && p.key == id).map (·.handle)) ∧
    (∀ age < min settings.lookback s.queries.slots.size,
      age + 1 ≤ s.queries.cursor + s.queries.slots.size ∧ 0 < s.queries.slots.size ∧
        s.queries.slotBefore (age + 1) < s.queries.slots.size) ∧
    (∀ new, (Command.recordQuery new).answer s = .error (.exhausted "queries" settings.queries) ↔
      settings.queries ≤ history.length ∧
        ∃ p, history[settings.queries - 1]? = some p ∧ p.live) ∧
    (OldestFirst commands start → ∀ new,
      (Command.recordQuery new).answer s = .error (.exhausted "queries" settings.queries) ↔
        settings.queries ≤ history.countP (·.live)) ∧
    (OldestFirst commands start → Relieves settings.queries commands start →
      ∀ before c after, commands = before ++ c :: after →
        (∀ new, c = .recordQuery new → c.answer (Command.runAll before start) ≠
          .error (.exhausted "queries" settings.queries)) ∧
        (settings.queries ≤ (Deed.accepted (Command.deeds before start)).countP (·.live) →
          c.answer (Command.runAll before start) = .ok (.flag true))) := by
  intro s history
  have hpos := queries_pos_of_create hcreate
  have i := remembers_runAll hcreate hmax commands
  have hsettings : (Command.runAll commands start).settings = settings :=
    (course_univ hcreate commands).settings_eq
  refine ⟨fun p hp hlive => get?_of_accepted hcreate hmax commands hp hlive, fun h hc => ?_,
    fun id => ?_, fun age hage => ?_, fun new => ?_,
    fun oldest new => refused_iff_of_oldestFirst hcreate hmax oldest new,
    fun oldest relieves before c after hsplit => ⟨?_, fun hmany => ?_⟩⟩
  · exact i.complete h ((SlotTable.contains_map Query.card s.queries h).trans hc)
  · have hmatched := correlate?_eq i id
    rwa [hsettings] at hmatched
  · have hsize : 0 < s.queries.slots.size := by omega
    exact ⟨by omega, hsize, Nat.mod_lt _ hsize⟩
  · exact (recordQuery_refused_iff hcreate commands new).trans (hasRoom_eq_false_iff i hpos hmax)
  · rintro new rfl hrefused
    have hmany :=
      (refused_iff_of_oldestFirst hcreate hmax (hsplit ▸ oldest).of_append new).1 hrefused
    -- Such a caller would have removed a query here.
    obtain ⟨p, -, hc⟩ := relieves before _ after hsplit hmany
    cases hc
  · obtain ⟨p, hp, rfl⟩ := relieves before c after hsplit hmany
    exact removeQuery_answer_of_accepted hcreate hmax before hp

/-- A ring of two slots refuses a query while the first one lives, though the slot of the second one
is free. -/
theorem queries_are_ring_of_history_of_free_slot :
    let settings : Settings := { queries := 2, buckets := 3, lookback := 5 }
    let start := empty settings 5000000 none .discard (.ending 600 3 5000000)
    let first : Arrival := { id := 1, domain := "a.test", client := "10.0.0.1", wire := 1 }
    let second : Arrival := { id := 2, domain := "a.test", client := "10.0.0.1", wire := 1 }
    let commands : List Command := [.recordQuery first, .recordQuery second, .removeQuery ⟨1, 0⟩]
    let s := Command.runAll commands start
    create settings 5000000 none .discard = .ok start ∧ settings.queries ≤ SlotTable.maxIndex ∧
      s.queries.live = 1 ∧
      (Command.recordQuery second).answer s = .error (.exhausted "queries" 2) ∧
      s.correlate? 1 = some ⟨0, 0⟩ ∧ s.correlate? 2 = none := by
  intro settings start first second commands s
  have hcreate : create settings 5000000 none .discard = .ok start :=
    create_of_made _ _ rfl (by decide +kernel)
  have hmax : settings.queries ≤ SlotTable.maxIndex := by decide
  have hhistory : Deed.accepted (Command.deeds commands start) =
      [⟨⟨1, 0⟩, 2, false⟩, ⟨⟨0, 0⟩, 1, true⟩] := by
    decide +kernel
  have hlive : s.queries.live = 1 := by decide +kernel
  obtain ⟨-, -, hcorrelate, -, hrefused, -⟩ := queries_are_ring_of_history hcreate hmax commands
  rw [hhistory] at hcorrelate hrefused
  exact ⟨hcreate, hmax, hlive, (hrefused second).2 ⟨by decide, _, rfl, rfl⟩, hcorrelate 1,
    hcorrelate 2⟩

/-- The oldest live query always leaves in time, but the third one leaves before the second. Then
the fifth is refused with two alive. -/
theorem recordQuery_refused_of_relieves :
    let settings : Settings := { queries := 3, buckets := 3 }
    let start := empty settings 5000000 none .discard (.ending 600 3 5000000)
    let query (id : Int) : Command :=
      .recordQuery { id, domain := "a.test", client := "10.0.0.1", wire := 1 }
    let commands := [query 1, query 2, query 3, .removeQuery ⟨0, 0⟩, .removeQuery ⟨2, 0⟩, query 4]
    let s := Command.runAll commands start
    create settings 5000000 none .discard = .ok start ∧ settings.queries ≤ SlotTable.maxIndex ∧
      Relieves settings.queries (commands ++ [query 5]) start ∧ s.queries.live = 2 ∧
      (query 5).answer s = .error (.exhausted "queries" settings.queries) := by
  intro settings start query commands s
  have hcreate : create settings 5000000 none .discard = .ok start :=
    create_of_made _ _ rfl (by decide +kernel)
  refine ⟨hcreate, by decide, fun before c after hsplit => ?_, by decide +kernel, by decide +kernel⟩
  have hbefore : before = (commands ++ [query 5]).take before.length := by
    rw [hsplit, List.take_left]
  have hc : (commands ++ [query 5])[before.length]? = some c := by
    rw [hsplit, List.getElem?_append_right (Nat.le_refl _), Nat.sub_self]
    rfl
  have hlt : before.length < 7 := (List.getElem?_eq_some_iff.1 hc).1
  generalize before.length = n at hbefore hc hlt
  subst hbefore
  by_cases hfull : n = 3
  · subst hfull
    exact fun _ => ⟨⟨⟨0, 0⟩, 1, true⟩, by decide +kernel, (Option.some.inj hc).symm⟩
  · have hfew : ∀ n < 7, n ≠ 3 → ¬ 3 ≤ (Deed.accepted (Command.deeds
        ((commands ++ [query 5]).take n) start)).countP (·.live) := by decide +kernel
    exact fun hmany => absurd hmany (hfew n hlt hfull)

end Store

end Sinkhole
