import Sinkhole.Proofs.Store.Stillness

namespace Sinkhole

/-- What a command can show of one client: that it was added, that a query of it was seen, of a
client that was known before or of a new one, that the neighbour table reported it, or that its
report ended with a fault once it was noted. -/
inductive Observation where
  | added
  | seen (known : Bool)
  | scanned
  | interrupted
  deriving DecidableEq, Repr

namespace Observation

/-- Whether the queries that were seen before are to be counted still. -/
def continues : Observation → Bool
  | added | scanned => false
  | seen _ | interrupted => true

def isSeen : Observation → Bool
  | seen _ => true
  | _ => false

/-- What was observed since the client was added or the neighbour table reported it, latest first.
-/
def recent (told : List Observation) : List Observation :=
  told.reverse.takeWhile continues

/-- The number of queries that were seen since then. -/
def queriesSeen (told : List Observation) : Nat :=
  (recent told).countP isSeen

variable {told : List Observation} {o : Observation}

theorem recent_append (ho : o.continues) : recent (told ++ [o]) = o :: recent told := by
  rw [recent, List.reverse_append, List.reverse_singleton, List.singleton_append,
    List.takeWhile_cons_of_pos ho, recent]

theorem recent_append_of_not (ho : ¬ o.continues) : recent (told ++ [o]) = [] := by
  rw [recent, List.reverse_append, List.reverse_singleton, List.singleton_append,
    List.takeWhile_cons_of_neg ho]

theorem countP_isSeen (os : List Observation) :
    os.countP isSeen = os.count (seen false) + os.count (seen true) := by
  induction os with
  | nil => rfl
  | cons o os ih =>
    rw [List.countP_cons, List.count_cons, List.count_cons, ih]
    cases o with
    | seen known => cases known <;> simp [isSeen] <;> omega
    | _ => simp [isSeen]

end Observation

open Observation

namespace Command

/-- The query or the report of a client that a command shows. A report that ends with a fault shows
only where its interface had found room. -/
def call? (h : Handle .client) (c : Command) (s : Store) : Option Observation :=
  match c, c.answer s with
  | recordQuery _, .ok (.query q) =>
    if ((c.apply s).queries.get? q).map (·.client) = some h then
      some (seen (s.clients.contains h))
    else none
  | enrolClient _ true false, .ok (.client (some k)) =>
    if k = h then some (seen (s.clients.contains h)) else none
  | assignHardware k _ _, .ok (.flag true) => if k = h then some scanned else none
  | assignHardware k _ interface, .error _ =>
    if k = h ∧ (s.pool.intern interface).isOk then some interrupted else none
  | _, _ => none

def observed (h : Handle .client) (c : Command) (s : Store) : List Observation :=
  (if (c.apply s).clients.contains h && !s.clients.contains h then [added] else []) ++
    (c.call? h s).toList

def observations (h : Handle .client) : List Command → Store → List Observation
  | [], _ => []
  | c :: cs, s => c.observed h s ++ observations h cs (c.apply s)

end Command

/-- How what is observed of a client by one command changes its count. -/
inductive Observes : Option Int64 → List Observation → Option Int64 → Prop where
  | nothing (n? : Option Int64) : Observes n? [] n?
  | removed (n : Int64) : Observes (some n) [] none
  | added : Observes none [added] (some 0)
  | enrolled : Observes none [added, seen false] (some 1)
  | seen (n : Int64) : Observes (some n) [seen true] (some n)
  | scanned (n : Int64) : Observes (some n) [scanned] (some 0)
  | interrupted (n : Int64) : Observes (some n) [interrupted] (some 0)

namespace Store

open Attempt

variable {s : Store} {h k : Handle .client}

section
variable {c : Command}

theorem observed_eq (h : Handle .client) (c : Command) (s : Store) :
    c.observed h s =
      (if ((c.apply s).scans.get? h).isSome && !(s.scans.get? h).isSome then [added] else []) ++
        (c.call? h s).toList := by
  rw [Command.observed, contains_scans, contains_scans]

theorem observes_of_stays (hcall : c.call? h s = none)
    (stays : Stays (s.scans.get? h) ((c.apply s).scans.get? h)) :
    Observes (s.scans.get? h) (c.observed h s) ((c.apply s).scans.get? h) := by
  rw [observed_eq, hcall]
  generalize s.scans.get? h = n?, (c.apply s).scans.get? h = n'? at stays
  cases stays with
  | same =>
    cases n? with
    | none => exact .nothing none
    | some n => exact .nothing (some n)
  | came => exact .added

theorem observes_of_seen (hcall : c.call? h s = some (seen (s.clients.contains h)))
    (hself : (c.apply s).scans.get? h = seenCount (s.scans.get? h)) :
    Observes (s.scans.get? h) (c.observed h s) ((c.apply s).scans.get? h) := by
  rw [observed_eq, hcall, contains_scans, hself]
  cases s.scans.get? h with
  | none => exact .enrolled
  | some n => exact .seen n

theorem observes_of_report {o : Observation} (ho : o = scanned ∨ o = interrupted)
    (hcall : c.call? h s = some o) (live : s.clients.contains h)
    (hself : (c.apply s).scans.get? h = (s.scans.get? h).map fun _ => 0) :
    Observes (s.scans.get? h) (c.observed h s) ((c.apply s).scans.get? h) := by
  rw [contains_scans] at live
  obtain ⟨n, hn⟩ := Option.isSome_iff_exists.1 live
  rw [observed_eq, hcall, hself, hn]
  rcases ho with rfl | rfl
  · exact .scanned n
  · exact .interrupted n

/-- Of all other clients than the one that it touches a command shows only that they were added. -/
theorem observes_of_touches {f : Option Int64 → Option Int64} (t : Touches s k f (c.apply s))
    (hothers : ∀ h, h ≠ k → c.call? h s = none)
    (hself : Observes (s.scans.get? k) (c.observed k s) ((c.apply s).scans.get? k))
    (h : Handle .client) :
    Observes (s.scans.get? h) (c.observed h s) ((c.apply s).scans.get? h) := by
  by_cases hk : h = k
  · rw [hk]
    exact hself
  · exact observes_of_stays (hothers h hk) (t.others h hk)

theorem call?_of_unconcerned (hc : c.concernsScans = false) (h : Handle .client) (s : Store) :
    c.call? h s = none := by
  cases c with
  | recordQuery | assignHardware => cases hc
  | enrolClient address counted isAlias =>
    cases counted with
    | false => rfl
    | true =>
      cases isAlias with
      | false => cases hc
      | true => rfl
  | _ => rfl

end

theorem observes_recordQuery (w : s.WellFormed) (new : Arrival) (h : Handle .client) :
    Observes (s.scans.get? h) ((Command.recordQuery new).observed h s)
      (((Command.recordQuery new).apply s).scans.get? h) := by
  -- A query that is refused touches no count, and any other touches that of its client.
  have e : Ensures (Command.recordQuery new).perform s (fun _ => Still s) fun a s' =>
      ∃ q k, a = .query q ∧ (s'.queries.get? q).map (·.client) = some k ∧
        Touches s k seenCount s' := by
    simp only [Command.perform, ensures_bind]
    refine (touches_recordQuery w new).mono (fun _ _ a => a) ?_
    rintro q s' ⟨k, hclient, t⟩
    exact ⟨q, k, rfl, hclient, t⟩
  cases hanswer : (Command.recordQuery new).answer s with
  | error fault =>
    refine observes_of_stays ?_ ((e.of_error hanswer).stays (wellFormed_scans w) h)
    simp only [Command.call?, hanswer]
  | ok a =>
    obtain ⟨q, k, rfl, hclient, t⟩ := e.of_ok hanswer
    have hclient : (((Command.recordQuery new).apply s).queries.get? q).map (·.client) = some k :=
      hclient
    refine observes_of_touches t (fun h hk => ?_) (observes_of_seen ?_ t.self) h
    · simp only [Command.call?, hanswer, hclient, Option.some_inj, if_neg (Ne.symm hk)]
    · simp only [Command.call?, hanswer, hclient, if_true]

theorem observes_enrolClient (w : s.WellFormed) (address : String) (h : Handle .client) :
    Observes (s.scans.get? h) ((Command.enrolClient address true false).observed h s)
      (((Command.enrolClient address true false).apply s).scans.get? h) := by
  have e : Ensures (Command.enrolClient address true false).perform s (fun _ => Still s) fun a s' =>
      ∃ k, a = .client (some k) ∧ Touches s k seenCount s' := by
    simp only [Command.perform, ensures_bind]
    refine (touches_enrolClient w address).mono (fun _ _ a => a) ?_
    rintro _ s' ⟨k, rfl, t⟩
    exact ⟨k, rfl, t⟩
  cases hanswer : (Command.enrolClient address true false).answer s with
  | error fault =>
    refine observes_of_stays ?_ ((e.of_error hanswer).stays (wellFormed_scans w) h)
    simp only [Command.call?, hanswer]
  | ok a =>
    obtain ⟨k, rfl, t⟩ := e.of_ok hanswer
    refine observes_of_touches t (fun h hk => ?_) (observes_of_seen ?_ t.self) h
    · simp only [Command.call?, hanswer, if_neg (Ne.symm hk)]
    · simp only [Command.call?, hanswer, if_true]

theorem observes_assignHardware (w : s.WellFormed) (k : Handle .client)
    (hardware : HardwareAddress) (interface : String) (h : Handle .client) :
    Observes (s.scans.get? h) ((Command.assignHardware k hardware interface).observed h s)
      (((Command.assignHardware k hardware interface).apply s).scans.get? h) := by
  -- A report that fails has noted itself before if the interface found room.
  have e : Ensures (Command.assignHardware k hardware interface).perform s
      (fun _ s' => if (s.pool.intern interface).isOk then
          s.clients.contains k ∧ Touches s k (Option.map fun _ => 0) s'
        else s' = s)
      fun a s' => ∃ known, a = .flag known ∧ if known then
          s.clients.contains k ∧ Touches s k (Option.map fun _ => 0) s'
        else s' = s := by
    simp only [Command.perform, ensures_bind]
    exact (touches_assignHardware w k hardware interface).mono (fun _ _ t => t)
      fun known _ t => ⟨known, rfl, t⟩
  have hsame : ∀ s', s' = s → Stays (s.scans.get? h) (s'.scans.get? h) := by
    rintro _ rfl
    exact .same _
  cases hanswer : (Command.assignHardware k hardware interface).answer s with
  | error fault =>
    have t := e.of_error hanswer
    split at t
    · rename_i hroom
      obtain ⟨live, t⟩ := t
      refine observes_of_touches t (fun h hk => ?_) (observes_of_report (.inr rfl) ?_ live t.self) h
      · simp [Command.call?, hanswer, Ne.symm hk]
      · simp [Command.call?, hanswer, hroom]
    · rename_i hroom
      refine observes_of_stays ?_ (hsame _ t)
      simp [Command.call?, hanswer, hroom]
  | ok a =>
    obtain ⟨known, rfl, t⟩ := e.of_ok hanswer
    cases known with
    | false =>
      refine observes_of_stays ?_ (hsame _ t)
      simp [Command.call?, hanswer]
    | true =>
      obtain ⟨live, t⟩ := t
      refine observes_of_touches t (fun h hk => ?_) (observes_of_report (.inl rfl) ?_ live t.self) h
      · simp [Command.call?, hanswer, Ne.symm hk]
      · simp [Command.call?, hanswer]

theorem observes_removeClient (w : s.WellFormed) (k h : Handle .client) :
    Observes (s.scans.get? h) ((Command.removeClient k).observed h s)
      (((Command.removeClient k).apply s).scans.get? h) := by
  have t := touches_removeClient w k
  have hcall : ∀ h, (Command.removeClient k).call? h s = none := fun _ => rfl
  refine observes_of_touches t (fun h _ => hcall h) ?_ h
  rw [observed_eq, hcall, t.self]
  cases s.scans.get? k with
  | none => exact .nothing none
  | some n => exact .removed n

theorem observes (w : s.WellFormed) (c : Command) (h : Handle .client) :
    Observes (s.scans.get? h) (c.observed h s) ((c.apply s).scans.get? h) := by
  cases hc : c.concernsScans with
  | false =>
    exact observes_of_stays (call?_of_unconcerned hc h s)
      ((still_of_unconcerned hc s).stays (wellFormed_scans w) h)
  | true =>
    cases c with
    | recordQuery new => exact observes_recordQuery w new h
    | enrolClient address counted isAlias =>
      cases counted with
      | false => cases hc
      | true =>
        cases isAlias with
        | false => exact observes_enrolClient w address h
        | true => cases hc
    | assignHardware k hardware interface =>
      exact observes_assignHardware w k hardware interface h
    | removeClient k => exact observes_removeClient w k h
    | _ => cases hc

/-- What is counted for a client after all that was observed of it. Only once can a query come with
the client. -/
structure Noted (told : List Observation) (n : Int64) : Prop where
  count_eq : n = if seen false ∈ recent told ∧ interrupted ∉ recent told then 1 else 0
  once : (recent told).count (seen false) ≤ 1

theorem noted_of_observes {told os : List Observation} {n? n'? : Option Int64}
    (hnoted : ∀ n, n? = some n → Noted told n) (o : Observes n? os n'?) :
    ∀ n, n'? = some n → Noted (told ++ os) n := by
  intro n hn
  -- All that was observed before an addition or a report is forgotten.
  cases o with
  | nothing =>
    rw [List.append_nil]
    exact hnoted n hn
  | removed => cases hn
  | added =>
    cases hn
    have hrecent : recent (told ++ [Observation.added]) = [] := recent_append_of_not nofun
    constructor <;> simp [hrecent]
  | enrolled =>
    cases hn
    have hadded : recent (told ++ [Observation.added]) = [] := recent_append_of_not nofun
    have hrecent : recent (told ++ [Observation.added, seen false]) = [seen false] := by
      rw [← List.singleton_append, ← List.append_assoc, recent_append rfl, hadded]
    constructor <;> simp [hrecent]
  | seen m =>
    obtain ⟨hcount, honce⟩ := hnoted n hn
    have hrecent : recent (told ++ [seen true]) = seen true :: recent told := recent_append rfl
    constructor
    · rw [hcount, hrecent]
      simp
    · rw [hrecent]
      simpa using honce
  | scanned =>
    cases hn
    have hrecent : recent (told ++ [Observation.scanned]) = [] := recent_append_of_not nofun
    constructor <;> simp [hrecent]
  | interrupted m =>
    obtain ⟨-, honce⟩ := hnoted m rfl
    cases hn
    have hrecent : recent (told ++ [Observation.interrupted]) =
        Observation.interrupted :: recent told := recent_append rfl
    constructor
    · simp [hrecent]
    · rw [hrecent]
      simpa using honce

theorem noted_runAll (w : s.WellFormed) {told : List Observation}
    (hnoted : ∀ n, s.scans.get? h = some n → Noted told n) (cs : List Command) :
    ∀ n, (Command.runAll cs s).scans.get? h = some n →
      Noted (told ++ Command.observations h cs s) n := by
  -- What was observed before stays in the induction, since the count depends on it.
  induction cs generalizing s told with
  | nil =>
    rw [Command.observations, List.append_nil]
    exact hnoted
  | cons c cs ih =>
    rw [Command.observations, ← List.append_assoc]
    exact ih ((effect w c).wellFormed w) (noted_of_observes hnoted (observes w c h))

theorem Noted.eq_queriesSeen_iff {told : List Observation} {n : Int64} (noted : Noted told n) :
    n.toInt = queriesSeen told ↔
      seen true ∉ recent told ∧ (seen false ∈ recent told → interrupted ∉ recent told) := by
  obtain ⟨hcount, honce⟩ := noted
  have hvalue : n.toInt = if seen false ∈ recent told ∧ interrupted ∉ recent told then 1 else 0 := by
    rw [hcount]
    split <;> rfl
  have hknown : seen true ∉ recent told ↔ (recent told).count (seen true) = 0 :=
    List.count_eq_zero.symm
  -- A client comes with one query at most.
  have hfirst : (recent told).count (seen false) = if seen false ∈ recent told then 1 else 0 := by
    split
    · rename_i hseen
      have hpos := List.count_pos_iff.2 hseen
      omega
    · rename_i hseen
      exact List.count_eq_zero.2 hseen
  rw [queriesSeen, countP_isSeen, hvalue, hknown, hfirst]
  by_cases hseen : seen false ∈ recent told
  · by_cases hcut : interrupted ∈ recent told
    · simp only [hseen, hcut, not_true_eq_false, and_false, if_false, if_true, imp_false, iff_false]
      omega
    · simp only [hseen, hcut, not_false_eq_true, and_true, if_true, imp_self]
      omega
  · simp only [hseen, false_and, if_false, false_imp_iff, and_true]
    omega

/-- The count since the last report is one if the client came with a query and neither was reported
then nor was a report of it interrupted, and else zero. So it is the number of queries seen exactly
if none was seen of the client once it was known, and no report that ended with a fault took the
first one away. -/
theorem since_scan_counts_first_query_only {settings : Settings} {now : UInt64}
    {directory : Option AliasLookup} {sink : EventSink} {start : Store}
    (hcreate : create settings now directory sink = .ok start) (commands : List Command)
    {h : Handle .client} {c : Client}
    (live : (Command.runAll commands start).clients.get? h = some c) :
    let told := Command.observations h commands start
    (c.sinceScan = if seen false ∈ recent told ∧ interrupted ∉ recent told then 1 else 0) ∧
      (c.sinceScan.toInt = queriesSeen told ↔
        seen true ∉ recent told ∧ (seen false ∈ recent told → interrupted ∉ recent told)) := by
  intro told
  obtain ⟨window, -, rfl, -, -⟩ := create_eq_ok hcreate
  have hnobody : ∀ n, (empty settings now directory sink window).scans.get? h = some n →
      Noted [] n := by
    intro n hn
    rw [scans, empty, SlotTable.map_empty] at hn
    cases hn
  have hnoted : Noted told c.sinceScan :=
    noted_runAll (wellFormed_empty settings now directory sink window) hnobody commands c.sinceScan
      (SlotTable.get?_map_of_get? Client.sinceScan live)
  exact ⟨hnoted.count_eq, hnoted.eq_queriesSeen_iff⟩

/-- A client comes with a query, is reported, and is asked for again. -/
theorem since_scan_counts_first_query_only_of_reported_client :
    let settings : Settings := { buckets := 3 }
    let start := empty settings 5000000 none .discard (.ending 600 3 5000000)
    let hardware : HardwareAddress := ⟨[0, 1, 2, 3, 4, 5], by decide, by decide⟩
    let commands := [Command.enrolClient "10.0.0.1" true false,
      .assignHardware ⟨0, 0⟩ hardware "eth0", .enrolClient "10.0.0.1" true false]
    let told := Command.observations ⟨0, 0⟩ commands start
    create settings 5000000 none .discard = .ok start ∧
      told = [Observation.added, .seen false, .scanned, .seen true] ∧
      ∃ c, (Command.runAll commands start).clients.get? ⟨0, 0⟩ = some c ∧ c.sinceScan = 0 ∧
        c.sinceScan.toInt ≠ queriesSeen told := by
  intro settings start hardware commands told
  have hcreate : create settings 5000000 none .discard = .ok start :=
    create_of_made _ _ rfl (by decide +kernel)
  have htold : told = [Observation.added, .seen false, .scanned, .seen true] := by decide +kernel
  have hrecent : recent told = [.seen true] := by rw [htold]; rfl
  have hlive : ((Command.runAll commands start).clients.get? ⟨0, 0⟩).isSome := by decide +kernel
  obtain ⟨c, hc⟩ := Option.isSome_iff_exists.1 hlive
  obtain ⟨hcount, hseen⟩ := since_scan_counts_first_query_only hcreate commands hc
  rw [hrecent] at hcount hseen
  refine ⟨hcreate, htold, c, hc, hcount.trans (if_neg (by decide)), fun hall => ?_⟩
  exact (hseen.1 hall).1 List.mem_cons_self

/-- A regular client of which two queries were seen, with a count of one. -/
theorem second_query_not_counted_since_scan :
    let first : Arrival := { id := 1, domain := "a.test", client := "10.0.0.1", wire := 1 }
    let second : Arrival := { id := 2, domain := "a.test", client := "10.0.0.1", wire := 1 }
    let settings : Settings := { buckets := 3 }
    let start := empty settings 5000000 none .discard (.ending 600 3 5000000)
    let commands := [Command.recordQuery first, .recordQuery second]
    create settings 5000000 none .discard = .ok start ∧
      ((Command.runAll commands start).clients.get? ⟨0, 0⟩).map (fun c => (c.isAlias, c.sinceScan)) =
        some (false, 1) ∧
      queriesSeen (Command.observations ⟨0, 0⟩ commands start) = 2 := by
  refine ⟨create_of_made _ _ rfl (by decide +kernel), ?_⟩
  decide +kernel

end Store

end Sinkhole
