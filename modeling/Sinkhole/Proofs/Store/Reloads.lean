import Sinkhole.Proofs.Store.Bystanders
import Sinkhole.Proofs.Store.Courses

namespace Sinkhole

theorem CountedTable.mem_all (table : CountedTable) : table ∈ all := by
  cases table <;> decide

theorem SlotTable.length_entries_mapLive {K : Kind} {α : Type} (t : SlotTable K α) (f : α → α) :
    (t.mapLive f).entries.length = t.entries.length := by
  have hcard := congrArg Multiset.card (records_mapLive t f)
  simpa [records] using hcard

namespace Store

open Attempt StoreM

variable {lists : ListSource}

theorem get_takeCount (lists : ListSource) (counts : ListCounts) (table u : CountedTable)
    (s : Store) :
    (((takeCount lists counts table).run s).value).get u =
      if u = table then (lists.count table).result.toOption.getD (counts.get u)
      else counts.get u := by
  simp only [takeCount, consult, ExceptT.run_mk, run_bind]
  cases (lists.count table).result with
  | ok n => exact ListCounts.get_set counts table u n
  | error fault => simp [Except.toOption]

theorem get_foldlM_takeCount (lists : ListSource) (tables : List CountedTable)
    (counts : ListCounts) (u : CountedTable) (s : Store) :
    (((tables.foldlM (takeCount lists) counts).run s).value).get u =
      if u ∈ tables then (lists.count u).result.toOption.getD (counts.get u)
      else counts.get u := by
  induction tables generalizing counts with
  | nil => rfl
  | cons table tables ih =>
    simp only [List.foldlM_cons, run_bind, store_takeCount, ih, get_takeCount, List.mem_cons]
    by_cases hu : u = table
    · subst hu
      cases (lists.count u).result <;> simp [Except.toOption]
    · simp [hu]

theorem value_orZero (r : Reading Nat) (failed : Fault → Notice) (s : Store) :
    ((orZero r failed).run s).value = r.result.toOption.getD 0 := by
  simp only [orZero, consult, ExceptT.run_mk, run_bind]
  cases r.result <;> rfl

def forgotten (s : Store) : Store :=
  { s with
    decisions := s.decisions.mapLive Decision.forget
    clients := s.clients.mapLive ({ · with groupsKnown := false }) }

def takenCounts (lists : ListSource) (s : Store) : ListCounts :=
  ((CountedTable.all.foldlM (takeCount lists) s.ledger.tally.lists).run s).value

theorem get_takenCounts (lists : ListSource) (s : Store) (table : CountedTable) :
    (takenCounts lists s).get table =
      (lists.count table).result.toOption.getD (s.ledger.tally.lists.get table) := by
  rw [takenCounts, get_foldlM_takeCount, if_pos table.mem_all]

def takenOver (lists : ListSource) (s : Store) : Store :=
  forgotten { s with ledger := s.ledger.setLists (takenCounts lists s) }

def reportOf (lists : ListSource) (start : UInt64) (s : Store) : ReloadReport where
  counts := takenCounts lists s
  filters := lists.filters.result.toOption.getD 0
  inaccessible := lists.inaccessible.result.toOption.getD 0
  forgotten := s.decisions.entries.length
  duration := satSub s.now start
  time := s.now

theorem run_takeOver (lists : ListSource) (start : UInt64) (s : Store) :
    ((takeOver lists start).run s).value = reportOf lists start s ∧
      ((takeOver lists start).run s).store = takenOver lists s := by
  simp only [takeOver, forgetDecisions, run_bind, StoreM.run_get, StoreM.run_modify,
    store_foldlM_takeCount, store_orZero, value_orZero, run_notify, run_pure,
    SlotTable.length_entries_mapLive]
  exact ⟨rfl, rfl⟩

def awaited (s : Store) (lists : ListSource) : Store :=
  { s with now := lists.clock.getD s.now }

section
variable {failed : Fault → Store → Prop} {done : ReloadReport → Store → Prop}

theorem ensures_reload (lists : ListSource) (s : Store) :
    Ensures (reload lists) s failed done ↔
      match lists.opening.result with
      | .ok _ => done (reportOf lists s.now (s.awaited lists)) (takenOver lists (s.awaited lists))
      | .error fault => failed (.lists fault) (s.awaited lists) := by
  have hawait : ((await lists).run s).store = s.awaited lists := rfl
  simp only [reload, ensures_bind, ensures_get, ensures_liftM, ensures_tryCatch, ensures_consult,
    hawait, run_takeOver, run_notify, ensures_throw]
  cases lists.opening.result <;> rfl

theorem ensures_refresh (lists : ListSource) (s : Store) :
    Ensures (refresh lists) s failed done ↔
      match lists.opening.result with
      | .ok _ => done (reportOf lists s.now (s.awaited lists)) (takenOver lists (s.awaited lists))
      | .error fault => failed (.lists fault) (s.awaited lists) := by
  simp only [refresh, ensures_bind, ensures_reload, ensures_liftM, run_notify, ensures_pure]

end

/-- What a reload reports and leaves once its source is open. -/
structure Reloaded (lists : ListSource) (s : Store) (report : ReloadReport) (s' : Store) :
    Prop where
  counts_eq : ∀ table, s'.ledger.tally.lists.get table =
    (lists.count table).result.toOption.getD (s.ledger.tally.lists.get table)
  decisions_eq : ∀ h, s'.decisions.get? h =
    (s.decisions.get? h).map ({ · with verdict := .unknown, list := none })
  clients_eq : ∀ h, s'.clients.get? h = (s.clients.get? h).map ({ · with groupsKnown := false })
  rest_eq : s' =
    { s with
      now := lists.clock.getD s.now
      ledger := s.ledger.setLists s'.ledger.tally.lists
      decisions := s.decisions.mapLive Decision.forget
      clients := s.clients.mapLive ({ · with groupsKnown := false }) }
  report_eq : report =
    { counts := s'.ledger.tally.lists
      filters := lists.filters.result.toOption.getD 0
      inaccessible := lists.inaccessible.result.toOption.getD 0
      forgotten := s.decisions.entries.length
      duration := satSub (lists.clock.getD s.now) s.now
      time := lists.clock.getD s.now }

theorem reloaded_of_open (lists : ListSource) (s : Store) :
    Reloaded lists s (reportOf lists s.now (s.awaited lists))
      (takenOver lists (s.awaited lists)) where
  counts_eq := get_takenCounts lists (s.awaited lists)
  decisions_eq := SlotTable.get?_mapLive s.decisions Decision.forget
  clients_eq := SlotTable.get?_mapLive s.clients _
  rest_eq := rfl
  report_eq := rfl

/-- The two commands that reload the lists. -/
inductive IsReload (lists : ListSource) : Command → Prop where
  | plain : IsReload lists (.reload lists)
  | onRequest : IsReload lists (.refresh lists)

theorem outcome_of_reload {c : Command} (hc : IsReload lists c) (s : Store) :
    match lists.opening.result with
    | .ok _ => c.answer s = .ok (.report (reportOf lists s.now (s.awaited lists))) ∧
        c.apply s = takenOver lists (s.awaited lists)
    | .error fault => c.answer s = .error (.lists fault) ∧ c.apply s = s.awaited lists := by
  have houtcome := Ensures.outcome (x := c.perform) (s := s) (P := fun value s' =>
    match lists.opening.result with
    | .ok _ => value = .ok (.report (reportOf lists s.now (s.awaited lists))) ∧
        s' = takenOver lists (s.awaited lists)
    | .error fault => value = .error (.lists fault) ∧ s' = s.awaited lists)
  apply houtcome
  cases hc with
  | plain =>
    refine (ensures_map Answer.report (reload lists)).2 ((ensures_reload lists s).2 ?_)
    split <;> exact ⟨rfl, rfl⟩
  | onRequest =>
    refine (ensures_map Answer.report (refresh lists)).2 ((ensures_refresh lists s).2 ?_)
    split <;> exact ⟨rfl, rfl⟩

end Store

namespace Command

def counted? (table : CountedTable) : Command → Option Int64
  | reload lists | refresh lists =>
    match lists.opening.result with
    | .ok _ => (lists.count table).result.toOption
    | .error _ => none
  | _ => none

/-- The last count of a table that a run brings, and zero if it brings none. -/
def lastCount (table : CountedTable) (commands : List Command) : Int64 :=
  (commands.reverse.findSome? (counted? table)).getD 0

end Command

namespace Store

open Attempt StoreM

variable {lists : ListSource}

theorem lists_of_reload {c : Command} (hc : IsReload lists c) (s : Store) (table : CountedTable) :
    (c.apply s).ledger.tally.lists.get table =
      (c.counted? table).getD (s.ledger.tally.lists.get table) := by
  have hcounted : c.counted? table =
      match lists.opening.result with
      | .ok _ => (lists.count table).result.toOption
      | .error _ => none := by
    cases hc <;> rfl
  have houtcome := outcome_of_reload hc s
  rw [hcounted]
  split at houtcome
  · rw [houtcome.2]
    exact get_takenCounts lists (s.awaited lists) table
  · rw [houtcome.2]
    rfl

theorem ledger_enrolDecision (domain : Handle .domain) (client : Handle .client)
    (type : RecordType) (create : Bool) (s : Store) :
    ((Command.enrolDecision domain client type create).apply s).ledger = s.ledger := by
  refine Ensures.store (P := fun s' => s'.ledger = s.ledger) ?_
  refine (ensures_map Answer.decision _).2 ?_
  refine (ensures_enrolDecision domain client type create s).2 ?_
  split
  · rfl
  · split
    · split <;> rfl
    · rfl

theorem counted?_of_bystander {c : Command} (hc : c.concernsLists = false)
    (table : CountedTable) : c.counted? table = none := by
  cases c <;> first | rfl | cases hc

/-- Only a reload that could open its source changes row counts, of the tables that it could count.
-/
theorem lists_apply (c : Command) (s : Store) (table : CountedTable) :
    (c.apply s).ledger.tally.lists.get table =
      (c.counted? table).getD (s.ledger.tally.lists.get table) := by
  cases hc : c.concernsLists with
  | false => rw [counted?_of_bystander hc, (spares_of_bystander hc s).lists_eq, Option.getD_none]
  | true =>
    cases c with
    | reload lists => exact lists_of_reload .plain s table
    | refresh lists => exact lists_of_reload .onRequest s table
    | enrolDecision d c type create =>
      rw [ledger_enrolDecision]
      rfl
    | noteVerdict | forgetDecisions => rfl
    | removeDecision d =>
      rw [apply_eq (f := .flag) rfl, removeDecision, store_removeFrom s (·.decisions) rfl]
      rfl
    | _ => cases hc

theorem lists_runAll (commands : List Command) (s : Store) (table : CountedTable) :
    (Command.runAll commands s).ledger.tally.lists.get table =
      (commands.reverse.findSome? (Command.counted? table)).getD
        (s.ledger.tally.lists.get table) := by
  induction commands generalizing s with
  | nil => rfl
  | cons c cs ih =>
    have hrest := ih (c.apply s)
    rw [lists_apply] at hrest
    rw [Command.runAll, List.foldl_cons]
    refine hrest.trans ?_
    rw [List.reverse_cons, List.findSome?_append]
    cases cs.reverse.findSome? (Command.counted? table) with
    | some n => rfl
    | none => simp

/-- A reload whose source cannot be opened says why and changes nothing. Any other succeeds: each
table that can be counted gets its new count and any other keeps its old one, every verdict is
forgotten and which clients have their groups, and nothing else changes. So after any run each row
count is the last one that a reload brought. The clock may move while a source opens. -/
theorem reloads_take_over_and_forget {settings : Settings} {now : UInt64}
    {directory : Option AliasLookup} {sink : EventSink} {start : Store}
    (hcreate : create settings now directory sink = .ok start) :
    (∀ (s : Store) (lists : ListSource) (c : Command), IsReload lists c →
      (∀ fault, lists.opening.result = .error fault → c.answer s = .error (.lists fault) ∧
        c.apply s = { s with now := lists.clock.getD s.now }) ∧
      (lists.opening.result = .ok () → ∃ report, c.answer s = .ok (.report report) ∧
        Reloaded lists s report (c.apply s)) ∧
      (c.apply s).ledger.tally.statuses = s.ledger.tally.statuses ∧
      (c.apply s).ledger.tally.types = s.ledger.tally.types ∧
      (c.apply s).ledger.tally.replies = s.ledger.tally.replies ∧
      (c.apply s).ledger.window = s.ledger.window ∧
      (c.apply s).ledger.buckets = s.ledger.buckets) ∧
    ∀ (commands : List Command) (table : CountedTable),
      (Command.runAll commands start).ledger.tally.lists.get table =
        Command.lastCount table commands := by
  refine ⟨fun s lists c hc => ?_, fun commands table => ?_⟩
  · have houtcome := outcome_of_reload hc s
    split at houtcome
    · rename_i hopening
      obtain ⟨hanswer, happly⟩ := houtcome
      refine ⟨fun fault hfault => ?_, fun _ => ⟨_, hanswer, ?_⟩, ?_⟩
      · rw [hopening] at hfault
        cases hfault
      · rw [happly]
        exact reloaded_of_open lists s
      · rw [happly]
        exact ⟨rfl, rfl, rfl, rfl, rfl⟩
    · rename_i fault hopening
      obtain ⟨hanswer, happly⟩ := houtcome
      refine ⟨fun fault' hfault => ?_, fun hok => ?_, ?_⟩
      · rw [hopening] at hfault
        cases hfault
        exact ⟨hanswer, happly⟩
      · rw [hopening] at hok
        cases hok
      · rw [happly]
        exact ⟨rfl, rfl, rfl, rfl, rfl⟩
  · obtain ⟨window, -, rfl, -, -⟩ := create_eq_ok hcreate
    rw [lists_runAll]
    cases table <;> rfl

/-- The second source cannot count one table, and the third cannot be opened. -/
theorem reloads_take_over_and_forget_of_broken_table :
    let start := empty { buckets := 3 } 5000000 none .discard (.ending 600 3 5000000)
    let whole : ListSource :=
      { opening := { result := .ok () }
        count := fun _ => { result := .ok 10 }
        filters := { result := .ok 2 }
        inaccessible := { result := .error .cannotOpen } }
    let broken : ListSource :=
      { whole with
        count := fun table =>
          { result := if table = .gravity then .error (.noSuchTable "gravity") else .ok 20 } }
    let closed : ListSource :=
      { whole with
        opening := { result := .error .cannotOpen }
        count := fun _ => { result := .ok 99 } }
    let commands : List Command :=
      [.reload whole, .enrolDomain "a.test" false, .refresh broken, .reload closed]
    let s := Command.runAll commands start
    create { buckets := 3 } 5000000 none .discard = .ok start ∧
      s.ledger.tally.lists.gravity = 10 ∧ s.ledger.tally.lists.groups = 20 ∧
      (Command.reload closed).answer s = .error (.lists .cannotOpen) ∧
      (Command.reload closed).apply s = s := by
  intro start whole broken closed commands s
  have hcreate : create { buckets := 3 } 5000000 none .discard = .ok start :=
    create_of_made _ _ rfl (by decide +kernel)
  obtain ⟨hreload, hcounts⟩ := reloads_take_over_and_forget hcreate
  obtain ⟨hanswer, happly⟩ := (hreload s closed (.reload closed) .plain).1 .cannotOpen rfl
  exact ⟨hcreate, hcounts commands .gravity, hcounts commands .groups, hanswer, happly⟩

end Store

end Sinkhole
