import Mathlib.Order.Bounds.Basic
import Sinkhole.Proofs.Store.Reloads
import Sinkhole.Schedule

namespace Sinkhole

open Store StoreM

/-- The time of the last reload that succeeded by a wall clock, and zero before there is one. -/
def ScheduleReport.lastRefresh (wall : ℕ → UInt64) (report : ScheduleReport) : UInt64 :=
  (report.lastSuccess.map wall).getD 0

namespace Schedule

variable {source : ℕ → ListSource} {report : ScheduleReport} {s : Store}

theorem ticksFrom_eq (interval deadline tick : ℕ) :
    ticksFrom interval deadline tick =
      (List.range ((deadline + (interval + 1) - tick) / (interval + 1))).map
        fun k => tick + k * (interval + 1) := by
  fun_induction ticksFrom interval deadline tick with
  | case1 tick hle ih =>
    -- One tick is taken off, and one interval with it.
    have hcount : (deadline + (interval + 1) - tick) / (interval + 1) =
        (deadline + (interval + 1) - (tick + interval + 1)) / (interval + 1) + 1 := by
      rw [← Nat.add_div_right _ (Nat.succ_pos interval)]
      congr 1
      omega
    rw [ih, hcount, List.range_succ_eq_map, List.map_cons, List.map_map]
    congr 1
    · omega
    · apply List.map_congr_left
      intro k _
      simp only [Function.comp_apply, Nat.succ_mul]
      omega
  | case2 tick hle =>
    rw [Nat.div_eq_of_lt (by omega)]
    rfl

theorem ticks_eq {schedule : Schedule} (hseconds : schedule.seconds ≠ 0) (seconds : ℕ) :
    schedule.ticks (1000 * seconds + 500) =
      (List.range (seconds / schedule.seconds + 1)).map fun k => 1000 * schedule.seconds * k := by
  have hperiod : 1000 * schedule.seconds - 1 + 1 = 1000 * schedule.seconds := by omega
  have hcount : (1000 * seconds + 500 + 1000 * schedule.seconds) / (1000 * schedule.seconds) =
      seconds / schedule.seconds + 1 := by
    rw [Nat.add_div_right _ (by omega), ← Nat.div_div_eq_div_mul]
    congr 2
    omega
  rw [ticks, ticksFrom_eq, hperiod, Nat.sub_zero, hcount]
  apply List.map_congr_left
  intro k _
  rw [Nat.zero_add, Nat.mul_comm]

theorem reloadTicks_eq {schedule : Schedule} (hseconds : schedule.seconds ≠ 0) (seconds : ℕ) :
    schedule.reloadTicks (1000 * seconds + 500) =
      (List.range (seconds / schedule.seconds + if schedule.atStart then 1 else 0)).map
        fun k => 1000 * schedule.seconds * if schedule.atStart then k else k + 1 := by
  rw [reloadTicks, ticks_eq hseconds]
  cases schedule.atStart with
  | true => rfl
  | false =>
    rw [List.range_succ_eq_map, List.map_cons, List.map_map]
    rfl

def opensAt (source : ℕ → ListSource) (n : ℕ) : Bool :=
  (source n).opening.result.isOk

/-- The last of so many attempts at which the source can be opened. -/
def lastOpened (source : ℕ → ListSource) : ℕ → Option ℕ
  | 0 => none
  | n + 1 => if opensAt source n then some n else lastOpened source n

theorem lastOpened_eq_none_iff (n : ℕ) :
    lastOpened source n = none ↔ ∀ i < n, opensAt source i = false := by
  induction n with
  | zero => simp [lastOpened]
  | succ n ih =>
    rw [lastOpened, Nat.forall_lt_succ_right]
    cases hopens : opensAt source n <;> simp [ih]

theorem isGreatest_of_lastOpened {n i : ℕ} (hlast : lastOpened source n = some i) :
    IsGreatest {i | i < n ∧ opensAt source i} i := by
  induction n with
  | zero => cases hlast
  | succ n ih =>
    rw [lastOpened] at hlast
    split at hlast
    · rename_i hopens
      cases hlast
      exact ⟨⟨Nat.lt_succ_self _, hopens⟩, fun j hj => Nat.le_of_lt_succ hj.1⟩
    · rename_i hopens
      obtain ⟨⟨hlt, hi⟩, hgreatest⟩ := ih hlast
      refine ⟨⟨Nat.lt_succ_of_lt hlt, hi⟩, fun j hj => ?_⟩
      rcases Nat.lt_succ_iff_lt_or_eq.1 hj.1 with hlt' | heq
      · exact hgreatest ⟨hlt', hj.2⟩
      · exact absurd (heq ▸ hj.2) hopens

theorem lastOpened_eq_some_iff {n i : ℕ} :
    lastOpened source n = some i ↔ IsGreatest {i | i < n ∧ opensAt source i} i := by
  constructor
  · exact isGreatest_of_lastOpened
  · intro hgreatest
    cases hlast : lastOpened source n with
    | none =>
      have hopens := (lastOpened_eq_none_iff n).1 hlast i hgreatest.1.1
      rw [hgreatest.1.2] at hopens
      cases hopens
    | some j => rw [(isGreatest_of_lastOpened hlast).unique hgreatest]

theorem outcome_of_refresh (lists : ListSource) (s : Store) :
    match lists.opening.result with
    | .ok _ => ((refresh lists).run.run s).value = .ok (reportOf lists s.now (s.awaited lists)) ∧
        ((refresh lists).run.run s).store = takenOver lists (s.awaited lists)
    | .error fault => ((refresh lists).run.run s).value = .error (.lists fault) ∧
        ((refresh lists).run.run s).store = s.awaited lists := by
  have houtcome := Attempt.Ensures.outcome (x := refresh lists) (s := s) (P := fun value s' =>
    match lists.opening.result with
    | .ok _ => value = .ok (reportOf lists s.now (s.awaited lists)) ∧
        s' = takenOver lists (s.awaited lists)
    | .error fault => value = .error (.lists fault) ∧ s' = s.awaited lists)
  apply houtcome
  refine (ensures_refresh lists s).2 ?_
  cases lists.opening.result <;> exact ⟨rfl, rfl⟩

section
variable (source : ℕ → ListSource) (report : ScheduleReport) (tick : ℕ) (s : Store)

theorem attempt_of_open (hopens : opensAt source report.attempts) :
    ((attempt source report tick).run s).value =
        { report with attempts := report.attempts + 1, lastSuccess := some tick } ∧
      ((attempt source report tick).run s).store =
        takenOver (source report.attempts) (s.awaited (source report.attempts)) := by
  have hrefresh := outcome_of_refresh (source report.attempts) s
  rw [opensAt] at hopens
  simp only [attempt, run_bind]
  cases hopening : (source report.attempts).opening.result with
  | ok =>
    rw [hopening] at hrefresh
    rw [hrefresh.1, hrefresh.2]
    exact ⟨rfl, rfl⟩
  | error fault =>
    rw [hopening] at hopens
    cases hopens

theorem attempt_of_closed (hcloses : opensAt source report.attempts = false) :
    ((attempt source report tick).run s).value = { report with attempts := report.attempts + 1 } ∧
      ((attempt source report tick).run s).store = s.awaited (source report.attempts) := by
  have hrefresh := outcome_of_refresh (source report.attempts) s
  rw [opensAt] at hcloses
  simp only [attempt, run_bind]
  cases hopening : (source report.attempts).opening.result with
  | ok =>
    rw [hopening] at hcloses
    cases hcloses
  | error fault =>
    rw [hopening] at hrefresh
    rw [hrefresh.1, hrefresh.2]
    exact ⟨rfl, rfl⟩

end

/-- What a schedule reports, and the row counts that it leaves, once it attempted a reload at each
of some ticks. -/
structure Attempted (source : ℕ → ListSource) (ticks : List ℕ) (s : Store)
    (report : ScheduleReport) (s' : Store) : Prop where
  runs_on : report.ended = false
  attempts_eq : report.attempts = ticks.length
  lastSuccess_eq : report.lastSuccess = (lastOpened source ticks.length).bind (ticks[·]?)
  counts_eq : ∀ i, lastOpened source ticks.length = some i → ∀ table count,
    ((source i).count table).result = .ok count → s'.ledger.tally.lists.get table = count
  counts_kept : lastOpened source ticks.length = none →
    s'.ledger.tally.lists = s.ledger.tally.lists

theorem Attempted.next {ticks : List ℕ} {s' : Store} (a : Attempted source ticks s report s')
    (tick : ℕ) : Attempted source (ticks ++ [tick]) s ((attempt source report tick).run s').value
      ((attempt source report tick).run s').store := by
  have hlength : (ticks ++ [tick]).length = report.attempts + 1 := by
    rw [List.length_append, List.length_singleton, a.attempts_eq]
  have hlast : lastOpened source (ticks ++ [tick]).length =
      if opensAt source report.attempts then some report.attempts
      else lastOpened source ticks.length := by
    rw [hlength, lastOpened, a.attempts_eq]
  -- A success is the last one now; a failure leaves the last one where it was among the ticks.
  cases hopens : opensAt source report.attempts with
  | true =>
    obtain ⟨hvalue, hstore⟩ := attempt_of_open source report tick s' hopens
    rw [hopens, if_pos rfl] at hlast
    rw [hvalue, hstore]
    refine ⟨a.runs_on, hlength.symm, ?_, fun i hi table count hcount => ?_, fun hnone => ?_⟩
    · rw [hlast, Option.bind_some, a.attempts_eq, List.getElem?_concat_length]
    · rw [hlast] at hi
      cases hi
      have hget := get_takenCounts (source report.attempts)
        (s'.awaited (source report.attempts)) table
      rw [hcount] at hget
      exact hget
    · rw [hlast] at hnone
      cases hnone
  | false =>
    obtain ⟨hvalue, hstore⟩ := attempt_of_closed source report tick s' hopens
    rw [hopens, if_neg Bool.false_ne_true] at hlast
    rw [hvalue, hstore]
    refine ⟨a.runs_on, hlength.symm, ?_, ?_, ?_⟩
    · rw [hlast]
      refine a.lastSuccess_eq.trans ?_
      cases hbefore : lastOpened source ticks.length with
      | none => rfl
      | some i =>
        have hlt := (isGreatest_of_lastOpened hbefore).1.1
        rw [Option.bind_some, Option.bind_some, List.getElem?_append_left hlt]
    · rw [hlast]
      exact a.counts_eq
    · rw [hlast]
      exact a.counts_kept

theorem attempted_foldlM (source : ℕ → ListSource) (ticks : List ℕ) (s : Store) :
    Attempted source ticks s ((ticks.foldlM (attempt source) { ended := false }).run s).value
      ((ticks.foldlM (attempt source) { ended := false }).run s).store := by
  induction ticks using List.reverseRecOn with
  | nil => exact ⟨rfl, rfl, rfl, nofun, fun _ => rfl⟩
  | append_singleton ticks tick ih =>
    rw [List.foldlM_append]
    simp only [List.foldlM_cons, List.foldlM_nil, bind_pure, run_bind]
    exact ih.next tick

theorem run_of_disabled {schedule : Schedule} (hoff : schedule.enabled = false)
    (source : ℕ → ListSource) (deadline : ℕ) (s : Store) :
    ((schedule.run source deadline).run s).value = { ended := true } ∧
      ((schedule.run source deadline).run s).store = s := by
  rw [run, hoff]
  exact ⟨rfl, rfl⟩

theorem attempted_run {schedule : Schedule} (hon : schedule.enabled)
    (source : ℕ → ListSource) (deadline : ℕ) (s : Store) :
    Attempted source (schedule.reloadTicks deadline) s
      ((schedule.run source deadline).run s).value
      ((schedule.run source deadline).run s).store := by
  rw [run, hon, if_pos rfl]
  exact attempted_foldlM source (schedule.reloadTicks deadline) s

theorem Attempted.lastRefresh_of_none {ticks : List ℕ} {s' : Store}
    (a : Attempted source ticks s report s') (hnone : lastOpened source ticks.length = none)
    (wall : ℕ → UInt64) : report.lastRefresh wall = 0 := by
  rw [ScheduleReport.lastRefresh, a.lastSuccess_eq, hnone]
  rfl

theorem Attempted.lastRefresh_of_some {ticks : List ℕ} {s' : Store} {i : ℕ}
    (a : Attempted source ticks s report s') (hlast : lastOpened source ticks.length = some i)
    (wall : ℕ → UInt64) : ∃ tick, ticks[i]? = some tick ∧ report.lastRefresh wall = wall tick := by
  have hlt := (isGreatest_of_lastOpened hlast).1.1
  refine ⟨ticks[i], List.getElem?_eq_getElem hlt, ?_⟩
  rw [ScheduleReport.lastRefresh, a.lastSuccess_eq, hlast, Option.bind_some,
    List.getElem?_eq_getElem hlt]
  rfl

theorem Attempted.count_eq {ticks : List ℕ} {s' : Store} {i : ℕ} {table : CountedTable}
    (a : Attempted source ticks s report s') (hlast : lastOpened source ticks.length = some i)
    (hcounts : ((source i).count table).result.isOk) :
    ((source i).count table).result = .ok (s'.ledger.tally.lists.get table) := by
  cases hresult : ((source i).count table).result with
  | ok count => rw [a.counts_eq i hlast table count hresult]
  | error fault =>
    rw [hresult] at hcounts
    cases hcounts

/-- Whether there was a success shows in the time of the last refresh, if the clock shows no zero.
-/
theorem Attempted.lastRefresh_ne_zero_iff {ticks : List ℕ} {s' : Store}
    (a : Attempted source ticks s report s') {wall : ℕ → UInt64} (hwall : ∀ tick, wall tick ≠ 0) :
    report.lastRefresh wall ≠ 0 ↔ ∃ i < report.attempts, opensAt source i := by
  rw [a.attempts_eq]
  cases hlast : lastOpened source ticks.length with
  | none =>
    have hnever := (lastOpened_eq_none_iff _).1 hlast
    rw [a.lastRefresh_of_none hlast]
    constructor
    · exact fun hne => absurd rfl hne
    · rintro ⟨i, hi, hopens⟩
      rw [hnever i hi] at hopens
      cases hopens
  | some i =>
    obtain ⟨tick, -, htime⟩ := a.lastRefresh_of_some hlast wall
    rw [htime]
    exact ⟨fun _ => ⟨i, (isGreatest_of_lastOpened hlast).1⟩, fun _ => hwall tick⟩

/-- A schedule without an interval ends at once. Any other runs on, and has attempted as many
reloads as intervals passed, and one more if it reloads at the start, whichever of them failed. The
last one that succeeded decides the row counts and the time of the last refresh, and one that fails
changes neither. -/
theorem schedule_attempts_once_an_interval {settings : Settings} {now : UInt64}
    {directory : Option AliasLookup} {sink : EventSink} {start : Store}
    (hcreate : create settings now directory sink = .ok start) (plan : Settings)
    (source : ℕ → ListSource)
    (hcounts : ∀ i, opensAt source i → ∀ table, ((source i).count table).result.isOk)
    {wall : ℕ → UInt64} (hwall : ∀ tick, wall tick ≠ 0) (seconds : ℕ) :
    let outcome := ((ofSettings plan).run source (1000 * seconds + 500)).run start
    let report := outcome.value
    let counts := outcome.store.ledger.tally.lists
    (plan.reloadSeconds = 0 → report.ended ∧ report.attempts = 0 ∧ outcome.store = start) ∧
    (plan.reloadSeconds ≠ 0 → report.ended = false ∧ report.attempts =
      seconds / plan.reloadSeconds + if plan.reloadAtStart then 1 else 0) ∧
    (report.lastRefresh wall ≠ 0 ↔ ∃ i < report.attempts, opensAt source i) ∧
    (∀ i, IsGreatest {i | i < report.attempts ∧ opensAt source i} i →
      report.lastRefresh wall =
        wall (1000 * plan.reloadSeconds * if plan.reloadAtStart then i else i + 1) ∧
      ∀ table, ((source i).count table).result = .ok (counts.get table)) ∧
    ((∀ i < report.attempts, opensAt source i = false) → counts = {}) ∧
    ∀ (r : ScheduleReport) (tick : ℕ) (s : Store), opensAt source r.attempts = false →
      ((attempt source r tick).run s).value.lastRefresh wall = r.lastRefresh wall ∧
      ((attempt source r tick).run s).store.ledger = s.ledger := by
  intro outcome report counts
  have hfailed : ∀ (r : ScheduleReport) (tick : ℕ) (s : Store), opensAt source r.attempts = false →
      ((attempt source r tick).run s).value.lastRefresh wall = r.lastRefresh wall ∧
      ((attempt source r tick).run s).store.ledger = s.ledger := by
    intro r tick s hcloses
    obtain ⟨hvalue, hstore⟩ := attempt_of_closed source r tick s hcloses
    rw [hvalue, hstore]
    exact ⟨rfl, rfl⟩
  have hstart : start.ledger.tally.lists = {} := by
    obtain ⟨window, -, rfl, -, -⟩ := create_eq_ok hcreate
    rfl
  by_cases hzero : plan.reloadSeconds = 0
  · have hoff : (ofSettings plan).enabled = false := by simp [ofSettings, hzero]
    obtain ⟨hvalue, hstore⟩ := run_of_disabled hoff source (1000 * seconds + 500) start
    have hreport : report = { ended := true } := hvalue
    have hattempts : report.attempts = 0 := by rw [hreport]
    have htime : report.lastRefresh wall = 0 := by
      rw [hreport]
      rfl
    have hlists : counts = {} := (congrArg (·.ledger.tally.lists) hstore).trans hstart
    rw [hattempts, htime]
    refine ⟨fun _ => ⟨by rw [hreport], rfl, hstore⟩, fun hne => absurd hzero hne, by simp,
      fun i hi => absurd hi.1.1 (Nat.not_lt_zero i), fun _ => hlists, hfailed⟩
  · have hon : (ofSettings plan).enabled := by
      simp [ofSettings, Nat.pos_of_ne_zero hzero]
    have a := attempted_run hon source (1000 * seconds + 500) start
    have hticks : (ofSettings plan).reloadTicks (1000 * seconds + 500) = _ :=
      reloadTicks_eq hzero seconds
    -- There are as many attempts as ticks, failed ones too.
    have hlength : report.attempts =
        seconds / plan.reloadSeconds + if plan.reloadAtStart then 1 else 0 := by
      rw [a.attempts_eq, hticks, List.length_map, List.length_range]
      rfl
    refine ⟨fun hoff => absurd hoff hzero, fun _ => ⟨a.runs_on, hlength⟩,
      a.lastRefresh_ne_zero_iff hwall, fun i hi => ?_, fun hnever => ?_, hfailed⟩
    · rw [a.attempts_eq] at hi
      have hlast := lastOpened_eq_some_iff.2 hi
      obtain ⟨tick, htick, htime⟩ := a.lastRefresh_of_some hlast wall
      refine ⟨?_, fun table => a.count_eq hlast (hcounts i hi.1.2 table)⟩
      rw [hticks, List.getElem?_map] at htick
      obtain ⟨k, hk, rfl⟩ := Option.map_eq_some_iff.1 htick
      obtain ⟨hlt, rfl⟩ := List.getElem?_eq_some_iff.1 hk
      rw [List.getElem_range] at htime
      exact htime
    · rw [a.attempts_eq] at hnever
      exact (a.counts_kept ((lastOpened_eq_none_iff _).2 hnever)).trans hstart

/-- Reloads each two seconds for seven and a half, of which the second and the fourth fail. The
clock is read while the schedule runs. -/
theorem schedule_attempts_once_an_interval_of_two_failures :
    let plan : Settings := { reloadSeconds := 2 }
    let start := empty plan 1700000000000 none .discard (.ending 600 150 1700000000000)
    let source : ℕ → ListSource := fun i =>
      { opening := { result := if i = 1 ∨ i = 3 then .error (.other "locked") else .ok () }
        count := fun _ => { result := .ok (Int64.ofNat (i + 1)) }
        filters := { result := .ok 0 }
        inaccessible := { result := .ok 0 } }
    let wall : ℕ → UInt64 := fun tick => UInt64.ofNat (1700000000000 + min tick 7500)
    let outcome := ((ofSettings plan).run source (1000 * 7 + 500)).run start
    create plan 1700000000000 none .discard = .ok start ∧
      (∀ i, opensAt source i → ∀ table, ((source i).count table).result.isOk) ∧
      (∀ tick, wall tick ≠ 0) ∧ outcome.value.ended = false ∧ outcome.value.attempts = 4 ∧
      outcome.value.lastRefresh wall = 1700000004000 ∧
      outcome.store.ledger.tally.lists.gravity = 3 := by
  intro plan start source wall outcome
  have hcreate : create plan 1700000000000 none .discard = .ok start :=
    create_of_made _ _ rfl (by decide +kernel)
  have hcounts : ∀ i, opensAt source i → ∀ table, ((source i).count table).result.isOk :=
    fun _ _ _ => rfl
  have hwall : ∀ tick, wall tick ≠ 0 := by
    intro tick hzero
    have hlt : 1700000000000 + min tick 7500 < 2 ^ 64 := by omega
    have hnat : (wall tick).toNat = 1700000000000 + min tick 7500 :=
      UInt64.toNat_ofNat_of_lt' hlt
    rw [hzero, UInt64.toNat_zero] at hnat
    omega
  obtain ⟨-, hruns, -, hlast, -⟩ :=
    schedule_attempts_once_an_interval hcreate plan source hcounts hwall 7
  obtain ⟨hended, hattempts⟩ := hruns (by decide)
  have hfour : outcome.value.attempts = 4 := hattempts.trans (by decide)
  have hgreatest : IsGreatest {i | i < outcome.value.attempts ∧ opensAt source i} 2 := by
    rw [hfour]
    exact lastOpened_eq_some_iff.1 rfl
  obtain ⟨htime, hcount⟩ := hlast 2 hgreatest
  have hgravity := Except.ok.inj (hcount .gravity)
  exact ⟨hcreate, hcounts, hwall, hended, hfour, htime.trans (by decide), hgravity.symm⟩

end Schedule

end Sinkhole
