import Sinkhole.Proofs.Record.Moments
import Sinkhole.Proofs.Store.Courses

namespace Sinkhole.Store

open Attempt StoreM Series

variable {s : Store} {h : Handle .forwarder} {u : Forwarder}

theorem times_of_added (w : s.forwarders.WellFormed) {address : String} {number : UInt16}
    (unknown : s.findForwarder? address number = none)
    (hadded : (Command.enrolForwarder address number).answer s = .ok (.forwarder h)) :
    ∃ u, ((Command.enrolForwarder address number).apply s).forwarders.get? h = some u ∧
      u.times = Spread.empty := by
  have hensures : Ensures (Command.enrolForwarder address number).perform s (fun _ _ => True)
      fun a s' => ∀ h, a = .forwarder h →
        ∃ u, s'.forwarders.get? h = some u ∧ u.times = Spread.empty := by
    simp only [Command.perform, enrolForwarder, ensures_bind, ensures_get, unknown, ensures_intern]
    split
    · simp only [ensures_ofTable]
      split
      · rename_i put
        simp only [ensures_liftM, run_notify, store_raise, ensures_pure]
        rintro _ ⟨⟩
        exact ⟨_, (SlotTable.placed_of_insert w put).get?_self, rfl⟩
      · trivial
    · trivial
  exact hensures.of_ok hadded h rfl

theorem times_runAll (hu : s.forwarders.get? h = some u) (xs : List Float) :
    ∃ u', (Command.runAll (xs.map (.noteResponse h)) s).forwarders.get? h = some u' ∧
      u'.times = xs.foldl Spread.add u.times := by
  induction xs generalizing s u with
  | nil => exact ⟨u, hu, rfl⟩
  | cons x xs ih =>
    have hnoted : ((Command.noteResponse h x).apply s).forwarders.get? h =
        some { u with times := u.times.add x, lastQuery := s.now } := by
      change (s.forwarders.modify h _).get? h = _
      rw [SlotTable.get?_modify, if_pos rfl, hu]
      rfl
    exact ih hnoted

/-- The response times of a forwarder that was just added are kept as a spread, by the same steps as
any series. In exact arithmetic the spread of a series holds its length, its mean and the sum of the
squared distances from the mean. -/
theorem response_times_keep_moments {settings : Settings} {now : UInt64}
    {directory : Option AliasLookup} {sink : EventSink} {start : Store}
    (hcreate : create settings now directory sink = .ok start) (commands : List Command)
    {address : String} {number : UInt16}
    (unknown : (Command.runAll commands start).findForwarder? address number = none)
    (hadded : (Command.enrolForwarder address number).answer (Command.runAll commands start) =
      .ok (.forwarder h)) :
    (∀ xs : List Float, ∃ u, (Command.runAll (commands ++
        .enrolForwarder address number :: xs.map (.noteResponse h)) start).forwarders.get? h =
          some u ∧
      u.times = Spread.ofList xs) ∧
    ∀ xs : List ℚ, let s := Spread.ofList xs
      s.count = xs.length ∧ s.mean = xs.sum / xs.length ∧
      s.squares = (xs.map fun x => (x - s.mean) ^ 2).sum ∧
      0 ≤ s.squares ∧ 0 ≤ s.variance ∧
      (1 < xs.length → s.variance = (xs.map fun x => (x - s.mean) ^ 2).sum / (xs.length - 1)) ∧
      ∀ ys : List ℚ, ys.Perm xs → Spread.ofList ys = s := by
  have w : (Command.runAll commands start).forwarders.WellFormed :=
    (SlotTable.wellFormed_map Forwarder.card).1 (ready_univ hcreate commands).sound.forwarders
  refine ⟨fun xs => ?_, fun xs => ?_⟩
  · obtain ⟨u, hu, hempty⟩ := times_of_added w unknown hadded
    obtain ⟨u', hu', htimes⟩ := times_runAll hu xs
    rw [hempty] at htimes
    refine ⟨u', ?_, htimes⟩
    rw [Command.runAll_append]
    exact hu'
  · have hmoments : ∀ xs : List ℚ, Spread.ofList xs =
        ⟨xs.length, average xs, squaresAbout (average xs) xs⟩ := Spread.ofList_eq
    have hnonneg := squaresAbout_nonneg (average xs) xs
    have hvariance : (Spread.ofList xs).variance =
        squaresAbout (average xs) xs / ((xs.length - 1 : ℕ) : ℚ) := by
      rw [hmoments]
      rfl
    refine ⟨?_, ?_, ?_, ?_, ?_, fun hlength => ?_, fun ys hperm => ?_⟩
    · rw [hmoments]
    · rw [hmoments]
      rfl
    · rw [hmoments]
      rfl
    · rw [hmoments]
      exact hnonneg
    · rw [hvariance]
      exact div_nonneg hnonneg (Nat.cast_nonneg _)
    · rw [hvariance, hmoments, Nat.cast_sub hlength.le, Nat.cast_one]
      rfl
    · rw [hmoments, hmoments, average_perm hperm, squaresAbout_perm hperm, hperm.length_eq]

/-- Three response times of a forwarder that is new, in two orders. -/
theorem response_times_keep_moments_of_three_responses :
    let start := empty { buckets := 3 } 5000000 none .discard (.ending 600 3 5000000)
    let enrol := Command.enrolForwarder "192.0.2.53" 53
    create { buckets := 3 } 5000000 none .discard = .ok start ∧
      start.findForwarder? "192.0.2.53" 53 = none ∧
      enrol.answer start = .ok (.forwarder ⟨0, 0⟩) ∧
      (∃ u, (Command.runAll (enrol :: [10, 20, 60].map (.noteResponse ⟨0, 0⟩)) start).forwarders.get?
        ⟨0, 0⟩ = some u ∧ u.times = Spread.ofList [10, 20, 60]) ∧
      (Spread.ofList [10, 20, 60] : Spread ℚ).mean = 30 ∧
      (Spread.ofList [10, 20, 60] : Spread ℚ).variance = 700 ∧
      (Spread.ofList [60, 10, 20] : Spread ℚ) = Spread.ofList [10, 20, 60] := by
  intro start enrol
  have hcreate : create { buckets := 3 } 5000000 none .discard = .ok start :=
    create_of_made _ _ rfl (by decide +kernel)
  have unknown : start.findForwarder? "192.0.2.53" 53 = none := by decide +kernel
  have hadded : enrol.answer start = .ok (.forwarder ⟨0, 0⟩) := by decide +kernel
  obtain ⟨hkept, hexact⟩ := response_times_keep_moments hcreate [] unknown hadded
  obtain ⟨-, hmean, -, -, -, hvariance, horder⟩ := hexact [10, 20, 60]
  have hmean : (Spread.ofList [10, 20, 60] : Spread ℚ).mean = 30 := by
    rw [hmean]
    norm_num
  refine ⟨hcreate, unknown, hadded, hkept [10, 20, 60], hmean, ?_, horder [60, 10, 20] (by decide)⟩
  rw [hvariance (by decide), hmean]
  norm_num

end Sinkhole.Store
