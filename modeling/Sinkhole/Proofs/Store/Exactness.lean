import Sinkhole.Proofs.Store.Moves

namespace Sinkhole.Store

/-- Settings that are in order make the program stop exactly if the span of the history is no word.
Otherwise a store is made, and no later step stops: whatever its history is moved for, each bucket
starts where its number says, counted back from the latest instant. -/
theorem history_exact_iff_span_fits {settings : Settings} (hcheck : settings.check = .ok settings)
    (now : UInt64) (directory : Option AliasLookup) (sink : EventSink) :
    let interval := settings.bucketSeconds.toNat
    let span := (settings.buckets - 1) * interval
    (create settings now directory sink = .error .overflow ↔ 2 ^ 64 ≤ span) ∧
    (span < 2 ^ 64 → ∃ start, create settings now directory sink = .ok start ∧
      ∀ commands, let w := (Command.runAll commands start).ledger.window
        let latest := (Command.instants commands start).foldl max now
        w.Exact ∧ w.length = settings.buckets ∧
        ∀ i < settings.buckets, (w.startOf i).toNat =
          (latest.toNat / 1000 / interval - (settings.buckets - 1) + i) * interval) := by
  intro interval span
  obtain ⟨-, hseconds, hbuckets⟩ := buckets_of_check hcheck
  have hmade : (Window.ending? settings.bucketSeconds settings.buckets now).isSome ↔
      span < 2 ^ 64 := Window.isSome_ending?_iff hseconds hbuckets now
  constructor
  · cases hwindow : Window.ending? settings.bucketSeconds settings.buckets now with
    | none =>
      rw [hwindow] at hmade
      have hlong : 2 ^ 64 ≤ span := Nat.le_of_not_lt fun h => absurd (hmade.2 h) (by simp)
      exact iff_of_true (create_of_none _ _ hcheck hwindow) hlong
    | some window =>
      rw [hwindow] at hmade
      have hshort : ¬ 2 ^ 64 ≤ span := Nat.not_le_of_lt (hmade.1 rfl)
      rw [create_of_window _ _ hcheck hwindow]
      exact iff_of_false nofun hshort
  · intro hfits
    obtain ⟨window, hwindow⟩ := Option.isSome_iff_exists.1 (hmade.2 hfits)
    refine ⟨_, create_of_window _ _ hcheck hwindow, fun commands => ?_⟩
    intro w latest
    -- Moving the window comes to making it for the latest instant.
    have hlatest : Window.ending? settings.bucketSeconds settings.buckets latest = some w := by
      have hrun := window_runAll (wellFormed_empty settings now directory sink window) commands
      show _ = some (Command.runAll commands _).ledger.window
      rw [hrun]
      exact Window.slideAll_of_ending? hseconds hbuckets hwindow _
    exact ⟨w.exact, (Window.ending?_eq_some hseconds hbuckets hlatest).2.1,
      fun i hi => Window.toNat_startOf_of_ending? hseconds hbuckets hlatest hi⟩

/-- The widest three buckets of all: the last one starts one second before the last word. -/
theorem history_exact_iff_span_fits_of_widest_buckets :
    let settings : Settings := { bucketSeconds := 9223372036854775807, buckets := 3 }
    settings.check = .ok settings ∧ ∃ start, create settings 5000000 none .discard = .ok start ∧
      ∀ commands, (Command.runAll commands start).ledger.window.Exact ∧
        ((Command.runAll commands start).ledger.window.startOf 2).toNat = 18446744073709551614 := by
  intro settings
  have hcheck : settings.check = .ok settings := rfl
  obtain ⟨-, hmade⟩ := history_exact_iff_span_fits hcheck 5000000 none .discard
  obtain ⟨start, hcreate, hruns⟩ := hmade (by decide)
  refine ⟨hcheck, start, hcreate, fun commands => ?_⟩
  obtain ⟨hexact, -, hstarts⟩ := hruns commands
  refine ⟨hexact, (hstarts 2 (by decide)).trans ?_⟩
  have hwidth : settings.bucketSeconds.toNat = 9223372036854775807 := rfl
  -- No instant comes late enough to leave the first two intervals.
  have hearly : ∀ t : UInt64,
      t.toNat / 1000 / settings.bucketSeconds.toNat - (settings.buckets - 1) = 0 := by
    intro t
    have hlt := t.toNat_lt
    rw [hwidth]
    omega
  rw [hearly, hwidth]

/-- Settings in order with one second more to a bucket: the span is too long for a word. -/
theorem create_stops_with_long_span :
    let settings : Settings := { bucketSeconds := 9223372036854775808, buckets := 3 }
    settings.check = .ok settings ∧
      create settings 5000000 none .discard = .error .overflow := by
  intro settings
  have hcheck : settings.check = .ok settings := rfl
  have hnone : Window.ending? settings.bucketSeconds settings.buckets 5000000 = none := by
    decide +kernel
  exact ⟨hcheck, create_of_none _ _ hcheck hnone⟩

end Sinkhole.Store
