import Sinkhole.Proofs.Ledger.Moves
import Sinkhole.Proofs.Store.AliasSums

namespace Sinkhole

open scoped Words

theorem SlotTable.mapLive_mapLive {K : Kind} {α : Type} (t : SlotTable K α) (f g : α → α) :
    (t.mapLive f).mapLive g = t.mapLive fun a => g (f a) := by
  simp [mapLive, Function.comp_def]

theorem Client.foldHistory_foldHistory (m n : ℕ) (c : Client) :
    (c.foldHistory m).foldHistory n = c.foldHistory (m + n) := by
  simp only [foldHistory, Row.fold_fold]

namespace Command

/-- The instant that a command moves the history for. A query that is refused moves nothing. -/
def instant? (c : Command) (s : Store) : Option UInt64 :=
  match c, c.answer s with
  | slideTo now, _ => some now
  | recordQuery new, .ok _ => some (new.time.getD s.now)
  | _, _ => none

def instants : List Command → Store → List UInt64
  | [], _ => []
  | c :: cs, s => (c.instant? s).toList ++ instants cs (c.apply s)

end Command

namespace Store

open Attempt StoreM

variable {s s' : Store}

theorem slid_slid (s : Store) (t t' : UInt64) : (s.slid t).slid t' = s.slid (max t t') := by
  have hfold : ∀ m n, (fun c : Client => (c.foldHistory m).foldHistory n) =
      Client.foldHistory (m + n) := fun m n => funext (Client.foldHistory_foldHistory m n)
  simp only [slid, Ledger.slideTo_slideTo, Ledger.window_slideTo, SlotTable.mapLive_mapLive, hfold,
    Window.shiftTo_add]

theorem window_slid (s : Store) (now : UInt64) :
    (s.slid now).ledger.window = s.ledger.window.slideTo now :=
  Ledger.window_slideTo _ _

theorem window_arrivalBooked (s : Store) (q : Query) (newDomain newClient : Bool) :
    (s.arrivalBooked q newDomain newClient).ledger.window = (s.slid q.time).ledger.window := rfl

theorem window_reclassified (s : Store) (query : Handle .query) (q : Query) (new : Status)
    (old : Option Status) :
    (s.reclassified query q new old).ledger.window = s.ledger.window := by
  rw [reclassified, blockedShifted, window_reclassify]

theorem window_of_effect {c : Command} {m : Option Mark} (e : Effect s c m s')
    (hslide : ∀ now, c ≠ .slideTo now) (hrecord : ∀ new, c ≠ .recordQuery new) :
    s'.ledger.window = s.ledger.window := by
  cases e with
  | quiet q => exact q.window_eq
  | slid now => exact absurd rfl (hslide now)
  | @recorded new => exact absurd rfl (hrecord new)
  | domainCounted known before => exact before.window_eq
  | clientAdded added =>
    obtain ⟨before, -, -, -, after⟩ := added
    exact after.window_eq.trans before.window_eq
  | reclassified => exact window_reclassified _ _ _ _ _
  | clientCounted | replied | adjusted | queryRemoved | domainRemoved | clientRemoved => rfl

theorem window_recordQuery (w : s.WellFormed) (new : Arrival) :
    Ensures (recordQuery new) s (fun _ s' => s'.ledger.window = s.ledger.window) fun _ s' =>
      s'.ledger.window = s.ledger.window.slideTo (new.time.getD s.now) := by
  refine (ensures_recordQuery_iff new).2 ?_
  split
  · refine (quietly_clientFor w new.client).mono (fun _ _ q => q.window_eq) ?_
    rintro ⟨client, newClient⟩ s₁ ⟨q₁, -⟩
    refine (quietly_domainFor (q₁.wellFormed w) new.domain).mono
      (fun _ _ q => (q₁.trans q).window_eq) ?_
    rintro ⟨domain, newDomain⟩ s₂ ⟨q₂, -⟩
    -- Adding the client and the domain moves nothing.
    have hwindow := (q₁.trans q₂).window_eq
    intro q
    split
    · rename_i h queries put
      have htime : q.time = new.time.getD s.now := rfl
      have hrecord : queries.get? h = some q :=
        (SlotTable.placed_of_push (q₂.wellFormed (q₁.wellFormed w)).queries put).get?_self
      rw [store_reclassify_of_some _ hrecord, if_neg (by simp), if_pos rfl, window_reclassified,
        window_arrivalBooked, window_slid, hwindow, htime]
    · exact hwindow
  · rfl

theorem window_apply (w : s.WellFormed) (c : Command) :
    (c.apply s).ledger.window = s.ledger.window.slideAll (c.instant? s).toList := by
  -- Only two commands can move the window.
  by_cases hslide : ∃ now, c = .slideTo now
  · obtain ⟨now, rfl⟩ := hslide
    rw [apply_eq (f := .number) rfl, store_slideTo, window_slid]
    rfl
  by_cases hrecord : ∃ new, c = .recordQuery new
  · obtain ⟨new, rfl⟩ := hrecord
    have hensures : Ensures (Command.recordQuery new).perform s
        (fun _ s' => s'.ledger.window = s.ledger.window)
        fun _ s' => s'.ledger.window = s.ledger.window.slideAll [new.time.getD s.now] :=
      (ensures_map Answer.query (recordQuery new)).2 (window_recordQuery w new)
    cases hanswer : (Command.recordQuery new).answer s with
    | ok a =>
      simp only [Command.instant?, hanswer]
      exact hensures.of_ok hanswer
    | error fault =>
      simp only [Command.instant?, hanswer]
      exact hensures.of_error hanswer
  · have hnone : c.instant? s = none := by
      cases c with
      | slideTo now => exact absurd ⟨now, rfl⟩ hslide
      | recordQuery new => exact absurd ⟨new, rfl⟩ hrecord
      | _ => rfl
    rw [hnone]
    exact window_of_effect (effect w c) (fun now h => hslide ⟨now, h⟩) fun new h => hrecord ⟨new, h⟩

theorem window_runAll (w : s.WellFormed) (cs : List Command) :
    (Command.runAll cs s).ledger.window = s.ledger.window.slideAll (Command.instants cs s) := by
  induction cs generalizing s with
  | nil => rfl
  | cons c cs ih =>
    have hrest := ih ((effect w c).wellFormed w)
    rw [window_apply w c] at hrest
    rw [Command.instants, Window.slideAll_append]
    exact hrest

theorem run_slideTo (now : UInt64) (s : Store) :
    (Command.slideTo now).answer s = .ok (.number (s.ledger.window.shiftTo now)) ∧
      (Command.slideTo now).apply s = s.slid now := by
  have hvalue : ((slideTo now).run s).value = s.ledger.window.shiftTo now := by
    simp only [slideTo, run_bind, StoreM.run_get]
    split <;> rfl
  rw [apply_eq (f := .number) rfl, store_slideTo]
  exact ⟨by simp [Command.answer, Command.perform, hvalue], rfl⟩

/-- Where the history of a store stands does not depend on how it got there: moving it for two
instants comes to moving it for the later one, also in what is answered. After any run its window is
the one that is made for the latest instant of all, and it never moves back. -/
theorem history_ends_with_latest_instant {settings : Settings} {now : UInt64}
    {directory : Option AliasLookup} {sink : EventSink} {start : Store}
    (hcreate : create settings now directory sink = .ok start)
    (commands : List Command) :
    let s := Command.runAll commands start
    (∀ t t', Command.runAll [.slideTo t, .slideTo t'] s = Command.runAll [.slideTo (max t t')] s ∧
      ∃ m n, (Command.slideTo t).answer s = .ok (.number m) ∧
        (Command.slideTo t').answer ((Command.slideTo t).apply s) = .ok (.number n) ∧
        (Command.slideTo (max t t')).answer s = .ok (.number (m + n))) ∧
    (∃ latest ∈ now :: Command.instants commands start,
      (∀ t ∈ now :: Command.instants commands start, t ≤ latest) ∧
      Window.ending? settings.bucketSeconds settings.buckets latest = some s.ledger.window) ∧
    ∀ more, s.ledger.window.first ≤ (Command.runAll more s).ledger.window.first := by
  intro s
  obtain ⟨window, hmade, rfl, hseconds, hbuckets⟩ := create_eq_ok hcreate
  let start := empty settings now directory sink window
  have w : start.WellFormed := wellFormed_empty settings now directory sink window
  have hwindow : s.ledger.window = window.slideAll (Command.instants commands start) :=
    window_runAll w commands
  refine ⟨fun t t' => ⟨?_, ?_⟩, ?_, fun more => ?_⟩
  · -- Both runs come to one move, so the stores are equal and not only their windows.
    have hslid : (s.slid t).slid t' = s.slid (max t t') := slid_slid s t t'
    rw [← (run_slideTo t s).2, ← (run_slideTo t' _).2, ← (run_slideTo (max t t') s).2] at hslid
    exact hslid
  · refine ⟨_, _, (run_slideTo t s).1, (run_slideTo t' _).1, ?_⟩
    rw [(run_slideTo t s).2, window_slid, Window.shiftTo_add]
    exact (run_slideTo (max t t') s).1
  · have hmax : (now :: Command.instants commands start).max? = _ := List.max?_cons'
    obtain ⟨hmem, hle⟩ := List.max?_eq_some_iff.1 hmax
    refine ⟨_, hmem, hle, ?_⟩
    rw [hwindow, Window.slideAll_of_ending? hseconds hbuckets hmade]
  · rw [window_runAll (Command.wellFormed_runAll commands w) more]
    exact Window.first_le_slideAll _ _

/-- The second move goes back, and so does the query, which is older than the whole history. -/
theorem history_ends_with_latest_instant_of_late_query :
    let settings : Settings := { buckets := 3 }
    let start := empty settings 5000000 none .discard (.ending 600 3 5000000)
    let commands : List Command :=
      [.slideTo 9000000, .slideTo 100, .recordQuery
        { id := 1, domain := "a.test", client := "10.0.0.1", wire := 1, time := some 3000 }]
    create settings 5000000 none .discard = .ok start ∧
      Window.ending? 600 3 9000000 = some (Command.runAll commands start).ledger.window := by
  intro settings start commands
  have hcreate : create settings 5000000 none .discard = .ok start :=
    create_of_made _ _ rfl (by decide +kernel)
  have hinstants : 5000000 :: Command.instants commands start = [5000000, 9000000, 100, 3000] := by
    decide +kernel
  obtain ⟨-, ⟨latest, hmem, hle, hwindow⟩, -⟩ := history_ends_with_latest_instant hcreate commands
  rw [hinstants] at hmem hle
  have hlatest : latest = 9000000 := by
    have hupper := hle 9000000 (by simp)
    simp only [List.mem_cons, List.not_mem_nil, or_false] at hmem
    rcases hmem with rfl | rfl | rfl | rfl
    · exact absurd hupper (by decide)
    · rfl
    · exact absurd hupper (by decide)
    · exact absurd hupper (by decide)
  rw [hlatest] at hwindow
  exact ⟨hcreate, hwindow⟩

end Store

end Sinkhole
