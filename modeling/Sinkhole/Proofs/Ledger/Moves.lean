import Sinkhole.Proofs.Ledger.Recount
import Sinkhole.Proofs.Timeline.Moves

namespace Sinkhole

open scoped Words

attribute [ext] Bucket

namespace Words

scoped instance bucketAddCommMonoid : AddCommMonoid Bucket where
  add_assoc a b c := Bucket.ext (add_assoc _ _ _) (add_assoc _ _ _) (add_assoc _ _ _)
    (add_assoc _ _ _)
  zero_add a := Bucket.ext (zero_add _) (zero_add _) (zero_add _) (zero_add _)
  add_zero a := Bucket.ext (add_zero _) (add_zero _) (add_zero _) (add_zero _)
  add_comm a b := Bucket.ext (add_comm _ _) (add_comm _ _) (add_comm _ _) (add_comm _ _)
  nsmul := nsmulRec

end Words

namespace Bucket

def columns : List (Bucket → Int64) :=
  [total, blocked, cached, forwarded]

theorem column_zero_add {f : Bucket → Int64} (hf : f ∈ columns) :
    f 0 = 0 ∧ ∀ x y : Bucket, f (x + y) = f x + f y := by
  simp only [columns, List.mem_cons, List.not_mem_nil, or_false] at hf
  rcases hf with rfl | rfl | rfl | rfl <;> exact ⟨rfl, fun _ _ => rfl⟩

end Bucket

namespace Ledger

theorem slideTo_eq (l : Ledger) (now : UInt64) : l.slideTo now =
    { l with
      window := l.window.slideTo now
      buckets := Row.fold (l.window.shiftTo now) l.buckets
      length_buckets := by simp [Row.length_fold, l.length_buckets] } := by
  unfold slideTo
  dsimp only
  split
  · -- Folding by nothing changes nothing, so a move needs no case of its own for that.
    rename_i hshift
    simp only [hshift, Row.fold_zero, Window.slideTo_of_shiftTo_eq_zero _ hshift]
  · rfl

theorem slideTo_slideTo (l : Ledger) (t t' : UInt64) :
    (l.slideTo t).slideTo t' = l.slideTo (max t t') := by
  simp only [slideTo_eq, Window.slideTo_slideTo, Row.fold_fold, Window.shiftTo_add]

/-- A move of the window for an instant: each earlier instant counts as many buckets earlier as the
window moved, the sums over the buckets stay, also as integers where the first bucket does not wrap
round, and if there was a move at all, its instant lies in the last bucket. -/
structure MovesFor (l : Ledger) (now : UInt64) (l' : Ledger) : Prop where
  bucketOf_eq : ∀ ms, Window.secondOf ms < l.window.endSecond →
    l'.window.bucketOf ms = l.window.bucketOf ms - l.window.shiftTo now
  sum_eq : ∀ f ∈ Bucket.columns, (l'.buckets.map f).sum = (l.buckets.map f).sum
  sum_toInt_eq : ∀ f ∈ Bucket.columns,
    -2 ^ 63 ≤ ((Row.gathered (l.window.shiftTo now) (l.buckets.map f)).map (·.toInt)).sum →
    ((Row.gathered (l.window.shiftTo now) (l.buckets.map f)).map (·.toInt)).sum < 2 ^ 63 →
    ((l'.buckets.map f).map (·.toInt)).sum = ((l.buckets.map f).map (·.toInt)).sum
  newest : 0 < l.window.shiftTo now → l'.window.bucketOf now = l'.window.length - 1 ∧
    (l'.window.startOf (l'.window.length - 1)).toNat ≤ Window.secondOf now ∧
    Window.secondOf now < l'.window.endSecond

theorem movesFor_slideTo (l : Ledger) (now : UInt64) : l.MovesFor now (l.slideTo now) where
  bucketOf_eq ms hms := by
    rw [window_slideTo]
    exact l.window.bucketOf_slideTo now ms ((l.window.lt_endSecond_iff ms).1 hms)
  sum_eq f hf := by
    obtain ⟨hzero, hadd⟩ := Bucket.column_zero_add hf
    rw [map_buckets_slideTo l now hzero hadd, Row.sum_fold]
  sum_toInt_eq f hf hlow hhigh := by
    obtain ⟨hzero, hadd⟩ := Bucket.column_zero_add hf
    rw [map_buckets_slideTo l now hzero hadd]
    exact Row.sum_toInt_fold hlow hhigh
  newest hmove := by
    rw [window_slideTo, Window.length_slideTo]
    exact l.window.bucketOf_newest hmove

theorem map_history (l : Ledger) :
    l.history.map (·.1) = (List.range l.window.length).map l.window.startOf := by
  have hlength : l.window.starts.length = l.buckets.length := l.length_buckets.symm
  have hstarts : l.history.map (·.1) = l.window.starts := List.map_fst_zip (Nat.le_of_eq hlength)
  rw [hstarts]
  apply List.ext_getElem
  · simp only [List.length_map, List.length_range]
    rfl
  · intro i hi _
    rw [List.getElem_map, List.getElem_range, Window.startOf, List.getD_eq_getElem?_getD,
      List.getElem?_eq_getElem hi, Option.getD_some]

/-- A window is made for every instant if its span fits into a word. Moved for others, it divides
the seconds into successive buckets, and each further move takes the counts of the buckets along
with the instants. -/
theorem buckets_keep_time {interval : UInt64} {length : ℕ} (hinterval : interval ≠ 0)
    (hlength : 0 < length) (hspan : (length - 1) * interval.toNat < 2 ^ 64) (now : UInt64) :
    ∃ made, Window.ending? interval length now = some made ∧
      ∀ (instants : List UInt64) (l : Ledger), l.window = made.slideAll instants →
        l.window.interval = interval ∧ l.window.length = length ∧
        l.history.map (·.1) = (List.range length).map l.window.startOf ∧ l.window.DividesTime ∧
        ∀ later, l.MovesFor later (l.slideTo later) := by
  obtain ⟨made, hmade⟩ :=
    Option.isSome_iff_exists.1 ((Window.isSome_ending?_iff hinterval hlength now).2 hspan)
  obtain ⟨hwidth, hsize, -⟩ := Window.ending?_eq_some hinterval hlength hmade
  refine ⟨made, hmade, fun instants l hwindow => ?_⟩
  have hshape := made.shape_slideAll instants
  rw [← hwindow, hwidth, hsize] at hshape
  have hhistory := l.map_history
  rw [hshape.2] at hhistory
  exact ⟨hshape.1, hshape.2, hhistory, l.window.dividesTime, l.movesFor_slideTo⟩

/-- Ten-second buckets that end with second 25 and move on to second 47: what the first two buckets
counted is in the first one then. -/
theorem buckets_keep_time_of_two_moves :
    let window : Window := .ending 10 3 12000
    let l := (((Ledger.empty (window.slideAll [25000, 3000])).addTotal 0 4).addTotal 1 2).addTotal 2 1
    (10 : UInt64) ≠ 0 ∧ (3 - 1) * (10 : UInt64).toNat < 2 ^ 64 ∧
      l.window.shiftTo 47000 = 2 ∧ l.window.bucketOf 14999 = 1 ∧
      (l.slideTo 47000).window.bucketOf 14999 = 0 ∧ (l.slideTo 47000).window.bucketOf 47000 = 2 ∧
      ((l.slideTo 47000).buckets.map Bucket.total).sum = 7 := by
  intro window l
  have hinterval : (10 : UInt64) ≠ 0 := by decide
  have hspan : (3 - 1) * (10 : UInt64).toNat < 2 ^ 64 := by decide
  obtain ⟨made, hmade, hmoved⟩ := buckets_keep_time hinterval (by decide) hspan 12000
  have hwindow : Window.ending? 10 3 12000 = some window :=
    Window.ending?_eq_ending (by decide +kernel)
  obtain rfl : made = window := Option.some_inj.1 (hmade.symm.trans hwindow)
  obtain ⟨-, -, -, -, hmoves⟩ := hmoved [25000, 3000] l rfl
  have hshift : l.window.shiftTo 47000 = 2 := by decide +kernel
  have hbucket : l.window.bucketOf 14999 = 1 := by decide +kernel
  have hend : Window.secondOf 14999 < l.window.endSecond := by decide +kernel
  have m := hmoves 47000
  have hearlier := m.bucketOf_eq 14999 hend
  rw [hshift, hbucket] at hearlier
  have htotal : (l.buckets.map Bucket.total).sum = 7 := by decide +kernel
  have hsum := (m.sum_eq Bucket.total (by simp [Bucket.columns])).trans htotal
  have hlength : (l.slideTo 47000).window.length = 3 := by decide +kernel
  have hnewest := (m.newest (by rw [hshift]; decide)).1
  rw [hlength] at hnewest
  exact ⟨hinterval, hspan, hshift, hbucket, hearlier, hnewest, hsum⟩

end Ledger

end Sinkhole
