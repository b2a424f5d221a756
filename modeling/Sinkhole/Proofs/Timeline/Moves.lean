import Mathlib.Algebra.Order.Ring.Nat
import Sinkhole.Timeline

namespace Sinkhole

theorem toNat_max (a b : UInt64) : (max a b).toNat = max a.toNat b.toNat := by
  show (if a ≤ b then b else a).toNat = max a.toNat b.toNat
  simp only [UInt64.le_iff_toNat_le]
  split <;> omega

instance lawfulOrderMax : Std.LawfulOrderMax UInt64 where
  max_eq_or a b := by
    show (if a ≤ b then b else a) = a ∨ (if a ≤ b then b else a) = b
    split
    · exact .inr rfl
    · exact .inl rfl
  max_le_iff a b c := by
    simp only [UInt64.le_iff_toNat_le, toNat_max]
    omega

namespace Window

def secondOf (ms : UInt64) : ℕ :=
  ms.toNat / 1000

def endSecond (w : Window) : ℕ :=
  (w.startOf (w.length - 1)).toNat + w.interval.toNat

/-- Nothing that a window is asked for stops the program. -/
structure Exact (w : Window) : Prop where
  bucketOf : ∀ ms, (w.bucketOf? ms).isSome
  shiftTo : ∀ now, (w.shiftTo? now).isSome
  slideTo : ∀ now, (w.slideTo? now).isSome

def slideAll (w : Window) (instants : List UInt64) : Window :=
  instants.foldl slideTo w

/-- The buckets start at successive multiples of the interval, and an instant counts in the bucket
that its second lies in, or in the nearest one if it lies outside the window. -/
structure DividesTime (w : Window) : Prop where
  starts : ∃ k, ∀ i < w.length, (w.startOf i).toNat = (k + i) * w.interval.toNat
  bucketOf_lt : ∀ ms, w.bucketOf ms < w.length
  within : ∀ ms, (w.startOf 0).toNat ≤ secondOf ms → secondOf ms < w.endSecond →
    (w.startOf (w.bucketOf ms)).toNat ≤ secondOf ms ∧
    secondOf ms < (w.startOf (w.bucketOf ms)).toNat + w.interval.toNat
  before : ∀ ms, secondOf ms < (w.startOf 0).toNat → w.bucketOf ms = 0
  after : ∀ ms, w.endSecond ≤ secondOf ms → w.bucketOf ms = w.length - 1
  monotone : ∀ ms ms', ms ≤ ms' → w.bucketOf ms ≤ w.bucketOf ms'

variable (w : Window)

theorem intervalOf_mono {ms ms' : UInt64} (h : ms ≤ ms') : w.intervalOf ms ≤ w.intervalOf ms' :=
  Nat.div_le_div_right (Nat.div_le_div_right (UInt64.le_iff_toNat_le.1 h))

theorem intervalOf_max (ms ms' : UInt64) :
    w.intervalOf (max ms ms') = max (w.intervalOf ms) (w.intervalOf ms') := by
  have hmono : Monotone fun n : ℕ => n / 1000 / w.interval.toNat := fun m n h =>
    Nat.div_le_div_right (Nat.div_le_div_right h)
  unfold intervalOf
  rw [toNat_max]
  exact hmono.map_max

theorem secondOf_bounds (ms : UInt64) :
    w.intervalOf ms * w.interval.toNat ≤ secondOf ms ∧
      secondOf ms < (w.intervalOf ms + 1) * w.interval.toNat := by
  refine ⟨Nat.div_mul_le_self _ _, ?_⟩
  rw [Nat.mul_comm]
  exact Nat.lt_mul_div_succ (secondOf ms) w.interval_pos

/-! ### Seconds as intervals -/

theorem toNat_startOf_eq {i : ℕ} (hi : i < w.length) :
    (w.startOf i).toNat = (w.firstInterval + i) * w.interval.toNat := by
  rw [w.toNat_startOf hi, w.first_eq, Nat.add_mul]

theorem endSecond_eq : w.endSecond = (w.lastInterval + 1) * w.interval.toNat := by
  have hlast : w.length - 1 < w.length := by
    have := w.length_pos
    omega
  rw [endSecond, w.toNat_startOf_eq hlast, Nat.succ_mul]
  rfl

theorem lt_start_iff (ms : UInt64) :
    secondOf ms < (w.startOf 0).toNat ↔ w.intervalOf ms < w.firstInterval := by
  rw [w.toNat_startOf_eq w.length_pos]
  exact (Nat.div_lt_iff_lt_mul w.interval_pos).symm

theorem lt_endSecond_iff (ms : UInt64) :
    secondOf ms < w.endSecond ↔ w.intervalOf ms ≤ w.lastInterval := by
  rw [endSecond_eq, ← Nat.lt_succ_iff]
  exact (Nat.div_lt_iff_lt_mul w.interval_pos).symm

theorem dividesTime : w.DividesTime where
  starts := ⟨w.firstInterval, fun _ hi => w.toNat_startOf_eq hi⟩
  bucketOf_lt := w.bucketOf_lt_length
  within ms hstart hend := by
    have hfirst : w.firstInterval ≤ w.intervalOf ms := by
      apply Nat.le_of_not_lt
      rw [← w.lt_start_iff]
      omega
    have hlast := (w.lt_endSecond_iff ms).1 hend
    have hbucket : w.firstInterval + w.bucketOf ms = w.intervalOf ms := by
      rw [bucketOf_eq]
      unfold lastInterval at hlast
      omega
    rw [w.toNat_startOf_eq (w.bucketOf_lt_length ms), hbucket, ← Nat.succ_mul]
    exact w.secondOf_bounds ms
  before ms h := by
    rw [lt_start_iff] at h
    rw [bucketOf_eq]
    omega
  after ms h := by
    have hpast : w.lastInterval < w.intervalOf ms := by
      apply Nat.lt_of_not_le
      rw [← w.lt_endSecond_iff]
      omega
    rw [bucketOf_eq]
    unfold lastInterval at hpast
    omega
  monotone ms ms' h := by
    have hle := w.intervalOf_mono h
    rw [bucketOf_eq, bucketOf_eq]
    omega

theorem exact : w.Exact where
  bucketOf ms := by
    rw [bucketOf?_eq]
    rfl
  shiftTo now := by
    rw [shiftTo?_eq]
    rfl
  slideTo := w.isSome_slideTo?

/-! ### One move -/

@[simp] theorem intervalOf_slideTo (now ms : UInt64) :
    (w.slideTo now).intervalOf ms = w.intervalOf ms := by
  unfold intervalOf
  rw [interval_slideTo]

theorem lastInterval_slideTo (now : UInt64) :
    (w.slideTo now).lastInterval = max w.lastInterval (w.intervalOf now) := by
  have hlast : (w.slideTo now).lastInterval = w.lastInterval + w.shiftTo now := by
    simp only [lastInterval, firstInterval_slideTo, length_slideTo]
    omega
  rw [hlast, shiftTo_eq]
  omega

/-- An instant of the window counts as many buckets earlier as the window was moved. -/
theorem bucketOf_slideTo (now ms : UInt64) (hms : w.intervalOf ms ≤ w.lastInterval) :
    (w.slideTo now).bucketOf ms = w.bucketOf ms - w.shiftTo now := by
  simp only [bucketOf_eq, firstInterval_slideTo, intervalOf_slideTo, length_slideTo]
  -- Within the window the clip at the last bucket does nothing, before the move and after it.
  rw [lastInterval] at hms
  omega

/-- A move for one instant and then for another goes as far as a move for the later one. -/
theorem shiftTo_add (t t' : UInt64) :
    w.shiftTo t + (w.slideTo t).shiftTo t' = w.shiftTo (max t t') := by
  simp only [shiftTo_eq, lastInterval_slideTo, intervalOf_slideTo, intervalOf_max]
  omega

theorem shiftTo_zero : w.shiftTo 0 = 0 := by
  have hzero : w.intervalOf 0 = 0 := by
    simp only [intervalOf, UInt64.toNat_zero, Nat.zero_div]
  rw [shiftTo_eq, hzero, Nat.zero_sub]

theorem slideTo_slideTo (t t' : UInt64) : (w.slideTo t).slideTo t' = w.slideTo (max t t') := by
  apply eq_of_lastInterval_eq
  · simp only [interval_slideTo]
  · simp only [length_slideTo]
  · simp only [lastInterval_slideTo, intervalOf_slideTo, intervalOf_max]
    omega

theorem first_le_slideTo (now : UInt64) : w.first ≤ (w.slideTo now).first := by
  rw [UInt64.le_iff_toNat_le, first_eq, first_eq, interval_slideTo, firstInterval_slideTo]
  exact Nat.mul_le_mul_right _ (Nat.le_add_right _ _)

/-- If the window has to move, the instant lies in its last bucket then. -/
theorem bucketOf_newest {now : UInt64} (hmove : 0 < w.shiftTo now) :
    (w.slideTo now).bucketOf now = w.length - 1 ∧
      ((w.slideTo now).startOf (w.length - 1)).toNat ≤ secondOf now ∧
      secondOf now < (w.slideTo now).endSecond := by
  have hlast : (w.slideTo now).lastInterval = w.intervalOf now := by
    rw [shiftTo_eq] at hmove
    rw [lastInterval_slideTo]
    omega
  -- The instant keeps its interval, which is now the last one of the window.
  have hinterval := w.intervalOf_slideTo now now
  have hlength := w.length_slideTo now
  have hend := ((w.slideTo now).lt_endSecond_iff now).2 (by omega)
  have hbucket : (w.slideTo now).bucketOf now = w.length - 1 := by
    rw [bucketOf_eq, hinterval, ← hlast, lastInterval, hlength]
    omega
  have hstart : ((w.slideTo now).startOf 0).toNat ≤ secondOf now := by
    apply Nat.le_of_not_lt
    rw [lt_start_iff, hinterval, ← hlast, lastInterval]
    omega
  have hwithin := ((w.slideTo now).dividesTime.within now hstart hend).1
  rw [hbucket] at hwithin
  exact ⟨hbucket, hwithin, hend⟩

/-! ### Moves one after the other -/

theorem slideAll_append (instants instants' : List UInt64) :
    w.slideAll (instants ++ instants') = (w.slideAll instants).slideAll instants' :=
  List.foldl_append

theorem first_le_slideAll (instants : List UInt64) : w.first ≤ (w.slideAll instants).first := by
  induction instants generalizing w with
  | nil => exact UInt64.le_refl _
  | cons now instants ih => exact UInt64.le_trans (w.first_le_slideTo now) (ih _)

theorem shape_slideAll (instants : List UInt64) :
    (w.slideAll instants).interval = w.interval ∧ (w.slideAll instants).length = w.length := by
  induction instants generalizing w with
  | nil => exact ⟨rfl, rfl⟩
  | cons now instants ih =>
    obtain ⟨hinterval, hlength⟩ := ih (w.slideTo now)
    exact ⟨hinterval.trans (w.interval_slideTo now), hlength.trans (w.length_slideTo now)⟩

section
variable {interval : UInt64} {length : ℕ} (hinterval : interval ≠ 0) (hlength : 0 < length)
include hinterval hlength

theorem toNat_startOf_of_ending? {t : UInt64} {w : Window}
    (made : ending? interval length t = some w) {i : ℕ} (hi : i < length) :
    (w.startOf i).toNat =
      (t.toNat / 1000 / interval.toNat - (length - 1) + i) * interval.toNat := by
  obtain ⟨hwidth, hsize, hlast⟩ := ending?_eq_some hinterval hlength made
  have hfirst : w.firstInterval = t.toNat / 1000 / interval.toNat - (length - 1) := by
    rw [lastInterval, hsize] at hlast
    omega
  rw [w.toNat_startOf_eq (hsize ▸ hi), hfirst, hwidth]

/-- A window that was made for one instant and moved for another is the one made for the later. -/
theorem slideTo_of_ending? {t : UInt64} {w : Window} (made : ending? interval length t = some w)
    (t' : UInt64) : ending? interval length (max t t') = some (w.slideTo t') := by
  obtain ⟨hwidth, hsize, hlast⟩ := ending?_eq_some hinterval hlength made
  have hfits := (isSome_ending?_iff hinterval hlength t).1 (Option.isSome_of_eq_some made)
  obtain ⟨w', hw'⟩ := Option.isSome_iff_exists.1
    ((isSome_ending?_iff hinterval hlength (max t t')).2 hfits)
  obtain ⟨hwidth', hsize', hlast'⟩ := ending?_eq_some hinterval hlength hw'
  have hmax := w.intervalOf_max t t'
  unfold intervalOf at hmax
  rw [hwidth] at hmax
  refine hw'.trans (congrArg some (eq_of_lastInterval_eq ?_ ?_ ?_))
  · rw [hwidth', interval_slideTo, hwidth]
  · rw [hsize', length_slideTo, hsize]
  · rw [hlast', lastInterval_slideTo, hlast, hmax, intervalOf, hwidth]
    omega

theorem slideAll_of_ending? {t : UInt64} {w : Window} (made : ending? interval length t = some w)
    (instants : List UInt64) :
    ending? interval length (instants.foldl max t) = some (w.slideAll instants) := by
  induction instants generalizing t w with
  | nil => exact made
  | cons t' instants ih => exact ih (slideTo_of_ending? hinterval hlength made t')

end

end Window

end Sinkhole
