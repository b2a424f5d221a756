import Mathlib.Algebra.Order.BigOperators.Group.List
import Mathlib.Algebra.Order.Field.Rat
import Mathlib.Data.List.Induction
import Mathlib.Tactic.FieldSimp
import Mathlib.Tactic.Ring
import Sinkhole.Record

namespace Sinkhole

namespace Series

section
variable {K : Type} [Field K]

def average (xs : List K) : K :=
  xs.sum / xs.length

/-- The sum of the squared distances from a point. -/
def squaresAbout (c : K) (xs : List K) : K :=
  (xs.map fun x => (x - c) ^ 2).sum

theorem squaresAbout_eq (c : K) (xs : List K) :
    squaresAbout c xs = squaresAbout 0 xs - 2 * c * xs.sum + xs.length * c ^ 2 := by
  induction xs with
  | nil => simp [squaresAbout]
  | cons x xs ih =>
    simp only [squaresAbout, List.map_cons, List.sum_cons, List.length_cons, Nat.cast_add,
      Nat.cast_one] at ih ⊢
    rw [ih]
    ring

theorem squaresAbout_append (c : K) (xs : List K) (x : K) :
    squaresAbout c (xs ++ [x]) = squaresAbout c xs + (x - c) ^ 2 := by
  simp [squaresAbout]

theorem squaresAbout_nonneg [LinearOrder K] [IsStrictOrderedRing K] (c : K) (xs : List K) :
    0 ≤ squaresAbout c xs := by
  refine List.sum_nonneg fun y hy => ?_
  obtain ⟨x, -, rfl⟩ := List.mem_map.1 hy
  exact sq_nonneg _

variable {xs ys : List K} (hperm : ys.Perm xs)
include hperm

theorem average_perm : average ys = average xs := by
  rw [average, average, hperm.sum_eq, hperm.length_eq]

theorem squaresAbout_perm (c : K) : squaresAbout c ys = squaresAbout c xs :=
  (hperm.map _).sum_eq

end

section
variable {K : Type} [Field K] [CharZero K] (xs : List K) (x : K)

theorem length_mul_average : xs.length * average xs = xs.sum := by
  cases xs with
  | nil => simp
  | cons x xs =>
    have hne : ((x :: xs).length : K) ≠ 0 := Nat.cast_ne_zero.2 (Nat.succ_ne_zero _)
    exact mul_div_cancel₀ _ hne

theorem average_append :
    average (xs ++ [x]) = average xs + (x - average xs) / ((xs.length + 1 : ℕ) : K) := by
  have hne : ((xs.length + 1 : ℕ) : K) ≠ 0 := Nat.cast_ne_zero.2 (Nat.succ_ne_zero _)
  have hold := length_mul_average xs
  have hnew := length_mul_average (xs ++ [x])
  simp only [List.length_append, List.length_singleton, List.sum_append, List.sum_singleton] at hnew
  refine mul_left_cancel₀ hne ?_
  rw [hnew, ← hold, mul_add, mul_div_cancel₀ _ hne, Nat.cast_add, Nat.cast_one]
  ring

/-- About another point than the average the sum is larger by what that is away from it. -/
theorem squaresAbout_eq_of_average (c : K) :
    squaresAbout c xs = squaresAbout (average xs) xs + xs.length * (average xs - c) ^ 2 := by
  rw [squaresAbout_eq c, squaresAbout_eq (average xs), ← length_mul_average xs]
  ring

/-- The distance of the new value is taken from the old average once and from the new one once,
which makes up for what the average moved away from the earlier values. -/
theorem squaresAbout_average_append :
    squaresAbout (average (xs ++ [x])) (xs ++ [x]) =
      squaresAbout (average xs) xs + (x - average xs) * (x - average (xs ++ [x])) := by
  have hne : (xs.length : K) + 1 ≠ 0 := Nat.cast_add_one_ne_zero _
  rw [squaresAbout_append, squaresAbout_eq_of_average, average_append, Nat.cast_add, Nat.cast_one]
  field_simp
  ring

end

end Series

namespace Spread

open Series

theorem ofList_append {K : Type} [Field K] (xs : List K) (x : K) :
    ofList (xs ++ [x]) = (ofList xs).add x := by
  rw [ofList, ofList, List.foldl_append, List.foldl_cons, List.foldl_nil]

theorem ofList_eq {K : Type} [Field K] [CharZero K] (xs : List K) :
    ofList xs = ⟨xs.length, average xs, squaresAbout (average xs) xs⟩ := by
  induction xs using List.reverseRecOn with
  | nil => simp [ofList, empty, average, squaresAbout]
  | append_singleton xs x ih =>
    rw [ofList_append, ih, squaresAbout_average_append, average_append, List.length_append,
      List.length_singleton]
    rfl

end Spread

end Sinkhole
