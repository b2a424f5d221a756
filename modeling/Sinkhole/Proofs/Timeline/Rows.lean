import Mathlib.Algebra.BigOperators.Fin
import Mathlib.Algebra.Group.Pi.Lemmas
import Sinkhole.Proofs.Number.Census
import Sinkhole.Timeline

namespace Sinkhole.Row

open Finset
open scoped Words

variable {M : Type} [AddCommMonoid M]

/-- What folding by `dropped` places does to the entries, all of them at once. -/
def foldMap (dropped : ℕ) : (ℕ → M) →+ (ℕ → M) where
  toFun entry := fun b => if b = 0 then ∑ i ∈ range (dropped + 1), entry i else entry (b + dropped)
  map_zero' := by
    funext b
    simp
  map_add' entry entry' := by
    funext b
    by_cases hb : b = 0 <;> simp [hb, sum_add_distrib]

theorem foldMap_apply (dropped : ℕ) (entry : ℕ → M) (b : ℕ) :
    foldMap dropped entry b =
      if b = 0 then ∑ i ∈ range (dropped + 1), entry i else entry (b + dropped) := rfl

theorem foldMap_comp {N : Type} [AddCommMonoid N] (f : M →+ N) (dropped : ℕ) (entry : ℕ → M)
    (b : ℕ) : foldMap dropped (fun b => f (entry b)) b = f (foldMap dropped entry b) := by
  simp only [foldMap_apply]
  split
  · rw [map_sum]
  · rfl

theorem sum_take (row : List M) (n : ℕ) : (row.take n).sum = ∑ i ∈ range n, row.getD i 0 := by
  induction n with
  | zero => simp
  | succ n ih =>
    rw [sum_range_succ, ← ih, List.take_add_one, List.sum_append, List.getD_eq_getElem?_getD]
    cases row[n]? <;> simp

theorem sum_map {N : Type} [AddCommMonoid N] (row : List M) (f : M → N) :
    (row.map f).sum = ∑ i ∈ range row.length, f (row.getD i 0) := by
  have hall : (row.map f).take row.length = row.map f := List.take_of_length_le (by simp)
  rw [← hall, sum_take]
  apply sum_congr rfl
  intro i hi
  have hlt := mem_range.1 hi
  simp [hlt]

theorem getD_fold (shift : ℕ) (row : List M) (b : ℕ) :
    (fold shift row).getD b 0 = foldMap (min shift (row.length - 1)) (row.getD · 0) b := by
  cases row with
  | nil => simp [fold, foldMap_apply]
  | cons x xs =>
    rw [foldMap_apply]
    -- The first place gathers what was dropped, and the others come down by as much.
    cases b with
    | zero => simp only [fold, List.getD_cons_zero, if_true, sum_take]
    | succ b =>
      simp only [fold, Nat.add_one_ne_zero, if_false, List.length_cons, Nat.add_sub_cancel,
        List.drop_succ_cons, List.getD_eq_getElem?_getD, List.getElem?_cons_succ]
      rw [show b + 1 + min shift xs.length = min shift xs.length + b + 1 by omega,
        List.getElem?_cons_succ, List.getElem?_append]
      split
      · rw [List.getElem?_drop]
      · rename_i hb
        rw [List.length_drop] at hb
        have hend : xs[min shift xs.length + b]? = none := List.getElem?_eq_none (by omega)
        rw [hend, List.getElem?_replicate]
        split <;> rfl

/-- A single entry moves as far as the fold shifts it, and not past the first place. -/
theorem foldMap_single {shift length place : ℕ} (hlt : place < length) (x : M) (b : ℕ) :
    foldMap (min shift (length - 1)) (fun b => if place = b then x else 0) b =
      if place - shift = b then x else 0 := by
  rw [foldMap_apply]
  by_cases hb : b = 0
  · rw [if_pos hb, sum_ite_eq]
    simp only [mem_range]
    congr 1
    apply propext
    omega
  · rw [if_neg hb]
    congr 1
    apply propext
    omega

theorem foldMap_countP {ι : Type} (xs : Multiset ι) (place : ι → ℕ) (p : ι → Bool)
    {shift length : ℕ} (hlt : ∀ x ∈ xs, place x < length) (b : ℕ) :
    foldMap (min shift (length - 1)) (fun b => xs.countP fun x => (place x = b && p x) = true) b =
      xs.countP fun x => (place x - shift = b && p x) = true := by
  have hcons : ∀ (place : ι → ℕ) (x : ι) (xs : Multiset ι) (b : ℕ),
      (x ::ₘ xs).countP (fun x => (place x = b && p x) = true) =
        xs.countP (fun x => (place x = b && p x) = true) +
          if place x = b then if p x then 1 else 0 else 0 := by
    intro place x xs b
    rw [Multiset.countP_cons]
    by_cases hb : place x = b <;> simp [hb]
  -- Each item adds one entry to the row, and a fold of sums is the sum of the folds.
  induction xs using Multiset.induction_on with
  | empty => simp [foldMap_apply]
  | cons x xs ih =>
    have hx : place x < length := hlt x (Multiset.mem_cons_self x xs)
    have hadd : (fun b => (x ::ₘ xs).countP fun x => (place x = b && p x) = true) =
        (fun b => xs.countP fun x => (place x = b && p x) = true) +
          fun b => if place x = b then if p x then 1 else 0 else 0 :=
      funext fun b => hcons place x xs b
    rw [hadd, map_add, Pi.add_apply, ih fun y hy => hlt y (Multiset.mem_cons_of_mem hy),
      foldMap_single hx, hcons]

/-- If a row counts items by place, the folded row counts them by the place that they have after
the move. -/
theorem getD_fold_of_census {ι : Type} {xs : Multiset ι} {place moved : ι → ℕ} {p : ι → Bool}
    {row : List Int64} {shift : ℕ}
    (hrow : ∀ b, row.getD b 0 = census (fun x => place x = b && p x) xs)
    (hlt : ∀ x ∈ xs, place x < row.length) (hmoved : ∀ x ∈ xs, moved x = place x - shift) (b : ℕ) :
    (fold shift row).getD b 0 = census (fun x => moved x = b && p x) xs := by
  have hwords : (row.getD · 0) =
      fun b => wordOfNat (xs.countP fun x => (place x = b && p x) = true) := funext hrow
  rw [getD_fold, hwords, foldMap_comp, foldMap_countP xs place p hlt]
  refine congrArg Int64.ofNat (Multiset.countP_congr rfl fun x hx => ?_)
  simp only [hmoved x hx]

theorem foldMap_foldMap (m n : ℕ) (entry : ℕ → M) :
    foldMap m (foldMap n entry) = foldMap (n + m) entry := by
  funext b
  simp only [foldMap_apply]
  by_cases hb : b = 0
  · have htail : ∑ k ∈ range m, foldMap n entry (k + 1) = ∑ k ∈ range m, entry (n + 1 + k) := by
      apply sum_congr rfl
      intro k _
      rw [foldMap_apply, if_neg (Nat.succ_ne_zero k), show k + 1 + n = n + 1 + k by omega]
    rw [if_pos hb, if_pos hb]
    calc ∑ i ∈ range (m + 1), foldMap n entry i
        = ∑ k ∈ range m, foldMap n entry (k + 1) + ∑ i ∈ range (n + 1), entry i :=
          sum_range_succ' (foldMap n entry) m
      _ = ∑ i ∈ range (n + 1), entry i + ∑ k ∈ range m, entry (n + 1 + k) := by
          rw [htail, add_comm]
      _ = ∑ i ∈ range (n + m + 1), entry i := by
          rw [← sum_range_add, show n + 1 + m = n + m + 1 by omega]
  · rw [if_neg hb, if_neg (by omega), if_neg hb, show b + m + n = b + (n + m) by omega]

theorem foldMap_of_length_le {dropped length : ℕ} {entry : ℕ → M}
    (hzero : ∀ i, length ≤ i → entry i = 0) (hle : length - 1 ≤ dropped) :
    foldMap dropped entry = foldMap (length - 1) entry := by
  funext b
  simp only [foldMap_apply]
  by_cases hb : b = 0
  · rw [if_pos hb, if_pos hb]
    symm
    apply sum_subset (range_subset_range.2 (by omega))
    intro i _ hi
    rw [mem_range] at hi
    exact hzero i (by omega)
  · rw [if_neg hb, if_neg hb, hzero _ (by omega), hzero _ (by omega)]

theorem fold_fold (m n : ℕ) (row : List M) : fold m (fold n row) = fold (n + m) row := by
  have hlength : (fold m (fold n row)).length = (fold (n + m) row).length := by
    simp only [length_fold]
  have hfolded : ((fold n row).getD · 0) = foldMap (min n (row.length - 1)) (row.getD · 0) :=
    funext (getD_fold n row)
  have hzero : ∀ i, row.length ≤ i → row.getD i 0 = 0 := by
    intro i hi
    rw [List.getD_eq_getElem?_getD, List.getElem?_eq_none hi, Option.getD_none]
  have hentry : ∀ b, (fold m (fold n row)).getD b 0 = (fold (n + m) row).getD b 0 := by
    intro b
    rw [getD_fold, getD_fold, length_fold, hfolded, foldMap_foldMap]
    -- Either nothing is cut off at the last place, or both sides gather the whole row.
    by_cases hsum : n + m ≤ row.length - 1
    · rw [Nat.min_eq_left hsum, Nat.min_eq_left (by omega), Nat.min_eq_left (by omega)]
    · rw [Nat.min_eq_right (by omega : row.length - 1 ≤ n + m),
        foldMap_of_length_le hzero (by omega)]
  apply List.ext_getElem hlength
  intro b hb hb'
  have hget := hentry b
  rwa [List.getD_eq_getElem?_getD, List.getD_eq_getElem?_getD, List.getElem?_eq_getElem hb,
    List.getElem?_eq_getElem hb', Option.getD_some, Option.getD_some] at hget

theorem sum_fold (shift : ℕ) (row : List M) : (fold shift row).sum = row.sum := by
  cases row with
  | nil => rfl
  | cons x xs =>
    have hempty : ∀ n, (List.replicate n (0 : M)).sum = 0 := by
      intro n
      simp
    rw [fold, List.sum_cons, List.sum_append, hempty, add_zero]
    · exact List.sum_take_add_sum_drop _ _
    · simp

def gathered {α : Type} (shift : ℕ) (row : List α) : List α :=
  row.take (min shift (row.length - 1) + 1)

/-- As integers too the entries have the sum that they had, if the one that gathers others does not
wrap round. -/
theorem sum_toInt_fold {shift : ℕ} {row : List Int64}
    (hlow : -2 ^ 63 ≤ ((gathered shift row).map (·.toInt)).sum)
    (hhigh : ((gathered shift row).map (·.toInt)).sum < 2 ^ 63) :
    ((fold shift row).map (·.toInt)).sum = (row.map (·.toInt)).sum := by
  cases row with
  | nil => rfl
  | cons x xs =>
    have hfold : fold shift (x :: xs) = (gathered shift (x :: xs)).sum ::
        ((x :: xs).drop (min shift xs.length + 1) ++ List.replicate (min shift xs.length) 0) := rfl
    have hempty : ∀ n, ((List.replicate n (0 : Int64)).map (·.toInt)).sum = 0 := by
      intro n
      simp
    rw [hfold, List.map_cons, List.sum_cons, toInt_sum_of_fits hlow hhigh, List.map_append,
      List.sum_append, hempty, add_zero, gathered, List.map_take, List.map_drop]
    exact List.sum_take_add_sum_drop _ _

/-- Folding brings the entries no farther from zero, taken together. -/
theorem size_fold_le (shift : ℕ) (row : List Int64) :
    ((fold shift row).map wordSize).sum ≤ (row.map wordSize).sum := by
  cases row with
  | nil => exact Nat.le_refl 0
  | cons x xs =>
    have hempty : ∀ n, ((List.replicate n (0 : Int64)).map wordSize).sum = 0 := by
      intro n
      simp [wordSize]
    have hhead := wordSize_sum_le ((x :: xs).take (min shift xs.length + 1))
    have hsplit := List.sum_take_add_sum_drop ((x :: xs).map wordSize) (min shift xs.length + 1)
    rw [← List.map_take, ← List.map_drop] at hsplit
    rw [fold, List.map_cons, List.sum_cons, List.map_append, List.sum_append, hempty]
    · simp only [List.length_cons, Nat.add_sub_cancel]
      omega
    · simp

theorem fold_zero (row : List M) : fold 0 row = row := by
  cases row with
  | nil => rfl
  | cons x xs => simp [fold]

omit [AddCommMonoid M] in
theorem map_fold {N : Type} [Add M] [Zero M] [Add N] [Zero N] {f : M → N} (hzero : f 0 = 0)
    (hadd : ∀ x y, f (x + y) = f x + f y) (shift : ℕ) (row : List M) :
    (fold shift row).map f = fold shift (row.map f) := by
  have hsum : ∀ xs : List M, f xs.sum = (xs.map f).sum := by
    intro xs
    induction xs with
    | nil => exact hzero
    | cons x xs ih => rw [List.sum_cons, hadd, ih, List.map_cons, List.sum_cons]
  cases row with
  | nil => rfl
  | cons x xs => simp [fold, hadd, hsum, hzero, List.map_take]

end Sinkhole.Row
