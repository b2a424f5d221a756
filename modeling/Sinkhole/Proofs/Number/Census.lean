import Mathlib.Algebra.BigOperators.Group.Multiset.Basic
import Mathlib.Tactic.Abel

namespace Sinkhole

namespace Words

scoped instance addCommGroup : AddCommGroup Int64 where
  add_assoc := Int64.add_assoc
  zero_add := Int64.zero_add
  add_zero := Int64.add_zero
  add_comm := Int64.add_comm
  neg_add_cancel := Int64.add_left_neg
  sub_eq_add_neg := Int64.sub_eq_add_neg
  nsmul := nsmulRec
  zsmul := zsmulRec

end Words

open scoped Words

/-- The word of a natural number, as a map of sums to sums. -/
def wordOfNat : ℕ →+ Int64 where
  toFun := Int64.ofNat
  map_zero' := rfl
  map_add' := Int64.ofNat_add

variable {ι : Type} (p : ι → Bool)

/-- How many elements satisfy `p`, as a word. -/
def census (xs : Multiset ι) : Int64 :=
  Int64.ofNat (xs.countP (p ·))

theorem census_cons (x : ι) (xs : Multiset ι) :
    census p (x ::ₘ xs) = census p xs + if p x then 1 else 0 := by
  rw [census, Multiset.countP_cons, Int64.ofNat_add]
  split <;> rfl

theorem sum_map_ite (xs : Multiset ι) :
    (xs.map fun x => if p x then (1 : Int64) else 0).sum = census p xs := by
  induction xs using Multiset.induction_on with
  | empty => rfl
  | cons x xs ih => rw [Multiset.map_cons, Multiset.sum_cons, ih, census_cons, add_comm]

theorem toInt_census {xs : Multiset ι} (hsmall : xs.card < 2 ^ 63) :
    (census p xs).toInt = xs.countP (p ·) :=
  Int64.toInt_ofNat_of_lt (Nat.lt_of_le_of_lt (Multiset.countP_le_card _ xs) hsmall)

theorem ite_neg_one (c : Bool) : (if c then (-1 : Int64) else 0) = -(if c then 1 else 0) := by
  cases c <;> rfl

theorem toInt_sum_of_fits {xs : List Int64} (hlow : -2 ^ 63 ≤ (xs.map (·.toInt)).sum)
    (hhigh : (xs.map (·.toInt)).sum < 2 ^ 63) : xs.sum.toInt = (xs.map (·.toInt)).sum := by
  have hword : xs.sum = Int64.ofInt (xs.map (·.toInt)).sum := by
    clear hlow hhigh
    induction xs with
    | nil => rfl
    | cons x xs ih =>
      rw [List.sum_cons, List.map_cons, List.sum_cons, Int64.ofInt_add, Int64.ofInt_toInt, ih]
  rw [hword, Int64.toInt_ofInt_of_le hlow hhigh]

/-- How far a word is from zero, as an integer. -/
def wordSize (x : Int64) : ℕ :=
  x.toInt.natAbs

theorem wordSize_add_le (x y : Int64) : wordSize (x + y) ≤ wordSize x + wordSize y := by
  have hwrap : ∀ n : ℤ, (n.bmod (2 ^ 64)).natAbs ≤ n.natAbs := by
    intro n
    rw [Int.bmod_def]
    split <;> omega
  rw [wordSize, Int64.toInt_add]
  exact (hwrap _).trans (Int.natAbs_add_le _ _)

theorem wordSize_sum_le (xs : List Int64) : wordSize xs.sum ≤ (xs.map wordSize).sum := by
  induction xs with
  | nil => exact Nat.le_refl 0
  | cons x xs ih =>
    rw [List.sum_cons, List.map_cons, List.sum_cons]
    exact (wordSize_add_le x xs.sum).trans (Nat.add_le_add_left ih _)

theorem toInt_sum_of_small {xs : List Int64} (hsmall : (xs.map wordSize).sum < 2 ^ 63) :
    xs.sum.toInt = (xs.map (·.toInt)).sum := by
  have hle : ∀ xs : List Int64,
      (xs.map fun x : Int64 => x.toInt).sum.natAbs ≤ (xs.map wordSize).sum := by
    intro xs
    induction xs with
    | nil => exact Nat.le_refl 0
    | cons x xs ih =>
      simp only [List.map_cons, List.sum_cons]
      exact (Int.natAbs_add_le _ _).trans (Nat.add_le_add_left ih _)
  have hsum := hle xs
  exact toInt_sum_of_fits (by omega) (by omega)

/-- A word is the word of a natural number, and that number itself where it fits into a word. -/
def CountsTo (x : Int64) (n : ℕ) : Prop :=
  x = wordOfNat n ∧ (n < 2 ^ 63 → x.toInt = n)

theorem countsTo_of_eq {x : Int64} {n : ℕ} (h : x = wordOfNat n) : CountsTo x n :=
  ⟨h, fun hn => h ▸ Int64.toInt_ofNat_of_lt hn⟩

/-- A word is the sum of words, also as integers where the sum of those fits into a word. -/
def SumsTo (x : Int64) (xs : List Int64) : Prop :=
  x = xs.sum ∧ (-2 ^ 63 ≤ (xs.map (·.toInt)).sum → (xs.map (·.toInt)).sum < 2 ^ 63 →
    x.toInt = (xs.map (·.toInt)).sum)

theorem sumsTo_of_eq {x : Int64} {xs : List Int64} (h : x = xs.sum) : SumsTo x xs :=
  ⟨h, fun hlow hhigh => h ▸ toInt_sum_of_fits hlow hhigh⟩

end Sinkhole
