import Mathlib.Algebra.Group.Prod
import Sinkhole.Proofs.Timeline.Rows
import Sinkhole.Record

namespace Sinkhole

open scoped Words

abbrev Counts : Type :=
  Int64 × Int64 × (ℕ → Int64)

def foldCounts (dropped : ℕ) : Counts →+ Counts :=
  (AddMonoidHom.id Int64).prodMap ((AddMonoidHom.id Int64).prodMap (Row.foldMap dropped))

/-- What a change adds to a history of `length` buckets and to the counts beside it. -/
def CountChange.counts (δ : CountChange) (length : ℕ) : Counts :=
  (δ.total, δ.blocked, fun b =>
    match δ.history with
    | some (bucket, n) => if bucket = b ∧ b < length then n else 0
    | none => 0)

namespace Client

def counts (c : Client) : Counts :=
  (c.count, c.blocked, fun b => c.history.getD b 0)

theorem length_history_adjust (c : Client) (δ : CountChange) :
    (c.adjust δ).history.length = c.history.length := by
  unfold adjust
  cases δ.history with
  | none => rfl
  | some change => exact List.length_modify _ _ _

theorem counts_adjust (c : Client) (δ : CountChange) :
    (c.adjust δ).counts = c.counts + δ.counts c.history.length := by
  refine Prod.ext rfl (Prod.ext rfl (funext fun b => ?_))
  simp only [counts, adjust, CountChange.counts, Prod.snd_add, Pi.add_apply]
  cases δ.history with
  | none => exact (add_zero _).symm
  | some change =>
    obtain ⟨bucket, n⟩ := change
    simp only [List.getD_eq_getElem?_getD, List.getElem?_modify]
    -- A bucket past the end of the history is not counted on either side.
    by_cases hb : bucket = b
    · by_cases hlt : b < c.history.length <;> simp [hb, hlt]
    · simp [hb]

theorem adjust_zero (c : Client) : c.adjust {} = c := by
  simp [adjust]

theorem length_zipWith_drop (f : Int64 → Int64 → Int64) (xs ys : List Int64) :
    (List.zipWith f xs ys ++ xs.drop ys.length).length = xs.length := by
  simp only [List.length_append, List.length_zipWith, List.length_drop]
  omega

theorem length_history_absorb (c member : Client) :
    (c.absorb member).history.length = c.history.length :=
  length_zipWith_drop _ _ _

theorem length_history_expel (c member : Client) :
    (c.expel member).history.length = c.history.length :=
  length_zipWith_drop _ _ _

theorem getD_zipWith_drop {f : Int64 → Int64 → Int64} (hf : f 0 0 = 0) {xs ys : List Int64}
    (hlength : ys.length = xs.length) (b : ℕ) :
    (List.zipWith f xs ys ++ xs.drop ys.length).getD b 0 = f (xs.getD b 0) (ys.getD b 0) := by
  rw [hlength, List.drop_length, List.append_nil]
  simp only [List.getD_eq_getElem?_getD, List.getElem?_zipWith]
  by_cases hb : b < xs.length
  · simp [hb, hlength]
  · simp [hb, hlength, hf]

theorem counts_absorb {c member : Client} (hlength : member.history.length = c.history.length) :
    (c.absorb member).counts = c.counts + member.counts := by
  refine Prod.ext rfl (Prod.ext rfl (funext fun b => ?_))
  exact getD_zipWith_drop (f := (· + ·)) rfl hlength b

theorem counts_expel {c member : Client} (hlength : member.history.length = c.history.length) :
    (c.expel member).counts = c.counts - member.counts := by
  refine Prod.ext rfl (Prod.ext rfl (funext fun b => ?_))
  exact getD_zipWith_drop (f := (· - ·)) rfl hlength b

theorem length_history_foldHistory (shift : ℕ) (c : Client) :
    (c.foldHistory shift).history.length = c.history.length :=
  Row.length_fold shift c.history

theorem counts_foldHistory (shift : ℕ) (c : Client) :
    (c.foldHistory shift).counts = foldCounts (min shift (c.history.length - 1)) c.counts :=
  Prod.ext rfl (Prod.ext rfl (funext fun b => Row.getD_fold shift c.history b))

theorem foldHistory_zero (c : Client) : c.foldHistory 0 = c := by
  rw [foldHistory, Row.fold_zero]

end Client

end Sinkhole
