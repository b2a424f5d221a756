import Mathlib.Algebra.BigOperators.Group.Multiset.Basic
import Mathlib.Tactic.Abel
import Sinkhole.Proofs.Slot.Generation
import Sinkhole.Proofs.Slot.Records

namespace Sinkhole.SlotTable

variable {K : Kind} {α G : Type} [AddCommGroup G]

/-- The sum of the charges that name a handle. -/
def due (xs : Multiset (Handle K × G)) (h : Handle K) : G :=
  (xs.map fun x => if x.1 = h then x.2 else 0).sum

theorem due_cons (x : Handle K × G) (xs : Multiset (Handle K × G)) (h : Handle K) :
    due (x ::ₘ xs) h = (if x.1 = h then x.2 else 0) + due xs h := by
  rw [due, Multiset.map_cons, Multiset.sum_cons, due]

theorem due_eq_zero {xs : Multiset (Handle K × G)} {h : Handle K} (hne : ∀ x ∈ xs, x.1 ≠ h) :
    due xs h = 0 := by
  rw [due, Multiset.sum_eq_zero]
  intro y hy
  obtain ⟨x, hx, rfl⟩ := Multiset.mem_map.1 hy
  exact if_neg (hne x hx)

theorem due_map (g : G →+ G) (xs : Multiset (Handle K × G)) (h : Handle K) :
    due (xs.map fun x => (x.1, g x.2)) h = g (due xs h) := by
  rw [due, Multiset.map_map, due, map_multiset_sum, Multiset.map_map]
  refine congrArg _ (Multiset.map_congr rfl fun x _ => ?_)
  simp only [Function.comp_apply, apply_ite g, map_zero]

/-- Each record that counts holds the sum of its charges, and every charge names a handle that was
given out. -/
structure Booked (value : α → G) (counting : α → Prop) (t : SlotTable K α)
    (xs : Multiset (Handle K × G)) : Prop where
  issued : ∀ x ∈ xs, t.Issued x.1
  value_eq : ∀ {h a}, t.get? h = some a → counting a → value a = due xs h

namespace Booked

variable {value : α → G} {counting : α → Prop} {t t' : SlotTable K α}
  {xs ys : Multiset (Handle K × G)} {h : Handle K} {a : α} {f : α → α} {g : G}

theorem empty (name : String) (capacity : Nat) :
    Booked value counting ({ name, capacity } : SlotTable K α) 0 where
  issued x hx := absurd hx (Multiset.notMem_zero x)
  value_eq hg := by simp [get?] at hg

theorem congr (b : Booked value counting t xs) (hissued : ∀ y ∈ ys, t.Issued y.1)
    (hdue : ∀ h, due ys h = due xs h) : Booked value counting t ys :=
  ⟨hissued, fun hg ha => (b.value_eq hg ha).trans (hdue _).symm⟩

theorem merge {g' : G} (b : Booked value counting t ((h, g) ::ₘ (h, g') ::ₘ xs)) :
    Booked value counting t ((h, g + g') ::ₘ xs) := by
  refine b.congr (fun y hy => ?_) fun k => ?_
  · rcases Multiset.mem_cons.1 hy with rfl | hy
    · exact b.issued (h, g) (Multiset.mem_cons_self _ _)
    · exact b.issued y (Multiset.mem_cons_of_mem (Multiset.mem_cons_of_mem hy))
  · simp only [due_cons]
    split
    · abel
    · abel

theorem drop (b : Booked value counting t ((h, 0) ::ₘ xs)) : Booked value counting t xs := by
  refine b.congr (fun y hy => b.issued y (Multiset.mem_cons_of_mem hy)) fun k => ?_
  rw [due_cons, ite_self, zero_add]

/-- A charge of a handle without a record that counts is not seen. -/
theorem unlisted (b : Booked value counting t xs) (hissued : t.Issued h)
    (hnone : ∀ a, t.get? h = some a → ¬ counting a) (g : G) :
    Booked value counting t ((h, g) ::ₘ xs) where
  issued x hx := by
    rcases Multiset.mem_cons.1 hx with rfl | hx
    · exact hissued
    · exact b.issued x hx
  value_eq {k a} hk ha := by
    have hne : h ≠ k := by
      rintro rfl
      exact hnone a hk ha
    rw [due_cons, if_neg hne, zero_add]
    exact b.value_eq hk ha

theorem modify_keep (b : Booked value counting t xs)
    (hf : ∀ a, t.get? h = some a → counting (f a) → counting a ∧ value (f a) = value a) :
    Booked value counting (t.modify h f) xs where
  issued x hx := issued_modify.2 (b.issued x hx)
  value_eq {k a} hk ha := by
    rw [get?_modify] at hk
    by_cases hh : h = k
    · subst hh
      rw [if_pos rfl] at hk
      obtain ⟨a', ha', rfl⟩ := Option.map_eq_some_iff.1 hk
      obtain ⟨hcount, hvalue⟩ := hf a' ha' ha
      rw [hvalue]
      exact b.value_eq ha' hcount
    · rw [if_neg hh] at hk
      exact b.value_eq hk ha

theorem modify_charge (b : Booked value counting t xs) (hissued : t.Issued h)
    (hf : ∀ a, t.get? h = some a → counting (f a) → counting a ∧ value (f a) = value a + g) :
    Booked value counting (t.modify h f) ((h, g) ::ₘ xs) where
  issued x hx := by
    refine issued_modify.2 ?_
    rcases Multiset.mem_cons.1 hx with rfl | hx
    · exact hissued
    · exact b.issued x hx
  value_eq {k a} hk ha := by
    rw [get?_modify] at hk
    by_cases hh : h = k
    · subst hh
      rw [if_pos rfl] at hk
      obtain ⟨a', ha', rfl⟩ := Option.map_eq_some_iff.1 hk
      obtain ⟨hcount, hvalue⟩ := hf a' ha' ha
      rw [hvalue, due_cons, if_pos rfl, b.value_eq ha' hcount, add_comm]
    · rw [if_neg hh] at hk
      rw [due_cons, if_neg hh, zero_add]
      exact b.value_eq hk ha

theorem mapLive (b : Booked value counting t xs) {φ : G →+ G}
    (hf : ∀ h a, t.get? h = some a → counting (f a) → counting a ∧ value (f a) = φ (value a)) :
    Booked value counting (t.mapLive f) (xs.map fun x => (x.1, φ x.2)) where
  issued x hx := by
    obtain ⟨y, hy, rfl⟩ := Multiset.mem_map.1 hx
    exact issued_mapLive.2 (b.issued y hy)
  value_eq {k a} hk ha := by
    rw [get?_mapLive] at hk
    obtain ⟨a', ha', rfl⟩ := Option.map_eq_some_iff.1 hk
    obtain ⟨hcount, hvalue⟩ := hf k a' ha' ha
    rw [hvalue, due_map, b.value_eq ha' hcount]

theorem placed (b : Booked value counting t xs) (hp : Placed t t' h a) (ha : value a = g) :
    Booked value counting t' ((h, g) ::ₘ xs) where
  issued x hx := by
    refine hp.issued_iff.2 ?_
    rcases Multiset.mem_cons.1 hx with rfl | hx
    · exact .inl rfl
    · exact .inr (b.issued x hx)
  value_eq {k a'} hk ha' := by
    rw [hp.get?_eq] at hk
    by_cases hh : h = k
    · subst hh
      rw [if_pos rfl] at hk
      cases hk
      rw [due_cons, if_pos rfl, due_eq_zero, add_zero, ha]
      -- Every earlier charge names a handle that was given out before, so none names this one.
      intro x hx hxh
      exact hp.not_issued (hxh ▸ b.issued x hx)
    · rw [if_neg hh] at hk
      rw [due_cons, if_neg hh, zero_add]
      exact b.value_eq hk ha'

theorem vacated (b : Booked value counting t xs) (hv : t.vacate? h = some (a, t'))
    (hroom : (t.generationAt h.index).toNat + 1 < 2 ^ 32) : Booked value counting t' xs where
  issued x hx := (issued_vacate hv hroom).2 (b.issued x hx)
  value_eq {k a'} hk ha' := by
    rw [get?_vacate hv] at hk
    by_cases hh : h = k
    · rw [if_pos hh] at hk
      cases hk
    · rw [if_neg hh] at hk
      exact b.value_eq hk ha'

end Booked

end Sinkhole.SlotTable
