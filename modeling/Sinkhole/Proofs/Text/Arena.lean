import Mathlib.Data.List.TakeWhile
import Sinkhole.Text

namespace Sinkhole.TextPool

/-- A text without a NUL, which the arena holds as it is. -/
def Plain (s : String) : Prop :=
  '\x00' ∉ s.toList

instance decidablePlain (s : String) : Decidable (Plain s) :=
  inferInstanceAs (Decidable (_ ∉ _))

theorem beforeNul_eq_self_iff {s : String} : beforeNul s = s ↔ Plain s := by
  rw [beforeNul, ← String.toList_inj, String.toList_ofList, List.takeWhile_eq_self_iff, Plain]
  constructor
  · intro h hn
    simpa using h _ hn
  · intro h c hc
    have hne : c ≠ '\x00' := fun he => h (he ▸ hc)
    simpa using hne

theorem plain_beforeNul (s : String) : Plain (beforeNul s) := by
  intro h
  rw [beforeNul, String.toList_ofList] at h
  have hne := List.mem_takeWhile_imp h
  simp at hne

variable {p p' : TextPool} {s : String} {t u : PooledText}

/-- An offset and the text that the arena holds there. Offset 0 is the empty text. -/
def Holds (p : TextPool) (t : PooledText) : Prop :=
  t = {} ∨ t ∈ p.placed

/-- The newest text comes first and lies last in the arena. -/
structure WellFormed (p : TextPool) : Prop where
  ordered : p.placed.Pairwise fun a b => b.offset < a.offset
  within : ∀ t ∈ p.placed, 0 < t.offset ∧ t.offset < p.used
  plain : ∀ t ∈ p.placed, Plain t.text
  used_pos : 0 < p.used

theorem wellFormed_empty (limit : Nat) : WellFormed { limit } where
  ordered := .nil
  within _ ht := absurd ht List.not_mem_nil
  plain _ ht := absurd ht List.not_mem_nil
  used_pos := Nat.one_pos

theorem intern_eq_ok (h : p.intern s = .ok (t, p')) :
    (beforeNul s = "" ∧ t = {} ∧ p' = p) ∨
      t = ⟨p.used, beforeNul s⟩ ∧ p'.placed = t :: p.placed ∧ p.used < p'.used := by
  unfold intern at h
  dsimp only at h
  split at h
  · rename_i hempty
    cases h
    exact .inl ⟨hempty, rfl, rfl⟩
  · split at h
    · cases h
    · cases h
      exact .inr ⟨rfl, rfl, by dsimp only; omega⟩

theorem text_of_intern (h : p.intern s = .ok (t, p')) : t.text = beforeNul s := by
  rcases intern_eq_ok h with ⟨hempty, rfl, -⟩ | ⟨rfl, -⟩
  · exact hempty.symm
  · rfl

theorem holds_of_intern (h : p.intern s = .ok (t, p')) : p'.Holds t := by
  rcases intern_eq_ok h with ⟨-, rfl, -⟩ | ⟨-, hplaced, -⟩
  · exact .inl rfl
  · exact .inr (hplaced ▸ List.mem_cons_self)

theorem Holds.intern (hu : p.Holds u) (h : p.intern s = .ok (t, p')) : p'.Holds u := by
  rcases intern_eq_ok h with ⟨-, -, rfl⟩ | ⟨-, hplaced, -⟩
  · exact hu
  · exact hu.imp id fun hu => hplaced ▸ List.mem_cons_of_mem t hu

theorem WellFormed.intern (w : p.WellFormed) (h : p.intern s = .ok (t, p')) : p'.WellFormed := by
  rcases intern_eq_ok h with ⟨-, -, rfl⟩ | ⟨ht, hplaced, hused⟩
  · exact w
  have htext : t.text = beforeNul s := by rw [ht]
  have hoffset : t.offset = p.used := by rw [ht]
  refine ⟨?_, fun u hu => ?_, fun u hu => ?_, Nat.zero_lt_of_lt hused⟩
  · rw [hplaced]
    exact List.pairwise_cons.2 ⟨fun u hu => hoffset ▸ (w.within u hu).2, w.ordered⟩
  · rw [hplaced] at hu
    rcases List.mem_cons.1 hu with rfl | hu
    · rw [hoffset]
      exact ⟨w.used_pos, hused⟩
    · exact ⟨(w.within u hu).1, Nat.lt_trans (w.within u hu).2 hused⟩
  · rw [hplaced] at hu
    rcases List.mem_cons.1 hu with rfl | hu
    · rw [htext]
      exact plain_beforeNul s
    · exact w.plain u hu

theorem WellFormed.plain_of_holds (w : p.WellFormed) (h : p.Holds t) : Plain t.text := by
  rcases h with rfl | ht
  · exact List.not_mem_nil
  · exact w.plain t ht

/-- Reading from the newest text on, the first one that does not lie past an offset is the one that
starts there. -/
theorem find?_offset {ts : List PooledText} (hordered : ts.Pairwise fun a b => b.offset < a.offset)
    (ht : t ∈ ts) : ts.find? (·.offset ≤ t.offset) = some t := by
  induction hordered with
  | nil => cases ht
  | @cons a rest ha _ ih =>
    rcases List.mem_cons.1 ht with rfl | ht
    · rw [List.find?_cons_of_pos]
      exact decide_eq_true (Nat.le_refl _)
    · rw [List.find?_cons_of_neg, ih ht]
      have hlt := ha t ht
      simpa using hlt

theorem WellFormed.textAt_eq (w : p.WellFormed) (h : p.Holds t) : p.textAt t.offset = t.text := by
  unfold textAt
  rcases h with rfl | ht
  · -- No text starts at the NUL that the arena opens with.
    have hnone : p.placed.find? (·.offset ≤ 0) = none := by
      refine List.find?_eq_none.2 fun u hu => ?_
      have hpos := (w.within u hu).1
      simpa using Nat.ne_of_gt hpos
    dsimp only
    rw [hnone]
    split <;> rfl
  · rw [if_neg (Nat.not_le.2 (w.within t ht).2), find?_offset w.ordered ht]
    simp [dropBytes]

end Sinkhole.TextPool
