import Sinkhole.Proofs.Slot.Keys
import Sinkhole.Proofs.Store.RecordCounts

namespace Sinkhole.SlotTable

variable {K : Kind} {α : Type} {t t' : SlotTable K α} {h : Handle K} {a : α}
  {known known' gone gone' : List (Handle K)}

/-- A change of at most one record. `known` are the handles that are named then, and `gone` is the
one that is removed. -/
inductive Change (t : SlotTable K α) :
    (known gone : List (Handle K)) → SlotTable K α → Prop where
  | none : Change t [] [] t
  | placed {h : Handle K} {a : α} {t' : SlotTable K α} (hp : Placed t t' h a)
      {known : List (Handle K)} (only : ∀ k ∈ known, k = h) : Change t known [] t'
  | modified {h : Handle K} (f : α → α) (live : t.contains h) : Change t [h] [] (t.modify h f)
  | vacated {h : Handle K} (live : t.contains h) : Change t [h] [h] (t.vacated h)

/-- No slot is removed from so often that its generation wraps round. -/
def Fits (gone : List (Handle K)) : Prop :=
  ∀ i, gone.countP (·.index = i) < 2 ^ 32

theorem Fits.of_append (f : Fits (gone ++ gone')) : Fits gone := by
  intro i
  have hi := f i
  rw [List.countP_append] at hi
  exact Nat.lt_of_le_of_lt (Nat.le_add_right _ _) hi

theorem fits_of_length (hlength : gone.length < 2 ^ 32) : Fits gone := fun _ =>
  Nat.lt_of_le_of_lt List.countP_le_length hlength

/-- What a table tells of the handles that a history names. -/
structure Traced (known gone : List (Handle K)) (t : SlotTable K α) : Prop where
  generation_eq : ∀ i, t.generationAt i = UInt32.ofNat (gone.countP (·.index = i))
  issued : ∀ h ∈ known, t.Issued h
  dead : ∀ h ∈ gone, h ∈ known ∧ t.contains h = false

theorem traced_empty (name : String) (capacity : Nat) :
    Traced [] [] ({ name, capacity } : SlotTable K α) where
  generation_eq i := by simp [generationAt]
  issued _ hk := absurd hk List.not_mem_nil
  dead _ hk := absurd hk List.not_mem_nil

namespace Traced

theorem room (tr : Traced known gone t) (f : Fits (gone ++ [h])) :
    (t.generationAt h.index).toNat + 1 < 2 ^ 32 := by
  refine Store.toNat_generation (tr.generation_eq h.index) ?_
  have hnext := f h.index
  simpa [List.countP_append] using hnext

theorem issued_of_change (tr : Traced known gone t) (c : Change t known' gone' t')
    (f : Fits (gone ++ gone')) {k : Handle K} (hk : t.Issued k) : t'.Issued k := by
  cases c with
  | none => exact hk
  | placed hp only => exact hp.issued_iff.2 (.inr hk)
  | modified g live => exact issued_modify.2 hk
  | vacated live =>
    obtain ⟨a, ha⟩ := contains_iff.1 live
    exact (issued_vacate (vacate?_of_get? ha) (tr.room f)).2 hk

theorem change (tr : Traced known gone t) (c : Change t known' gone' t')
    (f : Fits (gone ++ gone')) : Traced (known ++ known') (gone ++ gone') t' := by
  -- No change takes back a handle, and a change names no handle that was not given out.
  have hissued : ∀ h ∈ known ++ known', t'.Issued h := by
    intro k hk
    rcases List.mem_append.1 hk with hk | hk
    · exact tr.issued_of_change c f (tr.issued k hk)
    · cases c with
      | none => cases hk
      | placed hp only => exact hp.issued_iff.2 (.inl (only k hk))
      | modified g live =>
        rw [List.mem_singleton.1 hk]
        exact issued_modify.2 (.inl live)
      | vacated live =>
        rw [List.mem_singleton.1 hk]
        exact tr.issued_of_change (.vacated live) f (.inl live)
  refine ⟨fun i => ?_, hissued, fun k hk => ?_⟩
  · cases c with
    | none => rw [List.append_nil, tr.generation_eq]
    | placed hp only => rw [List.append_nil, hp.generationAt_eq, tr.generation_eq]
    | modified g live => rw [List.append_nil, generationAt_modify, tr.generation_eq]
    | @vacated h live =>
      rw [generationAt_vacated live, tr.generation_eq, List.countP_append, UInt32.ofNat_add]
      by_cases hi : h.index = i <;> simp [hi]
  · cases c with
    | none =>
      rw [List.append_nil] at hk ⊢
      simpa using tr.dead k hk
    | placed hp only =>
      rw [List.append_nil] at hk
      obtain ⟨hknown, hdead⟩ := tr.dead k hk
      refine ⟨List.mem_append_left _ hknown, ?_⟩
      rw [contains, hp.get?_eq, if_neg ((tr.issued k hknown).ne_of_placed hp)]
      exact hdead
    | modified g live =>
      rw [List.append_nil] at hk
      obtain ⟨hknown, hdead⟩ := tr.dead k hk
      exact ⟨List.mem_append_left _ hknown, by rw [contains_modify, hdead]⟩
    | @vacated h live =>
      rcases List.mem_append.1 hk with hk | hk
      · obtain ⟨hknown, hdead⟩ := tr.dead k hk
        refine ⟨List.mem_append_left _ hknown, ?_⟩
        rw [contains, get?_vacated_eq]
        split
        · rfl
        · exact hdead
      · refine ⟨List.mem_append_right _ hk, ?_⟩
        rw [List.mem_singleton.1 hk, contains, get?_vacated_eq, if_pos rfl]
        rfl

end Traced

end Sinkhole.SlotTable
