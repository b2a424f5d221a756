import Sinkhole.Proofs.Slot.Keys

namespace Sinkhole.SlotTable

variable {K : Kind} {α β : Type} {t t' : SlotTable K α} {h k m : Handle K} {a b : α}
  {p : α → Bool}

theorem eq_of_index_eq (hh : t.get? h = some a) (hk : t.get? k = some b)
    (hindex : h.index = k.index) : h = k := by
  have hslot := get?_eq_some_iff.1 hh
  rw [hindex, get?_eq_some_iff.1 hk, Option.some_inj, Slot.mk.injEq] at hslot
  obtain ⟨i, g⟩ := h
  obtain ⟨j, g'⟩ := k
  rw [Handle.mk.injEq]
  exact ⟨hindex, hslot.1.symm⟩

theorem index_le_of_find? (hf : t.find? p = some h) (hk : t.get? k = some b) (hb : p b) :
    h.index ≤ k.index := by
  obtain ⟨i, hi, ho⟩ := Option.bind_eq_some_iff.1 hf
  obtain ⟨hlt, -, hbefore⟩ := Array.findIdx?_eq_some_iff_getElem.1 hi
  have hindex : h.index = i := by
    unfold occupant? at ho
    split at ho
    · cases ho
      rfl
    · cases ho
  rw [hindex]
  by_contra hki
  have hslot := get?_eq_some_iff.1 hk
  rw [Array.getElem?_eq_getElem (by omega), Option.some_inj] at hslot
  have hno := hbefore k.index (by omega)
  rw [hslot] at hno
  exact hno hb

theorem find?_eq_some_iff : t.find? p = some h ↔
    (∃ a, t.get? h = some a ∧ p a) ∧ ∀ k b, t.get? k = some b → p b → h.index ≤ k.index := by
  constructor
  · intro hf
    exact ⟨get?_of_find? hf, fun k b hk hb => index_le_of_find? hf hk hb⟩
  · rintro ⟨⟨a, ha, hp⟩, hfirst⟩
    cases hf : t.find? p with
    | none =>
      rw [find?_eq_none_iff.1 hf h a ha] at hp
      cases hp
    | some k =>
      obtain ⟨b, hb, hpb⟩ := get?_of_find? hf
      have hkh := index_le_of_find? hf ha hp
      have hhk := hfirst k b hb hpb
      exact congrArg some (eq_of_index_eq hb ha (by omega))

theorem find?_map (f : α → β) (t : SlotTable K α) (p : β → Bool) :
    (t.map f).find? p = t.find? fun a => p (f a) := by
  apply Option.ext
  intro h
  rw [find?_eq_some_iff, find?_eq_some_iff]
  simp only [get?_map, Option.map_eq_some_iff]
  constructor
  · rintro ⟨⟨_, ⟨a, ha, rfl⟩, hp⟩, hfirst⟩
    exact ⟨⟨a, ha, hp⟩, fun k b hb hpb => hfirst k _ ⟨b, hb, rfl⟩ hpb⟩
  · rintro ⟨⟨a, ha, hp⟩, hfirst⟩
    refine ⟨⟨_, ⟨a, ha, rfl⟩, hp⟩, ?_⟩
    rintro k _ ⟨b, hb, rfl⟩ hpb
    exact hfirst k b hb hpb

namespace Placed

/-- A record behind the one that was found does not hide it. -/
theorem find?_of_lt (hp : Placed t t' m b) (hf : t.find? p = some h) (hlt : h.index < m.index) :
    t'.find? p = some h := by
  obtain ⟨⟨a, ha, hpa⟩, hfirst⟩ := find?_eq_some_iff.1 hf
  rw [find?_eq_some_iff]
  refine ⟨⟨a, hp.get?_of_get? ha, hpa⟩, fun k c hk hc => ?_⟩
  rw [hp.get?_eq] at hk
  split at hk
  · rename_i heq
    rw [← heq]
    omega
  · exact hfirst k c hk hc

theorem index_ne (hp : Placed t t' h a) (hk : t.get? k = some b) : k.index ≠ h.index := by
  intro hindex
  have hslot := get?_eq_some_iff.1 hk
  rw [hindex] at hslot
  cases hp with
  | filled vacant slots_eq =>
    simp [vacant] at hslot
  | appended index_eq generation_eq slots_eq =>
    simp [index_eq] at hslot

end Placed

theorem live_below_insert (w : t.WellFormed) (hi : t.insert a = .ok (h, t')) {i : Nat}
    (hlt : i < h.index) : ∃ g b, t.get? ⟨i, g⟩ = some b := by
  -- What the scan passed over is not vacant.
  have hlive : ∀ (hsize : i < t.slots.size), t.slots[i].value.isNone = false →
      ∃ g b, t.get? ⟨i, g⟩ = some b := by
    intro hsize hvalue
    obtain ⟨b, hb⟩ := Option.isSome_iff_exists.1 (Option.isNone_eq_false_iff.1 hvalue)
    refine ⟨t.slots[i].generation, b, get?_eq_some_iff.2 ?_⟩
    rw [Array.getElem?_eq_getElem hsize, ← hb]
  unfold insert at hi
  split at hi
  · rename_i index hf
    obtain ⟨hsize, -, hbefore⟩ := Array.findIdx?_eq_some_iff_getElem.1 hf
    cases hi
    exact hlive (hlt.trans hsize) (Bool.eq_false_of_not_eq_true (hbefore i hlt))
  · rename_i hf
    have hsize : i < t.slots.size := by
      cases placed_of_push w hi with
      | filled vacant slots_eq =>
        obtain ⟨hsize, -⟩ := Array.getElem?_eq_some_iff.1 vacant
        omega
      | appended index_eq generation_eq slots_eq => omega
    exact hlive hsize (Array.findIdx?_eq_none_iff.1 hf _ (Array.getElem_mem hsize))

end Sinkhole.SlotTable
