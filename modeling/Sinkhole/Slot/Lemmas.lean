import Sinkhole.Slot.Table

namespace Sinkhole.SlotTable

variable {K : Kind} {α : Type}

/-- What holds of a table at any time. Until the table has its full size, the cursor stands behind
the last slot. -/
structure WellFormed (t : SlotTable K α) : Prop where
  live_eq : t.live = t.slots.countP (·.value.isSome)
  highWater_le : t.highWater ≤ t.capacity
  highWater_le_maxIndex : t.highWater ≤ maxIndex
  cursor_le : t.cursor ≤ t.slots.size
  cursor_eq : t.slots.size < t.capacity → t.cursor = t.slots.size

theorem get?_eq_some_iff {t : SlotTable K α} {h : Handle K} {a : α} :
    t.get? h = some a ↔ t.slots[h.index]? = some ⟨h.generation, some a⟩ := by
  unfold get?
  cases hs : t.slots[h.index]? with
  | none => simp
  | some slot =>
    obtain ⟨generation, value⟩ := slot
    by_cases hg : generation = h.generation <;> simp [hg]

theorem contains_iff {t : SlotTable K α} {h : Handle K} : t.contains h ↔ ∃ a, t.get? h = some a := by
  simp [contains, Option.isSome_iff_exists]

theorem get?_modify (t : SlotTable K α) (h k : Handle K) (f : α → α) :
    (t.modify h f).get? k = if h = k then (t.get? k).map f else t.get? k := by
  obtain ⟨i, g⟩ := h
  obtain ⟨j, g'⟩ := k
  simp only [get?, modify, Array.getElem?_modify, Handle.mk.injEq]
  by_cases hi : i = j
  · subst hi
    by_cases hg : g = g'
    · subst hg
      cases t.slots[i]? with
      | none => simp
      | some slot => by_cases hs : slot.generation = g <;> simp [hs]
    · cases t.slots[i]? with
      | none => simp
      | some slot => by_cases hs : slot.generation = g <;> simp [hs, hg]
  · simp [hi]

theorem modify_of_get?_eq_none {t : SlotTable K α} {h : Handle K} (hn : t.get? h = none)
    (f : α → α) : t.modify h f = t := by
  have hslots : t.slots.modify h.index (fun slot =>
      if slot.generation = h.generation then { slot with value := slot.value.map f } else slot)
      = t.slots := by
    apply Array.ext_getElem?
    intro i
    rw [Array.getElem?_modify]
    split
    · -- Only the slot of the handle could change, and the handle names no record there.
      rename_i hi
      subst hi
      unfold get? at hn
      cases hs : t.slots[h.index]? with
      | none => rfl
      | some slot =>
        obtain ⟨generation, value⟩ := slot
        rw [hs] at hn
        by_cases hg : generation = h.generation <;> simp_all
    · rfl
  unfold modify
  rw [hslots]

theorem get?_mapLive (t : SlotTable K α) (f : α → α) (h : Handle K) :
    (t.mapLive f).get? h = (t.get? h).map f := by
  simp only [get?, mapLive, Array.getElem?_map]
  cases t.slots[h.index]? with
  | none => rfl
  | some slot => by_cases hg : slot.generation = h.generation <;> simp [hg]

theorem get?_vacate {t t' : SlotTable K α} {h : Handle K} {a : α} (hv : t.vacate? h = some (a, t'))
    (k : Handle K) : t'.get? k = if h = k then none else t.get? k := by
  obtain ⟨i, g⟩ := h
  obtain ⟨j, g'⟩ := k
  obtain ⟨b, hb, hbt⟩ := Option.map_eq_some_iff.1 hv
  cases hbt
  rw [get?_eq_some_iff] at hb
  simp only [get?, Array.getElem?_modify, Handle.mk.injEq]
  by_cases hi : i = j
  · subst hi
    simp only [if_true, hb, Option.map_some, true_and]
    by_cases hg : g = g' <;> simp [hg]
  · simp [hi]

theorem get?_vacated {t t' : SlotTable K α} {h : Handle K} {a : α}
    (hv : t.vacate? h = some (a, t')) : t.get? h = some a := by
  obtain ⟨b, hb, hbt⟩ := Option.map_eq_some_iff.1 hv
  cases hbt
  exact hb

theorem vacate?_eq_none_iff {t : SlotTable K α} {h : Handle K} :
    t.vacate? h = none ↔ t.get? h = none :=
  Option.map_eq_none_iff

/-- Writing a record into a vacant slot is seen through the new handle only. -/
theorem get?_fill {t : SlotTable K α} {i : Nat} {g : UInt32} (hs : t.slots[i]? = some ⟨g, none⟩)
    (t' : SlotTable K α) (a : α)
    (ht' : t'.slots = t.slots.modify i ({ · with value := some a })) (k : Handle K) :
    t'.get? k = if ⟨i, g⟩ = k then some a else t.get? k := by
  obtain ⟨j, g'⟩ := k
  simp only [get?, ht', Array.getElem?_modify, Handle.mk.injEq]
  by_cases hi : i = j
  · subst hi
    simp only [if_true, hs, Option.map_some, true_and]
    by_cases hg : g = g' <;> simp [hg]
  · simp [hi]

theorem slots_modify_eq_set {β : Type} {xs : Array β} {i : Nat} (h : i < xs.size) (f : β → β) :
    xs.modify i f = xs.set i (f xs[i]) h := by
  apply Array.ext_getElem?
  intro j
  rw [Array.getElem?_modify, Array.getElem?_set]
  by_cases hj : i = j
  · subst hj
    simp [h]
  · simp [hj]

theorem wellFormed_empty (name : String) (capacity : Nat) :
    WellFormed ({ name, capacity } : SlotTable K α) where
  live_eq := rfl
  highWater_le := Nat.zero_le _
  highWater_le_maxIndex := Nat.zero_le _
  cursor_le := Nat.le_refl _
  cursor_eq _ := rfl

theorem WellFormed.modify {t : SlotTable K α} (w : t.WellFormed) (h : Handle K) (f : α → α) :
    (t.modify h f).WellFormed := by
  -- A slot that was live stays live, so the count of the live ones stays.
  have hcount : ∀ (g : Slot α → Slot α), (∀ s, (g s).value.isSome = s.value.isSome) →
      (t.slots.modify h.index g).countP (·.value.isSome) = t.slots.countP (·.value.isSome) := by
    intro g hg
    by_cases hi : h.index < t.slots.size
    · rw [slots_modify_eq_set hi, Array.countP_set, hg]
      by_cases hv : t.slots[h.index].value.isSome
      · simp only [hv, if_true]
        exact Nat.sub_add_cancel (Array.countP_pos_iff.2 ⟨_, Array.getElem_mem hi, hv⟩)
      · simp only [hv]
        rfl
    · rw [show t.slots.modify h.index g = t.slots from ?_]
      apply Array.ext_getElem?
      intro j
      rw [Array.getElem?_modify]
      split
      · rename_i hj
        simp [← hj, Array.getElem?_eq_none (Nat.le_of_not_lt hi)]
      · rfl
  constructor
  · rw [show (t.modify h f).live = t.live from rfl, w.live_eq]
    exact (hcount _ fun s => by split <;> simp).symm
  · simpa [highWater, SlotTable.modify] using w.highWater_le
  · simpa [highWater, SlotTable.modify] using w.highWater_le_maxIndex
  · simpa [SlotTable.modify] using w.cursor_le
  · simpa [SlotTable.modify] using w.cursor_eq

theorem WellFormed.mapLive {t : SlotTable K α} (w : t.WellFormed) (f : α → α) :
    (t.mapLive f).WellFormed where
  live_eq := by
    rw [show (t.mapLive f).live = t.live from rfl, w.live_eq]
    simp [SlotTable.mapLive, Array.countP_map, Function.comp_def]
  highWater_le := by simpa [highWater, SlotTable.mapLive] using w.highWater_le
  highWater_le_maxIndex := by simpa [highWater, SlotTable.mapLive] using w.highWater_le_maxIndex
  cursor_le := by simpa [SlotTable.mapLive] using w.cursor_le
  cursor_eq := by simpa [SlotTable.mapLive] using w.cursor_eq

theorem countP_fill {t : SlotTable K α} {i : Nat} {g : UInt32} (hs : t.slots[i]? = some ⟨g, none⟩)
    (a : α) : (t.slots.modify i ({ · with value := some a })).countP (·.value.isSome)
      = t.slots.countP (·.value.isSome) + 1 := by
  obtain ⟨hi, hs⟩ := Array.getElem?_eq_some_iff.1 hs
  rw [slots_modify_eq_set hi, Array.countP_set, hs]
  simp

theorem WellFormed.vacate {t t' : SlotTable K α} (w : t.WellFormed) {h : Handle K} {a : α}
    (hv : t.vacate? h = some (a, t')) : t'.WellFormed := by
  obtain ⟨b, hb, hbt⟩ := Option.map_eq_some_iff.1 hv
  cases hbt
  obtain ⟨hi, hs⟩ := Array.getElem?_eq_some_iff.1 (get?_eq_some_iff.1 hb)
  constructor
  · simp only [slots_modify_eq_set hi, Array.countP_set, hs, w.live_eq]
    simp
  · simpa [highWater] using w.highWater_le
  · simpa [highWater] using w.highWater_le_maxIndex
  · simpa using w.cursor_le
  · simpa using w.cursor_eq

theorem WellFormed.push {t t' : SlotTable K α} (w : t.WellFormed) {a : α} {h : Handle K}
    (hp : t.push a = .ok (h, t')) : t'.WellFormed := by
  unfold SlotTable.push at hp
  by_cases hr : t.hasRoom
  · rw [if_pos hr] at hp
    by_cases hc : t.cursor < t.slots.size
    · obtain ⟨g, value, hs⟩ : ∃ g value, t.slots[t.cursor]? = some ⟨g, value⟩ :=
        ⟨_, _, Array.getElem?_eq_getElem hc⟩
      have hvalue : value = none := by simpa [hasRoom, hs] using hr
      subst hvalue
      -- Once the cursor has turned round, the table has its full size.
      have hfull : t.slots.size = t.capacity :=
        Nat.le_antisymm w.highWater_le (Nat.le_of_not_lt fun hlt => by
          have := w.cursor_eq hlt
          omega)
      cases hp
      simp only [hc, if_true]
      constructor
      · simp only [countP_fill hs, w.live_eq]
      · simpa [highWater] using w.highWater_le
      · simpa [highWater] using w.highWater_le_maxIndex
      · simp only [nextCursor, Array.size_modify]
        split <;> omega
      · simp only [Array.size_modify]
        omega
    · have hs : t.slots[t.cursor]? = none := Array.getElem?_eq_none (Nat.le_of_not_lt hc)
      have hsize : t.cursor = t.slots.size := Nat.le_antisymm w.cursor_le (Nat.le_of_not_lt hc)
      have hroom : t.cursor < t.capacity ∧ t.cursor < maxIndex := by
        simpa [hasRoom, hs] using hr
      cases hp
      simp only [hc, if_false]
      constructor
      · simp [w.live_eq]
      · simp only [highWater, Array.size_push]
        omega
      · simp only [highWater, Array.size_push]
        omega
      · simp only [nextCursor, Array.size_push]
        split <;> omega
      · simp only [nextCursor, Array.size_push]
        split <;> omega
  · rw [if_neg hr] at hp
    cases hp

theorem slot_of_findIdx? {t : SlotTable K α} {i : Nat}
    (hf : t.slots.findIdx? (·.value.isNone) = some i) : ∃ g, t.slots[i]? = some ⟨g, none⟩ := by
  obtain ⟨hi, hvacant, -⟩ := Array.findIdx?_eq_some_iff_getElem.1 hf
  refine ⟨t.slots[i].generation, ?_⟩
  rw [Array.getElem?_eq_getElem hi, ← Option.isNone_iff_eq_none.1 hvacant]

theorem WellFormed.insert {t t' : SlotTable K α} (w : t.WellFormed) {a : α} {h : Handle K}
    (hp : t.insert a = .ok (h, t')) : t'.WellFormed := by
  unfold SlotTable.insert at hp
  split at hp
  · rename_i index hf
    obtain ⟨g, hs⟩ := slot_of_findIdx? hf
    cases hp
    constructor
    · simp only [countP_fill hs, w.live_eq]
    · simpa [highWater] using w.highWater_le
    · simpa [highWater] using w.highWater_le_maxIndex
    · simpa using w.cursor_le
    · simpa using w.cursor_eq
  · exact w.push hp

end Sinkhole.SlotTable
