import Sinkhole.Proofs.Store.Specs

namespace Sinkhole

variable {K : Kind} {α β : Type}

def Slot.map (f : α → β) (slot : Slot α) : Slot β :=
  ⟨slot.generation, slot.value.map f⟩

theorem map_modify_slots (f : α → β) {g : Slot α → Slot α} {e : Slot β → Slot β}
    (hg : ∀ slot, Slot.map f (g slot) = e (Slot.map f slot)) (slots : Array (Slot α)) (i : Nat) :
    (slots.modify i g).map (Slot.map f) = (slots.map (Slot.map f)).modify i e := by
  apply Array.ext_getElem?
  intro j
  rw [Array.getElem?_map, Array.getElem?_modify, Array.getElem?_modify, Array.getElem?_map]
  split
  · cases slots[j]? <;> simp [hg]
  · rfl

namespace SlotTable

/-- The table of what `f` tells of each record. -/
def map (f : α → β) (t : SlotTable K α) : SlotTable K β where
  name := t.name
  capacity := t.capacity
  slots := t.slots.map (Slot.map f)
  live := t.live
  cursor := t.cursor

variable {t t' : SlotTable K α} {h k : Handle K} {a : α} (f : α → β)

@[simp] theorem map_empty (name : String) (capacity : Nat) :
    map f ({ name, capacity } : SlotTable K α) = { name, capacity } := by
  simp [map]

theorem map_map {γ : Type} (g : β → γ) (t : SlotTable K α) :
    (t.map f).map g = t.map fun a => g (f a) := by
  simp [map, Slot.map, Function.comp_def]

theorem get?_map (t : SlotTable K α) (h : Handle K) : (t.map f).get? h = (t.get? h).map f := by
  simp only [get?, map, Array.getElem?_map]
  cases t.slots[h.index]? with
  | none => rfl
  | some slot => by_cases hg : slot.generation = h.generation <;> simp [Slot.map, hg]

theorem get?_map_of_get? (hg : t.get? h = some a) : (t.map f).get? h = some (f a) := by
  rw [get?_map, hg]
  rfl

theorem contains_map (t : SlotTable K α) (h : Handle K) :
    (t.map f).contains h = t.contains h := by
  simp [contains, get?_map]

theorem wellFormed_map : (t.map f).WellFormed ↔ t.WellFormed := by
  have hlive : (t.slots.map (Slot.map f)).countP (·.value.isSome) =
      t.slots.countP (·.value.isSome) := by
    simp [Array.countP_map, Function.comp_def, Slot.map]
  constructor
  · rintro ⟨h₁, h₂, h₃, h₄, h₅⟩
    simp only [map, highWater, Array.size_map, hlive] at h₁ h₂ h₃ h₄ h₅
    exact ⟨h₁, h₂, h₃, h₄, h₅⟩
  · rintro ⟨h₁, h₂, h₃, h₄, h₅⟩
    refine ⟨?_, ?_, ?_, ?_, ?_⟩
    · rw [map, hlive]
      exact h₁
    · simpa [map, highWater] using h₂
    · simpa [map, highWater] using h₃
    · simpa [map] using h₄
    · simpa [map] using h₅

theorem handleIf?_map (t : SlotTable K α) (p : β → Bool) (i : Nat) :
    (t.map f).handleIf? p i = t.handleIf? (fun a => p (f a)) i := by
  simp only [handleIf?, map, Array.getElem?_map]
  cases t.slots[i]? with
  | none => rfl
  | some slot =>
    obtain ⟨generation, value⟩ := slot
    cases value <;> rfl

theorem findRecent?_map (t : SlotTable K α) (window : Nat) (p : β → Bool) :
    (t.map f).findRecent? window p = t.findRecent? window fun a => p (f a) := by
  have hsize : (t.map f).slots.size = t.slots.size := by simp [map]
  simp only [findRecent?, handleIf?_map, slotBefore, hsize]
  rfl

theorem hasRoom_map (t : SlotTable K α) : (t.map f).hasRoom = t.hasRoom := by
  simp only [hasRoom, map, Array.getElem?_map]
  cases t.slots[t.cursor]? with
  | none => rfl
  | some slot => simp [Slot.map]

theorem map_modify {g : α → α} {e : β → β} (hg : ∀ a, f (g a) = e (f a)) (t : SlotTable K α)
    (h : Handle K) : (t.modify h g).map f = (t.map f).modify h e := by
  have hslots := map_modify_slots f (g := fun slot =>
      if slot.generation = h.generation then { slot with value := slot.value.map g } else slot)
    (e := fun slot =>
      if slot.generation = h.generation then { slot with value := slot.value.map e } else slot)
    (fun slot => by
      by_cases hs : slot.generation = h.generation <;> simp [Slot.map, hs, Function.comp_def, hg])
    t.slots h.index
  simp only [modify, map, hslots]

section
variable {g : α → α} (hg : ∀ a, f (g a) = f a)
include hg

theorem map_modify_eq (t : SlotTable K α) (h : Handle K) : (t.modify h g).map f = t.map f := by
  have hid : ∀ b : β, id b = b := fun _ => rfl
  rw [map_modify (e := id) f hg, modify_eq_self _ hid]

theorem map_mapLive_eq (t : SlotTable K α) : (t.mapLive g).map f = t.map f := by
  have hslot : ∀ slot : Slot α,
      Slot.map f { slot with value := slot.value.map g } = Slot.map f slot := by
    intro slot
    simp [Slot.map, Function.comp_def, hg]
  simp [map, mapLive, Function.comp_def, hslot]

end

theorem generation_map (t : SlotTable K α) (i : Nat) :
    (t.slots.map (Slot.map f))[i]?.map (·.generation) = t.slots[i]?.map (·.generation) := by
  rw [Array.getElem?_map, Option.map_map]
  rfl

theorem map_slots_put (slots : Array (Slot α)) (i : Nat) (a : α) :
    (slots.modify i ({ · with value := some a })).map (Slot.map f) =
      (slots.map (Slot.map f)).modify i ({ · with value := some (f a) }) :=
  map_modify_slots f (fun _ => rfl) slots i

theorem push_map (put : t.push a = .ok (h, t')) : (t.map f).push (f a) = .ok (h, t'.map f) := by
  unfold push at put ⊢
  rw [hasRoom_map]
  split at put
  · rename_i hroom
    rw [if_pos hroom]
    cases put
    simp only [map, Array.size_map, generation_map]
    split
    · rw [map_slots_put]
      rfl
    · rw [Array.map_push]
      rfl
  · cases put

theorem insert_map (put : t.insert a = .ok (h, t')) :
    (t.map f).insert (f a) = .ok (h, t'.map f) := by
  have hindex : (t.map f).slots.findIdx? (·.value.isNone) = t.slots.findIdx? (·.value.isNone) := by
    rw [map, Array.findIdx?_map]
    congr 1
    funext slot
    simp [Slot.map]
  unfold insert at put ⊢
  rw [hindex]
  split at put
  · rename_i i hi
    cases put
    simp only [map, generation_map, map_slots_put]
  · exact push_map f put

theorem vacated_map (t : SlotTable K α) (h : Handle K) :
    (t.vacated h).map f = (t.map f).vacated h := by
  simp only [vacated, vacate?, get?_map]
  cases t.get? h with
  | none => rfl
  | some a =>
    have hslots := map_modify_slots f (g := fun slot => ⟨slot.generation + 1, none⟩)
      (e := fun slot => ⟨slot.generation + 1, none⟩) (fun _ => rfl) t.slots h.index
    simp only [Option.map_some, Option.getD_some, map, hslots]

end SlotTable

end Sinkhole
