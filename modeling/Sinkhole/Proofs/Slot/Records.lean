import Mathlib.Algebra.BigOperators.Group.Multiset.Basic
import Sinkhole.Slot.Lemmas

namespace Sinkhole.SlotTable

variable {K : Kind} {α : Type} {t t' : SlotTable K α} {h : Handle K} {a : α}

/-- The live records, in no order. -/
def records (t : SlotTable K α) : Multiset α :=
  (t.entries.map (·.2) : List α)

def count (t : SlotTable K α) (p : α → Bool) : Nat :=
  t.entries.countP fun e => p e.2

theorem count_eq_countP (t : SlotTable K α) (p : α → Bool) :
    t.count p = t.records.countP (p ·) := by
  simp only [count, records, Multiset.coe_countP, List.countP_map]
  congr 1
  funext e
  simp

theorem records_eq_filterMap (t : SlotTable K α) :
    t.records = (t.slots.toList.filterMap (·.value) : List α) := by
  have hview : ∀ (slots : List (Slot α)) (start : Nat),
      ((slots.zipIdx start).filterMap fun x => x.1.value.map fun value =>
        ((⟨x.2, x.1.generation⟩ : Handle K), value)).map (·.2) = slots.filterMap (·.value) := by
    intro slots
    induction slots with
    | nil => intro start; rfl
    | cons slot slots ih =>
      intro start
      obtain ⟨generation, value⟩ := slot
      cases value <;> simp [ih]
  exact congrArg _ (hview t.slots.toList 0)

@[simp] theorem records_empty (name : String) (capacity : Nat) :
    records ({ name, capacity } : SlotTable K α) = 0 := rfl

theorem mem_records : a ∈ t.records ↔ ∃ h, t.get? h = some a := by
  rw [records_eq_filterMap, Multiset.mem_coe, List.mem_filterMap]
  constructor
  · rintro ⟨slot, hslot, ha⟩
    obtain ⟨i, hi⟩ := List.getElem?_of_mem hslot
    refine ⟨⟨i, slot.generation⟩, get?_eq_some_iff.2 ?_⟩
    rw [← Array.getElem?_toList, hi, ← ha]
  · rintro ⟨h, hh⟩
    rw [get?_eq_some_iff, ← Array.getElem?_toList] at hh
    exact ⟨_, List.mem_of_getElem? hh, rfl⟩

theorem mem_records_of_get? (hg : t.get? h = some a) : a ∈ t.records :=
  mem_records.2 ⟨h, hg⟩

theorem card_records (w : t.WellFormed) : t.records.card = t.live := by
  rw [w.live_eq, records_eq_filterMap, Multiset.coe_card, List.length_filterMap_eq_countP,
    Array.countP_toList]

theorem records_modify_slot {i : Nat} {slot : Slot α} {f : Slot α → Slot α}
    (hs : t.slots[i]? = some slot) (ht' : t'.slots = t.slots.modify i f) :
    ∃ rest : Multiset α, t.records = (slot.value.toList : Multiset α) + rest ∧
      t'.records = ((f slot).value.toList : Multiset α) + rest := by
  rw [← Array.getElem?_toList] at hs
  obtain ⟨hi, hslot⟩ := List.getElem?_eq_some_iff.1 hs
  -- The rest are the records of the slots before and after the changed one.
  let before := (t.slots.toList.take i).filterMap (·.value)
  let after := (t.slots.toList.drop (i + 1)).filterMap (·.value)
  have hsplit : ∀ s : Slot α, (((t.slots.toList.take i ++ s :: t.slots.toList.drop (i + 1)).filterMap
      (·.value) : List α) : Multiset α) = (s.value.toList : Multiset α) + ↑(before ++ after) := by
    intro s
    rw [Multiset.coe_add, Multiset.coe_eq_coe, List.filterMap_append, List.filterMap_cons]
    cases s.value with
    | none => exact List.Perm.refl _
    | some a => exact List.perm_middle
  refine ⟨↑(before ++ after), ?_, ?_⟩
  · rw [records_eq_filterMap, ← hsplit slot, ← hslot, List.getElem_cons_drop,
      List.take_append_drop]
  · rw [records_eq_filterMap, ht', Array.toList_modify, List.modify_eq_take_cons_drop hi, hslot,
      ← hsplit (f slot)]

/-- `t'` is `t` with `a` put into the slot of `h`, which was vacant or is new. -/
inductive Placed (t t' : SlotTable K α) (h : Handle K) (a : α) : Prop where
  | filled (vacant : t.slots[h.index]? = some ⟨h.generation, none⟩)
      (slots_eq : t'.slots = t.slots.modify h.index ({ · with value := some a }))
  | appended (index_eq : h.index = t.slots.size) (generation_eq : h.generation = 0)
      (slots_eq : t'.slots = t.slots.push ⟨0, some a⟩)

theorem placed_of_push (w : t.WellFormed) (hp : t.push a = .ok (h, t')) : Placed t t' h a := by
  unfold push at hp
  by_cases hr : t.hasRoom
  · rw [if_pos hr] at hp
    by_cases hc : t.cursor < t.slots.size
    · obtain ⟨g, value, hs⟩ : ∃ g value, t.slots[t.cursor]? = some ⟨g, value⟩ :=
        ⟨_, _, Array.getElem?_eq_getElem hc⟩
      have hvacant : value = none := by simpa [hasRoom, hs] using hr
      subst hvacant
      cases hp
      exact .filled (by simp [hs]) (by simp [hc])
    · have hsize : t.cursor = t.slots.size := Nat.le_antisymm w.cursor_le (Nat.le_of_not_lt hc)
      cases hp
      exact .appended hsize (by simp [hsize]) (by simp [hc])
  · rw [if_neg hr] at hp
    cases hp

theorem placed_of_insert (w : t.WellFormed) (hi : t.insert a = .ok (h, t')) : Placed t t' h a := by
  unfold insert at hi
  split at hi
  · rename_i index hf
    obtain ⟨g, hs⟩ := slot_of_findIdx? hf
    cases hi
    exact .filled (by simp [hs]) rfl
  · exact placed_of_push w hi

theorem Placed.records_eq (hp : Placed t t' h a) : t'.records = a ::ₘ t.records := by
  cases hp with
  | filled vacant slots_eq =>
    obtain ⟨rest, hrest, hrest'⟩ := records_modify_slot vacant slots_eq
    rw [hrest', hrest]
    simp
  | appended index_eq generation_eq slots_eq =>
    rw [records_eq_filterMap, slots_eq, Array.toList_push, List.filterMap_append, ← Multiset.coe_add,
      ← records_eq_filterMap, add_comm]
    simp

theorem records_vacate (hv : t.vacate? h = some (a, t')) : t.records = a ::ₘ t'.records := by
  have hs := get?_eq_some_iff.1 (get?_vacated hv)
  have ht' : t'.slots = t.slots.modify h.index fun slot => ⟨slot.generation + 1, none⟩ := by
    obtain ⟨b, -, hbt⟩ := Option.map_eq_some_iff.1 hv
    cases hbt
    rfl
  obtain ⟨rest, hrest, hrest'⟩ := records_modify_slot hs ht'
  rw [hrest', hrest]
  simp

theorem records_modify (hg : t.get? h = some a) (f : α → α) :
    ∃ rest, t.records = a ::ₘ rest ∧ (t.modify h f).records = f a ::ₘ rest := by
  have hslots : (t.modify h f).slots = t.slots.modify h.index fun slot =>
      if slot.generation = h.generation then { slot with value := slot.value.map f } else slot := rfl
  obtain ⟨rest, hrest, hrest'⟩ := records_modify_slot (get?_eq_some_iff.1 hg) hslots
  exact ⟨rest, by simpa using hrest, by simpa using hrest'⟩

theorem records_mapLive (t : SlotTable K α) (f : α → α) :
    (t.mapLive f).records = t.records.map f := by
  simp only [records_eq_filterMap, mapLive, Array.toList_map, Multiset.map_coe, List.filterMap_map,
    List.map_filterMap]
  rfl

end Sinkhole.SlotTable
