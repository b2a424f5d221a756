import Sinkhole.Proofs.Slot.Images

namespace Sinkhole.SlotTable

variable {K : Kind} {α κ : Type} {t t' : SlotTable K α} {h k : Handle K} {a : α} {p : α → Bool}

theorem get?_vacated_eq (t : SlotTable K α) (h k : Handle K) :
    (t.vacated h).get? k = if h = k then none else t.get? k := by
  cases hg : t.get? h with
  | none =>
    have hc : t.contains h = false := by simp [contains, hg]
    rw [vacated_of_not_contains hc]
    split
    · rename_i hk
      rw [← hk, hg]
    · rfl
  | some a => exact get?_vacate (vacate?_of_get? hg) k

theorem contains_of_vacated (hk : (t.vacated h).contains k) : t.contains k := by
  rw [contains, get?_vacated_eq] at hk
  split at hk
  · cases hk
  · exact hk

theorem get?_of_find? (hf : t.find? p = some h) : ∃ a, t.get? h = some a ∧ p a := by
  obtain ⟨i, hi, ho⟩ := Option.bind_eq_some_iff.1 hf
  obtain ⟨hlt, hp, -⟩ := Array.findIdx?_eq_some_iff_getElem.1 hi
  unfold occupant? at ho
  split at ho
  · rename_i g a hs
    cases ho
    refine ⟨a, get?_eq_some_iff.2 hs, ?_⟩
    rw [Array.getElem?_eq_getElem hlt, Option.some_inj] at hs
    rw [hs] at hp
    simpa using hp
  · cases ho

theorem find?_eq_none_iff : t.find? p = none ↔ ∀ h a, t.get? h = some a → p a = false := by
  constructor
  · intro hf h a hg
    have hs := get?_eq_some_iff.1 hg
    cases hi : t.slots.findIdx? fun slot => slot.value.any p with
    | none =>
      obtain ⟨hlt, hslot⟩ := Array.getElem?_eq_some_iff.1 hs
      have hno := Array.findIdx?_eq_none_iff.1 hi _ (Array.getElem_mem hlt)
      rw [hslot] at hno
      simpa using hno
    | some i =>
      -- The slot that was found holds a record, so its handle would be the answer.
      obtain ⟨hlt, hp, -⟩ := Array.findIdx?_eq_some_iff_getElem.1 hi
      obtain ⟨b, hb, -⟩ := (Option.any_eq_true _ _).1 hp
      have hslot : t.slots[i]? = some ⟨t.slots[i].generation, some b⟩ := by
        rw [Array.getElem?_eq_getElem hlt, ← hb]
      simp [find?, hi, occupant?, hslot] at hf
  · intro hno
    by_contra hf
    obtain ⟨h, hh⟩ := Option.ne_none_iff_exists'.1 hf
    obtain ⟨a, ha, hp⟩ := get?_of_find? hh
    rw [hno h a ha] at hp
    cases hp

theorem find?_congr {q : α → Bool} (hpq : ∀ a ∈ t.records, p a = q a) : t.find? p = t.find? q := by
  have hslot : ∀ (i : Nat) (hi : i < t.slots.size),
      t.slots[i].value.any p = t.slots[i].value.any q := by
    intro i hi
    cases hv : t.slots[i].value with
    | none => rfl
    | some a =>
      have hg : t.get? ⟨i, t.slots[i].generation⟩ = some a := by
        rw [get?_eq_some_iff, Array.getElem?_eq_getElem hi, ← hv]
      exact hpq a (mem_records_of_get? hg)
  -- The scans stop at one slot, since no slot tells the tests apart.
  have hindex : t.slots.findIdx? (fun slot => slot.value.any p) =
      t.slots.findIdx? fun slot => slot.value.any q := by
    apply Option.ext
    intro i
    rw [Array.findIdx?_eq_some_iff_getElem, Array.findIdx?_eq_some_iff_getElem]
    constructor
    · rintro ⟨hi, hp, hbefore⟩
      exact ⟨hi, hslot i hi ▸ hp, fun j hj => hslot j (hj.trans hi) ▸ hbefore j hj⟩
    · rintro ⟨hi, hq, hbefore⟩
      exact ⟨hi, (hslot i hi).symm ▸ hq, fun j hj => (hslot j (hj.trans hi)).symm ▸ hbefore j hj⟩
  rw [find?, find?, hindex]

def All (P : α → Prop) (t : SlotTable K α) : Prop :=
  ∀ h a, t.get? h = some a → P a

namespace All

variable {P : α → Prop}

theorem empty (name : String) (capacity : Nat) :
    All P ({ name, capacity } : SlotTable K α) := by
  intro h a hg
  simp [get?] at hg

theorem map_iff {β : Type} {f : α → β} {Q : β → Prop} :
    All Q (t.map f) ↔ t.All fun a => Q (f a) := by
  constructor
  · intro hall h a hg
    exact hall h (f a) (get?_map_of_get? f hg)
  · intro hall h b hg
    rw [get?_map] at hg
    obtain ⟨a, ha, rfl⟩ := Option.map_eq_some_iff.1 hg
    exact hall h a ha

theorem mono {Q : α → Prop} (hall : All P t) (hPQ : ∀ a, P a → Q a) : All Q t :=
  fun h a hg => hPQ a (hall h a hg)

theorem placed (hall : All P t) (hp : Placed t t' h a) (ha : P a) : All P t' := by
  intro k b hk
  rw [hp.get?_eq] at hk
  split at hk
  · cases hk
    exact ha
  · exact hall k b hk

theorem vacated (hall : All P t) (h : Handle K) : All P (t.vacated h) := by
  intro k b hk
  rw [get?_vacated_eq] at hk
  split at hk
  · cases hk
  · exact hall k b hk

theorem modify {f : α → α} (hall : All P t) (hf : ∀ a, P a → P (f a)) (h : Handle K) :
    All P (t.modify h f) := by
  intro k b hk
  rw [get?_modify] at hk
  split at hk
  · obtain ⟨a, ha, rfl⟩ := Option.map_eq_some_iff.1 hk
    exact hf a (hall k a ha)
  · exact hall k b hk

end All

/-- No two live records have the same key. -/
def Unique (key : α → κ) (t : SlotTable K α) : Prop :=
  ∀ h k a b, t.get? h = some a → t.get? k = some b → key a = key b → h = k

namespace Unique

variable {key : α → κ}

theorem empty (name : String) (capacity : Nat) :
    Unique key ({ name, capacity } : SlotTable K α) := by
  intro h k a b hg
  simp [get?] at hg

theorem map_iff {β : Type} {f : α → β} {key : β → κ} :
    Unique key (t.map f) ↔ t.Unique fun a => key (f a) := by
  constructor
  · intro u h k a b ha hb hkey
    exact u h k (f a) (f b) (get?_map_of_get? f ha) (get?_map_of_get? f hb) hkey
  · intro u h k a' b' ha hb hkey
    rw [get?_map] at ha hb
    obtain ⟨a, hga, rfl⟩ := Option.map_eq_some_iff.1 ha
    obtain ⟨b, hgb, rfl⟩ := Option.map_eq_some_iff.1 hb
    exact u h k a b hga hgb hkey

theorem placed (u : Unique key t) (hp : Placed t t' h a) (new : t.All fun b => key b ≠ key a) :
    Unique key t' := by
  intro i j b c hi hj hkey
  rw [hp.get?_eq] at hi hj
  split at hi
  · rename_i hhi
    cases hi
    split at hj
    · rename_i hhj
      rw [← hhi, ← hhj]
    · exact absurd hkey.symm (new j c hj)
  · split at hj
    · cases hj
      exact absurd hkey (new i b hi)
    · exact u i j b c hi hj hkey

theorem vacated (u : Unique key t) (h : Handle K) : Unique key (t.vacated h) := by
  intro i j b c hi hj
  rw [get?_vacated_eq] at hi hj
  split at hi
  · cases hi
  · split at hj
    · cases hj
    · exact u i j b c hi hj

theorem modify {f : α → α} (u : Unique key t) (hf : ∀ a, key (f a) = key a) (h : Handle K) :
    Unique key (t.modify h f) := by
  have hkey : ∀ k b, (t.modify h f).get? k = some b → ∃ a, t.get? k = some a ∧ key b = key a := by
    intro k b hk
    rw [get?_modify] at hk
    split at hk
    · obtain ⟨a, ha, rfl⟩ := Option.map_eq_some_iff.1 hk
      exact ⟨a, ha, hf a⟩
    · exact ⟨b, hk, rfl⟩
  intro i j b c hi hj heq
  obtain ⟨b', hb', hbkey⟩ := hkey i b hi
  obtain ⟨c', hc', hckey⟩ := hkey j c hj
  exact u i j b' c' hb' hc' (hbkey.symm.trans (heq.trans hckey))

/-- A scan that tests for a key finds the one record that has it, if there is one. -/
theorem find?_eq_some_iff {x : κ} (u : Unique key t)
    (hp : ∀ b ∈ t.records, p b = true ↔ key b = x) :
    t.find? p = some h ↔ ∃ a, t.get? h = some a ∧ key a = x := by
  constructor
  · intro hf
    obtain ⟨a, ha, hpa⟩ := get?_of_find? hf
    exact ⟨a, ha, (hp a (mem_records_of_get? ha)).1 hpa⟩
  · rintro ⟨a, ha, rfl⟩
    cases hf : t.find? p with
    | none =>
      have hno := find?_eq_none_iff.1 hf h a ha
      rw [(hp a (mem_records_of_get? ha)).2 rfl] at hno
      cases hno
    | some k =>
      obtain ⟨b, hb, hpb⟩ := get?_of_find? hf
      rw [u k h b a hb ha ((hp b (mem_records_of_get? hb)).1 hpb)]

end Unique

end Sinkhole.SlotTable
