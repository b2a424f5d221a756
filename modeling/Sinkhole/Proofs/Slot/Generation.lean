import Sinkhole.Proofs.Slot.Records

namespace Sinkhole.SlotTable

variable {K : Kind} {α : Type} {t t' : SlotTable K α} {h k : Handle K} {a : α}

/-- How often a slot was vacated, as a word. A slot that was never used was never vacated. -/
def generationAt (t : SlotTable K α) (index : Nat) : UInt32 :=
  (t.slots[index]?.map (·.generation)).getD 0

/-- Whether a handle was given out: its record lives, or its slot has a later generation. -/
def Issued (t : SlotTable K α) (h : Handle K) : Prop :=
  t.contains h ∨ h.generation < t.generationAt h.index

theorem issued_of_get? (hg : t.get? h = some a) : t.Issued h :=
  .inl (contains_iff.2 ⟨a, hg⟩)

theorem not_issued_empty (name : String) (capacity : Nat) (h : Handle K) :
    ¬ Issued ({ name, capacity } : SlotTable K α) h := by
  rintro (hc | hg)
  · simp [contains, get?] at hc
  · simp [generationAt] at hg

theorem Issued.index_lt (hi : t.Issued h) : h.index < t.highWater := by
  by_contra hlt
  have hnone : t.slots[h.index]? = none := Array.getElem?_eq_none (Nat.le_of_not_lt hlt)
  rcases hi with hc | hg
  · simp [contains, get?, hnone] at hc
  · simp [generationAt, hnone] at hg

theorem generationAt_modify (t : SlotTable K α) (h : Handle K) (f : α → α) (i : Nat) :
    (t.modify h f).generationAt i = t.generationAt i := by
  simp only [generationAt, modify, Array.getElem?_modify]
  split
  · cases t.slots[i]? with
    | none => rfl
    | some slot => simp only [Option.map_some]; split <;> rfl
  · rfl

theorem generationAt_mapLive (t : SlotTable K α) (f : α → α) (i : Nat) :
    (t.mapLive f).generationAt i = t.generationAt i := by
  simp only [generationAt, mapLive, Array.getElem?_map, Option.map_map]
  rfl

theorem contains_modify (t : SlotTable K α) (h k : Handle K) (f : α → α) :
    (t.modify h f).contains k = t.contains k := by
  simp only [contains, get?_modify]
  split <;> simp

theorem contains_mapLive (t : SlotTable K α) (f : α → α) (k : Handle K) :
    (t.mapLive f).contains k = t.contains k := by
  simp [contains, get?_mapLive]

theorem get?_of_not_contains (hdead : t.contains h = false) : t.get? h = none := by
  simpa [contains] using hdead

theorem modify_of_not_contains (hdead : t.contains h = false) (f : α → α) : t.modify h f = t :=
  modify_of_get?_eq_none (get?_of_not_contains hdead) f

theorem not_contains_of_push (put : t.push a = .ok (h, t')) : t.contains h = false := by
  unfold push at put
  split at put
  · rename_i hroom
    cases put
    cases hs : t.slots[t.cursor]? with
    | none => simp [contains, get?, hs]
    | some slot =>
      have hvacant : slot.value = none := by simpa [hasRoom, hs] using hroom
      simp [contains, get?, hs, hvacant]
  · cases put

theorem not_contains_of_insert (put : t.insert a = .ok (h, t')) : t.contains h = false := by
  unfold insert at put
  split at put
  · rename_i index hf
    obtain ⟨g, hs⟩ := slot_of_findIdx? hf
    cases put
    simp [contains, get?, hs]
  · exact not_contains_of_push put

theorem issued_modify {f : α → α} : (t.modify h f).Issued k ↔ t.Issued k := by
  simp only [Issued, contains_modify, generationAt_modify]

theorem issued_mapLive {f : α → α} : (t.mapLive f).Issued k ↔ t.Issued k := by
  simp only [Issued, contains_mapLive, generationAt_mapLive]

namespace Placed

theorem generationAt_eq (hp : Placed t t' h a) (i : Nat) : t'.generationAt i = t.generationAt i := by
  cases hp with
  | filled vacant slots_eq =>
    simp only [generationAt, slots_eq, Array.getElem?_modify]
    split
    · simp [Option.map_map, Function.comp_def]
    · rfl
  | appended index_eq generation_eq slots_eq =>
    simp only [generationAt, slots_eq, Array.getElem?_push]
    split
    · rename_i hi
      simp [hi]
    · rfl

theorem generation_eq (hp : Placed t t' h a) : h.generation = t.generationAt h.index := by
  cases hp with
  | filled vacant slots_eq => simp [generationAt, vacant]
  | appended index_eq generation_eq slots_eq => simp [generationAt, index_eq, generation_eq]

theorem get?_eq_none (hp : Placed t t' h a) : t.get? h = none := by
  cases hp with
  | filled vacant slots_eq => simp [get?, vacant]
  | appended index_eq generation_eq slots_eq => simp [get?, index_eq]

theorem get?_eq (hp : Placed t t' h a) (k : Handle K) :
    t'.get? k = if h = k then some a else t.get? k := by
  cases hp with
  | filled vacant slots_eq => exact get?_fill vacant t' a slots_eq k
  | appended index_eq generation_eq slots_eq =>
    obtain ⟨i, g⟩ := h
    obtain ⟨j, g'⟩ := k
    dsimp only at index_eq generation_eq
    subst index_eq generation_eq
    simp only [get?, slots_eq, Array.getElem?_push, Handle.mk.injEq]
    by_cases hj : j = t.slots.size
    · subst hj
      by_cases hg : 0 = g' <;> simp [hg]
    · simp [hj, Ne.symm hj]

theorem get?_self (hp : Placed t t' h a) : t'.get? h = some a := by
  rw [hp.get?_eq, if_pos rfl]

theorem not_contains (hp : Placed t t' h a) : t.contains h = false := by
  rw [contains, hp.get?_eq_none]
  rfl

theorem ne_of_get? {b : α} (hp : Placed t t' h a) (hk : t.get? k = some b) : h ≠ k := by
  rintro rfl
  rw [hp.get?_eq_none] at hk
  cases hk

theorem get?_of_get? {b : α} (hp : Placed t t' h a) (hk : t.get? k = some b) :
    t'.get? k = some b := by
  rw [hp.get?_eq, if_neg (hp.ne_of_get? hk), hk]

theorem contains_or_eq (hp : Placed t t' h a) (hk : t'.contains k) : t.contains k ∨ k = h := by
  rw [contains, hp.get?_eq] at hk
  split at hk
  · rename_i heq
    exact .inr heq.symm
  · exact .inl hk

theorem not_issued (hp : Placed t t' h a) : ¬ t.Issued h := by
  rintro (hc | hg)
  · rw [hp.not_contains] at hc
    cases hc
  · rw [hp.generation_eq] at hg
    exact Nat.lt_irrefl _ hg

theorem issued_iff (hp : Placed t t' h a) : t'.Issued k ↔ k = h ∨ t.Issued k := by
  simp only [Issued, contains, hp.get?_eq, hp.generationAt_eq]
  by_cases hk : h = k
  · simp [hk]
  · simp [hk, Ne.symm hk]

end Placed

theorem generationAt_vacate (hv : t.vacate? h = some (a, t')) (i : Nat) :
    t'.generationAt i = if h.index = i then t.generationAt i + 1 else t.generationAt i := by
  have hs := get?_eq_some_iff.1 (get?_vacated hv)
  obtain ⟨b, -, hbt⟩ := Option.map_eq_some_iff.1 hv
  cases hbt
  simp only [generationAt, Array.getElem?_modify]
  split
  · rename_i hi
    subst hi
    simp [hs]
  · rfl

theorem issued_vacate (hv : t.vacate? h = some (a, t'))
    (hroom : (t.generationAt h.index).toNat + 1 < 2 ^ 32) : t'.Issued k ↔ t.Issued k := by
  have hlive : h.generation = t.generationAt h.index := by
    simp [generationAt, get?_eq_some_iff.1 (get?_vacated hv)]
  have hnext : (t.generationAt h.index + 1).toNat = (t.generationAt h.index).toNat + 1 := by
    rw [UInt32.toNat_add]
    exact Nat.mod_eq_of_lt hroom
  simp only [Issued, contains, get?_vacate hv, generationAt_vacate hv]
  -- In the slot of `h` all generations up to its own are past now, and no later one was given out.
  by_cases hi : h.index = k.index
  · rw [if_pos hi, ← hi, UInt32.lt_iff_toNat_lt, UInt32.lt_iff_toNat_lt, hnext]
    by_cases hk : h = k
    · subst hk
      simp [get?_vacated hv, hlive]
    · have hother : t.get? k = none := by
        have hs := get?_eq_some_iff.1 (get?_vacated hv)
        rw [hi] at hs
        have hne : h.generation ≠ k.generation := fun hg => hk (by cases h; cases k; simp_all)
        simp [get?, hs, hne]
      have hne : (k.generation).toNat ≠ (t.generationAt h.index).toNat := fun hg =>
        hk (by
          have := UInt32.toNat_inj.1 hg
          cases h; cases k; simp_all)
      simp only [if_neg hk, hother, Option.isSome_none, Bool.false_eq_true, false_or]
      omega
  · have hk : h ≠ k := fun hk => hi (congrArg _ hk)
    simp [hi, hk]

theorem Issued.ne_of_placed (hi : t.Issued k) (hp : Placed t t' h a) : h ≠ k := by
  rintro rfl
  exact hp.not_issued hi

/-- Every record of `t` still lives in `t'`, which may have more. -/
structure Extends (t t' : SlotTable K α) : Prop where
  contains : ∀ k, t.contains k → t'.contains k
  generationAt_eq : ∀ i, t'.generationAt i = t.generationAt i

namespace Extends

theorem refl (t : SlotTable K α) : Extends t t :=
  ⟨fun _ hk => hk, fun _ => rfl⟩

theorem trans {t'' : SlotTable K α} (e : Extends t t') (e' : Extends t' t'') : Extends t t'' :=
  ⟨fun k hk => e'.contains k (e.contains k hk),
    fun i => (e'.generationAt_eq i).trans (e.generationAt_eq i)⟩

theorem modify (t : SlotTable K α) (h : Handle K) (f : α → α) : Extends t (t.modify h f) :=
  ⟨fun k hk => by rwa [contains_modify], generationAt_modify t h f⟩

theorem mapLive (t : SlotTable K α) (f : α → α) : Extends t (t.mapLive f) :=
  ⟨fun k hk => by rwa [contains_mapLive], generationAt_mapLive t f⟩

theorem of_placed (hp : Placed t t' h a) : Extends t t' where
  contains k hk := by
    rw [SlotTable.contains, hp.get?_eq]
    split
    · rfl
    · exact hk
  generationAt_eq := hp.generationAt_eq

end Extends

theorem contains_of_find? {p : α → Bool} (hf : t.find? p = some h) : t.contains h := by
  obtain ⟨i, -, hi⟩ := Option.bind_eq_some_iff.1 hf
  unfold occupant? at hi
  split at hi
  · rename_i g a hs
    cases hi
    exact contains_iff.2 ⟨a, get?_eq_some_iff.2 hs⟩
  · cases hi

end Sinkhole.SlotTable
