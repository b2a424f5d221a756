import Sinkhole.Proofs.Slot.Scans
import Sinkhole.Proofs.Store.Specs

namespace Sinkhole.SlotTable

variable {K : Kind} {α : Type} {t : SlotTable K α} {h k : Handle K} {a b : α}

theorem slots_modify_modify {β : Type} (xs : Array β) (i : Nat) (F G : β → β) :
    (xs.modify i F).modify i G = xs.modify i fun x => G (F x) := by
  apply Array.ext_getElem?
  intro j
  simp only [Array.getElem?_modify]
  by_cases hi : i = j <;> simp [hi, Function.comp_def]

theorem slots_modify_comm {β : Type} (xs : Array β) (i j : Nat) {F G : β → β}
    (hFG : i = j → ∀ x, G (F x) = F (G x)) :
    (xs.modify i F).modify j G = (xs.modify j G).modify i F := by
  apply Array.ext_getElem?
  intro n
  simp only [Array.getElem?_modify]
  by_cases hi : i = n
  · by_cases hj : j = n
    · simp [hi, hj, Function.comp_def, hFG (hi.trans hj.symm)]
    · simp [hi, hj]
  · simp [hi]

theorem modify_modify (t : SlotTable K α) (h : Handle K) (f g : α → α) :
    (t.modify h f).modify h g = t.modify h fun a => g (f a) := by
  simp only [modify, slots_modify_modify, mk.injEq, true_and, and_true]
  congr 1
  funext slot
  by_cases hs : slot.generation = h.generation <;> simp [hs, Function.comp_def]

theorem modify_comm (t : SlotTable K α) (h k : Handle K) {f g : α → α}
    (hfg : ∀ a, g (f a) = f (g a)) : (t.modify h f).modify k g = (t.modify k g).modify h f := by
  simp only [modify, mk.injEq, true_and, and_true]
  refine slots_modify_comm _ _ _ fun _ slot => ?_
  -- Both fall on one slot, but each only on the record of its own generation.
  obtain ⟨generation, value⟩ := slot
  by_cases hsame : h.generation = k.generation
  · by_cases hs : generation = k.generation <;> simp [hsame, hs, Function.comp_def, hfg]
  · by_cases hs : generation = h.generation
    · simp [hs, hsame]
    · by_cases hs' : generation = k.generation
      · simp [hs', Ne.symm hsame]
      · simp [hs, hs']

theorem modify_congr {f g : α → α} (hg : t.get? h = some a) (hfg : f a = g a) :
    t.modify h f = t.modify h g := by
  have hslot := get?_eq_some_iff.1 hg
  simp only [modify, mk.injEq, true_and, and_true]
  apply Array.ext_getElem?
  intro i
  simp only [Array.getElem?_modify]
  by_cases hi : h.index = i
  · subst hi
    simp [hslot, hfg]
  · simp [hi]

/-- The table after the record of a handle gave way to another, or to none. -/
def exchanged (t : SlotTable K α) (h : Handle K) : Option α → SlotTable K α
  | some b => t.modify h fun _ => b
  | none => t.vacated h

def slotAfter (h : Handle K) : Option α → Slot α
  | some b => ⟨h.generation, some b⟩
  | none => ⟨h.generation + 1, none⟩

theorem exchanged_eq (hg : t.get? h = some a) (b? : Option α) :
    t.exchanged h b? = { t with
      slots := t.slots.modify h.index fun _ => slotAfter h b?
      live := if b?.isSome then t.live else t.live - 1 } := by
  have hslot := get?_eq_some_iff.1 hg
  -- Of the slot only the record that is there counts, so both changes write the same.
  have hslots : ∀ {F : Slot α → Slot α}, F ⟨h.generation, some a⟩ = slotAfter h b? →
      t.slots.modify h.index F = t.slots.modify h.index fun _ => slotAfter h b? := by
    intro F hF
    apply Array.ext_getElem?
    intro i
    simp only [Array.getElem?_modify]
    by_cases hi : h.index = i
    · subst hi
      simp [hslot, hF]
    · simp [hi]
  cases b? with
  | some b =>
    rw [exchanged, modify, hslots (by simp [slotAfter])]
    rfl
  | none =>
    simp only [exchanged, vacated, vacate?, hg, Option.map_some, Option.getD_some]
    rw [hslots rfl]
    rfl

theorem get?_exchanged (hg : t.get? h = some a) (b? : Option α) (k : Handle K) :
    (t.exchanged h b?).get? k = if h = k then b? else t.get? k := by
  cases b? with
  | some b =>
    rw [exchanged, get?_modify]
    split
    · rename_i hk
      rw [← hk, hg]
      rfl
    · rfl
  | none => exact get?_vacate (vacate?_of_get? hg) k

theorem exchanged_self (hg : t.get? h = some a) : t.exchanged h (some a) = t := by
  have hid : t.modify h (fun _ => a) = t.modify h id := modify_congr hg rfl
  exact hid.trans (modify_eq_self t (fun _ => rfl) h)

theorem exchanged_exchanged (hg : t.get? h = some a) (b : α) (c? : Option α) :
    (t.exchanged h (some b)).exchanged h c? = t.exchanged h c? := by
  have hb : (t.exchanged h (some b)).get? h = some b := by rw [get?_exchanged hg, if_pos rfl]
  rw [exchanged_eq hb, exchanged_eq hg, exchanged_eq hg]
  simp only [mk.injEq, true_and, and_true, Option.isSome_some, if_true]
  apply Array.ext_getElem?
  intro i
  simp only [Array.getElem?_modify]
  by_cases hi : h.index = i <;> simp [hi, Function.comp_def]

theorem exchanged_comm (hne : h ≠ k) (hh : t.get? h = some a) (hk : t.get? k = some b)
    (a? b? : Option α) :
    (t.exchanged h a?).exchanged k b? = (t.exchanged k b?).exchanged h a? := by
  -- Two live records have two slots, so neither change sees the other.
  have hindex : h.index ≠ k.index := fun hindex => hne (eq_of_index_eq hh hk hindex)
  have hh' : (t.exchanged k b?).get? h = some a := by rw [get?_exchanged hk, if_neg hne.symm, hh]
  have hk' : (t.exchanged h a?).get? k = some b := by rw [get?_exchanged hh, if_neg hne, hk]
  rw [exchanged_eq hk', exchanged_eq hh', exchanged_eq hh, exchanged_eq hk]
  simp only [mk.injEq, true_and, and_true]
  constructor
  · apply Array.ext_getElem?
    intro i
    simp only [Array.getElem?_modify]
    by_cases hi : h.index = i
    · subst hi
      simp [hindex.symm]
    · simp [hi]
  · cases a? <;> cases b? <;> rfl

end Sinkhole.SlotTable
