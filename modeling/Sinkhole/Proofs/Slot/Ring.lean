import Sinkhole.Proofs.Slot.Keys

namespace Sinkhole

/-- A record that was pushed, by its handle and its key, and whether it lives. -/
structure Pushed (K : Kind) (κ : Type) where
  handle : Handle K
  key : κ
  live : Bool
  deriving DecidableEq

namespace Pushed

variable {K : Kind} {κ : Type}

def vacate (h : Handle K) (p : Pushed K κ) : Pushed K κ :=
  if p.handle = h then { p with live := false } else p

theorem handle_vacate (h : Handle K) (p : Pushed K κ) : (p.vacate h).handle = p.handle := by
  unfold vacate
  split <;> rfl

theorem live_vacate (h : Handle K) (p : Pushed K κ) :
    (p.vacate h).live = (p.live && decide (p.handle ≠ h)) := by
  unfold vacate
  split
  · rename_i heq
    simp [heq]
  · rename_i hne
    simp [hne]

theorem key_vacate (h : Handle K) (p : Pushed K κ) : (p.vacate h).key = p.key := by
  unfold vacate
  split <;> rfl

end Pushed

namespace SlotTable

section
variable {K : Kind} {α : Type} {t t' : SlotTable K α} {h : Handle K} {a : α} {full : TableFull}

theorem push_eq_error (hp : t.push a = .error full) : full = t.full ∧ t.hasRoom = false := by
  unfold push at hp
  split at hp
  · cases hp
  · rename_i hroom
    cases hp
    exact ⟨rfl, Bool.eq_false_of_not_eq_true hroom⟩

theorem insert_eq_error (hi : t.insert a = .error full) : full = t.full := by
  unfold insert at hi
  split at hi
  · cases hi
  · exact (push_eq_error hi).1

theorem full_push (hp : t.push a = .ok (h, t')) : t'.full = t.full := by
  unfold push at hp
  split at hp
  · cases hp
    rfl
  · cases hp

theorem full_insert (hi : t.insert a = .ok (h, t')) : t'.full = t.full := by
  unfold insert at hi
  split at hi
  · cases hi
    rfl
  · exact full_push hi

theorem full_vacated (t : SlotTable K α) (h : Handle K) : (t.vacated h).full = t.full := by
  unfold vacated vacate?
  cases t.get? h <;> rfl

end

/-- The slot of the push of an age, the latest being of age 0, after `n` pushes. -/
def slotOf (capacity n age : Nat) : Nat :=
  (n - 1 - age) % capacity

theorem slotOf_succ (capacity n age : Nat) :
    slotOf capacity (n + 1) (age + 1) = slotOf capacity n age := by
  have hindex : n + 1 - 1 - (age + 1) = n - 1 - age := by omega
  rw [slotOf, slotOf, hindex]

/-- Within one revolution no two pushes share a slot. -/
theorem slotOf_ne {capacity n age age' : Nat} (hage : age < age') (hn : age' < n)
    (hcapacity : age' < capacity) : slotOf capacity n age ≠ slotOf capacity n age' := by
  intro heq
  have hmod := Nat.sub_mod_eq_zero_of_mod_eq heq
  have hdistance : n - 1 - age - (n - 1 - age') = age' - age := by omega
  rw [hdistance, Nat.mod_eq_of_lt (by omega)] at hmod
  omega

theorem slotOf_oldest {capacity n : Nat} (hpos : 0 < capacity) (hn : capacity ≤ n) :
    slotOf capacity n (capacity - 1) = n % capacity := by
  have hindex : n - 1 - (capacity - 1) = n - capacity := by omega
  rw [slotOf, hindex, ← Nat.mod_eq_sub_mod hn]

theorem next_mod {capacity n : Nat} (hpos : 0 < capacity) :
    (n + 1) % capacity = if n % capacity + 1 ≥ capacity then 0 else n % capacity + 1 := by
  have hlt := Nat.mod_lt n hpos
  have hdiv := Nat.div_add_mod n capacity
  split
  · have hwhole : n + 1 = capacity * (n / capacity + 1) := by
      rw [Nat.mul_add_one]
      omega
    rw [hwhole, Nat.mul_mod_right]
  · have hsum : n + 1 = capacity * (n / capacity) + (n % capacity + 1) := by omega
    rw [hsum, Nat.mul_add_mod, Nat.mod_eq_of_lt (by omega)]

/-- Going back from the cursor with one wrap leads to the push of that age. -/
theorem back_eq_slotOf {capacity n age : Nat} (hage : age < n) (hcapacity : age < capacity) :
    (n % capacity + min n capacity - (age + 1)) % min n capacity = slotOf capacity n age := by
  unfold slotOf
  rcases Nat.lt_or_ge n capacity with hlt | hge
  · have hindex : n + n - (age + 1) = n - 1 - age + n := by omega
    rw [Nat.min_eq_left (Nat.le_of_lt hlt), Nat.mod_eq_of_lt hlt, hindex, Nat.add_mod_right,
      Nat.mod_eq_of_lt (by omega), Nat.mod_eq_of_lt (by omega)]
  · -- Adding back the whole revolutions of the cursor does not change the slot.
    have hindex : n % capacity + capacity - (age + 1) + capacity * (n / capacity) =
        n - 1 - age + capacity := by
      have hdiv := Nat.mod_add_div n capacity
      omega
    rw [Nat.min_eq_right hge, ← Nat.add_mul_mod_self_left _ capacity (n / capacity), hindex,
      Nat.add_mod_right]

theorem findSome?_range {β γ : Type} {l : List β} {f : Nat → Option γ} {q : β → Bool} {g : β → γ}
    {n : Nat} (hn : n ≤ l.length)
    (hf : ∀ age b, age < n → l[age]? = some b → f age = if q b then some (g b) else none) :
    (List.range n).findSome? f = ((l.take n).find? q).map g := by
  induction n with
  | zero => rfl
  | succ n ih =>
    have hlast : l[n]? = some l[n] := List.getElem?_eq_getElem hn
    have hrest := ih (by omega) fun age b hage => hf age b (by omega)
    rw [List.range_succ, List.findSome?_append, hrest, List.take_add_one, hlast, List.find?_append]
    have hone : f n = if q l[n] then some (g l[n]) else none := hf n l[n] (by omega) hlast
    cases hfound : (l.take n).find? q with
    | some b => rfl
    | none =>
      cases hq : q l[n] <;> simp [hone, hq]

variable {K : Kind} {α κ : Type} {t t' : SlotTable K α} {h : Handle K} {a : α}

/-- What a slot holds of a push that was put into it last. -/
def Shows (key : α → κ) (t : SlotTable K α) (p : Pushed K κ) : Prop :=
  if p.live then ∃ a, t.get? p.handle = some a ∧ key a = p.key
  else ∃ g, t.slots[p.handle.index]? = some ⟨g, none⟩

/-- A table is the ring of a history of pushes, the latest first. -/
structure Rings (key : α → κ) (t : SlotTable K α) (history : List (Pushed K κ)) : Prop where
  size_eq : t.slots.size = min history.length t.capacity
  cursor_eq : t.cursor = history.length % t.capacity
  index_eq : ∀ age p, history[age]? = some p → age < t.capacity →
    p.handle.index = slotOf t.capacity history.length age
  shows : ∀ age p, history[age]? = some p → age < t.capacity → Shows key t p
  past : ∀ age p, history[age]? = some p → t.capacity ≤ age → p.live = false

theorem rings_empty (key : α → κ) (name : String) (capacity : Nat) :
    Rings key ({ name, capacity } : SlotTable K α) [] where
  size_eq := by simp
  cursor_eq := by simp
  index_eq _ _ hp := by simp at hp
  shows _ _ hp := by simp at hp
  past _ _ hp := by simp at hp

namespace Rings

variable {key : α → κ} {history : List (Pushed K κ)}

theorem slotBefore_eq (r : Rings key t history) {age : Nat} (hage : age < t.slots.size) :
    t.slotBefore (age + 1) = slotOf t.capacity history.length age := by
  rw [r.size_eq] at hage
  rw [slotBefore, r.size_eq, r.cursor_eq]
  exact back_eq_slotOf (by omega) (by omega)

theorem age_lt_of_live (r : Rings key t history) {age : Nat} {p : Pushed K κ}
    (hp : history[age]? = some p) (hlive : p.live) : age < t.capacity := by
  by_contra hpast
  rw [r.past age p hp (Nat.le_of_not_lt hpast)] at hlive
  cases hlive

theorem get?_of_live (r : Rings key t history) {age : Nat} {p : Pushed K κ}
    (hp : history[age]? = some p) (hlive : p.live) :
    ∃ a, t.get? p.handle = some a ∧ key a = p.key := by
  have hshows := r.shows age p hp (r.age_lt_of_live hp hlive)
  rwa [Shows, if_pos hlive] at hshows

theorem handle_ne (r : Rings key t history) {age age' : Nat} {p q : Pushed K κ} (hage : age < age')
    (hp : history[age]? = some p) (hq : history[age']? = some q) (hqlive : q.live) :
    p.handle ≠ q.handle := by
  have hrecent := r.age_lt_of_live hq hqlive
  have hne := slotOf_ne hage (List.getElem?_eq_some_iff.1 hq).1 hrecent
  rw [← r.index_eq age p hp (hage.trans hrecent), ← r.index_eq age' q hq hrecent] at hne
  exact fun heq => hne (congrArg Handle.index heq)

/-- A ring has room until its first revolution ends, and then where the push of one revolution ago
was vacated. -/
theorem hasRoom_iff (r : Rings key t history) (hpos : 0 < t.capacity)
    (hmax : t.capacity ≤ maxIndex) :
    t.hasRoom ↔ ∀ p, history[t.capacity - 1]? = some p → p.live = false := by
  rcases Nat.lt_or_ge history.length t.capacity with hlt | hge
  · -- In the first revolution the cursor stands behind the last slot.
    have hvacant : t.slots[t.cursor]? = none := by
      refine Array.getElem?_eq_none ?_
      rw [r.size_eq, r.cursor_eq, Nat.mod_eq_of_lt hlt]
      exact Nat.min_le_left _ _
    have hcursor : t.cursor < t.capacity := by
      rw [r.cursor_eq]
      exact Nat.mod_lt _ hpos
    have hnone : history[t.capacity - 1]? = none := List.getElem?_eq_none (by omega)
    simp [hasRoom, hvacant, hcursor, hnone, Nat.lt_of_lt_of_le hcursor hmax]
  · obtain ⟨p, hp⟩ : ∃ p, history[t.capacity - 1]? = some p :=
      ⟨_, List.getElem?_eq_getElem (by omega)⟩
    -- Later it stands at the slot of the oldest push that is not overwritten.
    have hindex := r.index_eq _ p hp (by omega)
    have hshows := r.shows _ p hp (by omega)
    rw [slotOf_oldest hpos hge, ← r.cursor_eq] at hindex
    unfold Shows at hshows
    cases hlive : p.live with
    | true =>
      simp only [hlive, if_true] at hshows
      obtain ⟨a, ha, -⟩ := hshows
      have hslot := get?_eq_some_iff.1 ha
      rw [hindex] at hslot
      simp [hasRoom, hslot, hp, hlive]
    | false =>
      simp only [hlive, Bool.false_eq_true, if_false] at hshows
      obtain ⟨g, hslot⟩ := hshows
      rw [hindex] at hslot
      simp [hasRoom, hslot, hp, hlive]

theorem shows_of_placed {p : Pushed K κ} (hp : Placed t t' h a) (hshows : Shows key t p)
    (hne : h.index ≠ p.handle.index) : Shows key t' p := by
  unfold Shows at hshows ⊢
  split
  · rename_i hlive
    rw [if_pos hlive] at hshows
    obtain ⟨b, hb, hkey⟩ := hshows
    exact ⟨b, hp.get?_of_get? hb, hkey⟩
  · rename_i hdead
    rw [if_neg hdead] at hshows
    obtain ⟨g, hslot⟩ := hshows
    refine ⟨g, ?_⟩
    cases hp with
    | filled vacant slots_eq => rw [slots_eq, Array.getElem?_modify, if_neg hne, hslot]
    | appended index_eq generation_eq slots_eq =>
      rw [slots_eq, Array.getElem?_push, if_neg (index_eq ▸ hne.symm), hslot]

theorem push (r : Rings key t history) (w : t.WellFormed) (hpos : 0 < t.capacity)
    (hmax : t.capacity ≤ maxIndex) (put : t.push a = .ok (h, t')) :
    Rings key t' (⟨h, key a, true⟩ :: history) := by
  have hplaced := placed_of_push w put
  have hroom : t.hasRoom := by
    by_contra hno
    simp [SlotTable.push, hno] at put
  have hvacated := (r.hasRoom_iff hpos hmax).1 hroom
  obtain ⟨hindex, hcapacity, hcursor, hsize⟩ : h.index = t.cursor ∧ t'.capacity = t.capacity ∧
      t'.cursor = t.nextCursor t.cursor ∧
      t'.slots.size = if t.cursor < t.slots.size then t.slots.size else t.slots.size + 1 := by
    simp only [SlotTable.push, hroom, if_true] at put
    cases put
    refine ⟨rfl, rfl, rfl, ?_⟩
    dsimp only
    split <;> simp
  rw [r.cursor_eq] at hindex
  have hsplit : ∀ age p, (⟨h, key a, true⟩ :: history : List (Pushed K κ))[age]? = some p →
      (age = 0 ∧ p = ⟨h, key a, true⟩) ∨ ∃ older, age = older + 1 ∧ history[older]? = some p := by
    intro age p hp
    cases age with
    | zero => exact .inl ⟨rfl, (Option.some_inj.1 hp).symm⟩
    | succ older => exact .inr ⟨older, rfl, hp⟩
  refine ⟨?_, ?_, fun age p hp hage => ?_, fun age p hp hage => ?_, fun age p hp hage => ?_⟩
  · rw [hsize, hcapacity, r.size_eq, r.cursor_eq, List.length_cons]
    rcases Nat.lt_or_ge history.length t.capacity with hlt | hge
    · rw [Nat.mod_eq_of_lt hlt, if_neg (by omega)]
      omega
    · have hlt := Nat.mod_lt history.length hpos
      rw [if_pos (by omega)]
      omega
  · rw [hcursor, hcapacity, nextCursor, r.cursor_eq, List.length_cons, next_mod hpos]
  · rw [hcapacity, List.length_cons]
    rw [hcapacity] at hage
    rcases hsplit age p hp with ⟨rfl, rfl⟩ | ⟨older, rfl, hq⟩
    · exact hindex
    · rw [slotOf_succ]
      exact r.index_eq older p hq (by omega)
  · rw [hcapacity] at hage
    rcases hsplit age p hp with ⟨rfl, rfl⟩ | ⟨older, rfl, hq⟩
    · exact ⟨a, hplaced.get?_self, rfl⟩
    · have holder : older < history.length := (List.getElem?_eq_some_iff.1 hq).1
      refine shows_of_placed hplaced (r.shows older p hq (by omega)) ?_
      -- The written slot is that of age 0 after the push.
      have hne := slotOf_ne (n := history.length + 1) (Nat.succ_pos older) (by omega) hage
      rw [slotOf_succ, ← r.index_eq older p hq (by omega)] at hne
      rw [hindex]
      exact hne
  · rw [hcapacity] at hage
    rcases hsplit age p hp with ⟨rfl, rfl⟩ | ⟨older, rfl, hq⟩
    · omega
    · rcases Nat.lt_or_ge older t.capacity with hlt | hge
      · have holdest : older = t.capacity - 1 := by omega
        exact hvacated p (holdest ▸ hq)
      · exact r.past older p hq hge

theorem modify {f : α → α} (r : Rings key t history) (hf : ∀ a, key (f a) = key a)
    (h : Handle K) : Rings key (t.modify h f) history where
  size_eq := by
    rw [SlotTable.modify, Array.size_modify]
    exact r.size_eq
  cursor_eq := r.cursor_eq
  index_eq := r.index_eq
  shows age p hp hage := by
    have hshows := r.shows age p hp hage
    unfold Shows at hshows ⊢
    split
    · rename_i hlive
      rw [if_pos hlive] at hshows
      obtain ⟨a, ha, hkey⟩ := hshows
      rw [get?_modify, ha]
      split
      · exact ⟨f a, rfl, (hf a).trans hkey⟩
      · exact ⟨a, rfl, hkey⟩
    · rename_i hdead
      rw [if_neg hdead] at hshows
      obtain ⟨g, hslot⟩ := hshows
      refine ⟨g, ?_⟩
      rw [SlotTable.modify, Array.getElem?_modify, hslot]
      split
      · simp
      · rfl
  past := r.past

theorem vacated (r : Rings key t history) (live : t.contains h) :
    Rings key (t.vacated h) (history.map (Pushed.vacate h)) := by
  obtain ⟨a, ha⟩ := contains_iff.1 live
  have hslot := get?_eq_some_iff.1 ha
  have hv := vacate?_of_get? ha
  obtain ⟨hslots, hcapacity, hcursor⟩ : (t.vacated h).slots =
      t.slots.modify h.index (fun slot => ⟨slot.generation + 1, none⟩) ∧
      (t.vacated h).capacity = t.capacity ∧ (t.vacated h).cursor = t.cursor := by
    simp [SlotTable.vacated, vacate?, ha]
  -- Vacating a handle changes no ages, so what shows at each is compared one by one.
  have hsplit : ∀ (age : Nat) p, (history.map (Pushed.vacate h))[age]? = some p →
      ∃ q, history[age]? = some q ∧ Pushed.vacate h q = p := by
    intro age p hp
    rw [List.getElem?_map] at hp
    exact Option.map_eq_some_iff.1 hp
  refine ⟨?_, ?_, fun age p hp hage => ?_, fun age p hp hage => ?_, fun age p hp hage => ?_⟩
  · rw [hslots, hcapacity, Array.size_modify, List.length_map]
    exact r.size_eq
  · rw [hcursor, hcapacity, List.length_map]
    exact r.cursor_eq
  · obtain ⟨q, hq, rfl⟩ := hsplit age p hp
    rw [hcapacity] at hage ⊢
    rw [List.length_map, Pushed.handle_vacate]
    exact r.index_eq age q hq hage
  · obtain ⟨q, hq, rfl⟩ := hsplit age p hp
    rw [hcapacity] at hage
    have hshows := r.shows age q hq hage
    unfold Shows at hshows ⊢
    rw [Pushed.live_vacate, Pushed.handle_vacate, Pushed.key_vacate]
    by_cases hlive : q.live
    · rw [if_pos hlive] at hshows
      obtain ⟨b, hb, hkey⟩ := hshows
      by_cases heq : q.handle = h
      · rw [heq, hslots, Array.getElem?_modify, hslot]
        simp
      · have hb' : (t.vacated h).get? q.handle = some b := by
          rw [get?_vacated_eq, if_neg (Ne.symm heq), hb]
        simpa [hlive, heq] using ⟨b, hb', hkey⟩
    · rw [if_neg hlive] at hshows
      obtain ⟨g, hg⟩ := hshows
      -- The slot of a dead push is vacant, and so it is not the one of `h`.
      have hne : h.index ≠ q.handle.index := by
        intro heq
        rw [heq, hg] at hslot
        cases hslot
      rw [hslots, Array.getElem?_modify, if_neg hne, hg]
      simp [hlive]
  · obtain ⟨q, hq, rfl⟩ := hsplit age p hp
    rw [hcapacity] at hage
    rw [Pushed.live_vacate, r.past age q hq hage]
    rfl

/-- A search of the last writes is a search of the latest pushes. -/
theorem findRecent?_eq (r : Rings key t history) (window : Nat) (p : κ → Bool) :
    t.findRecent? window (fun a => p (key a)) =
      ((history.take (min window t.slots.size)).find? fun e => e.live && p e.key).map
        (·.handle) := by
  have hsize := r.size_eq
  refine findSome?_range (by omega) fun age e hage he => ?_
  have hcapacity : age < t.capacity := by omega
  have hindex := r.index_eq age e he hcapacity
  have hshows := r.shows age e he hcapacity
  rw [r.slotBefore_eq (by omega), ← hindex]
  -- The slot of a dead push holds no record, and the search passes over it.
  unfold Shows at hshows
  cases hlive : e.live with
  | true =>
    simp only [hlive, if_true] at hshows
    obtain ⟨a, ha, hkey⟩ := hshows
    simp [handleIf?, get?_eq_some_iff.1 ha, hkey]
  | false =>
    simp only [hlive, Bool.false_eq_true, if_false] at hshows
    obtain ⟨g, hslot⟩ := hshows
    simp [handleIf?, hslot]

end Rings

end SlotTable

end Sinkhole
