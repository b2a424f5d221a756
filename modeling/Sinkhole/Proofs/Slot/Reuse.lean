import Mathlib.Order.Bounds.Basic
import Sinkhole.Proofs.Slot.Lifetime
import Sinkhole.Proofs.Slot.Ring
import Sinkhole.Proofs.Slot.Scans

namespace Sinkhole.SlotTable

variable {K : Kind} {α : Type} {t t' : SlotTable K α} {h : Handle K} {a : α} {i : ℕ}

theorem length_entries (w : t.WellFormed) : t.entries.length = t.live := by
  rw [← card_records w, records, Multiset.coe_card, List.length_map]

theorem live_le_highWater (w : t.WellFormed) : t.live ≤ t.highWater := by
  rw [w.live_eq]
  exact Array.countP_le_size

theorem highWater_eq_max (w : t'.WellFormed) (hsize : t'.highWater = t.highWater) :
    t'.highWater = max t.highWater t'.live := by
  have hlive := live_le_highWater w
  rw [hsize] at hlive
  rw [hsize, Nat.max_eq_left hlive]

theorem occupant?_of_get? (hg : t.get? h = some a) : t.occupant? h.index = some h := by
  rw [occupant?, get?_eq_some_iff.1 hg]

theorem occupant?_eq_none_of_le (hi : t.highWater ≤ i) : t.occupant? i = none := by
  rw [occupant?, Array.getElem?_eq_none hi]

theorem Placed.occupant?_eq_none (hp : Placed t t' h a) : t.occupant? h.index = none := by
  cases hp with
  | filled vacant slots_eq => rw [occupant?, vacant]
  | appended index_eq generation_eq slots_eq => exact occupant?_eq_none_of_le index_eq.ge

theorem live_eq_highWater_iff (w : t.WellFormed) :
    t.live = t.highWater ↔ ∀ i < t.highWater, t.occupant? i ≠ none := by
  have hslot : ∀ (i : ℕ) (hi : i < t.slots.size),
      t.occupant? i ≠ none ↔ t.slots[i].value.isSome := by
    intro i hi
    rw [occupant?, Array.getElem?_eq_getElem hi]
    obtain ⟨generation, value⟩ := t.slots[i]
    cases value <;> simp
  rw [w.live_eq, highWater, Array.countP_eq_size]
  constructor
  · exact fun hall i hi => (hslot i hi).2 (hall _ (Array.getElem_mem hi))
  · intro hall slot hslot'
    obtain ⟨i, hi, rfl⟩ := Array.getElem_of_mem hslot'
    exact (hslot i hi).1 (hall i hi)

section
variable (w : t.WellFormed)
include w

theorem live_insert (put : t.insert a = .ok (h, t')) : t'.live = t.live + 1 := by
  rw [← card_records (w.insert put), (placed_of_insert w put).records_eq, Multiset.card_cons,
    card_records w]

/-- An insertion takes the lowest slot without a record. -/
theorem isLeast_insert (put : t.insert a = .ok (h, t')) :
    IsLeast {i | t.occupant? i = none} h.index := by
  refine ⟨(placed_of_insert w put).occupant?_eq_none, fun i hi => ?_⟩
  by_contra hlt
  obtain ⟨g, b, hb⟩ := live_below_insert w put (Nat.lt_of_not_le hlt)
  exact absurd ((occupant?_of_get? hb).symm.trans hi) (Option.some_ne_none _)

theorem highWater_insert (put : t.insert a = .ok (h, t')) :
    t'.highWater = max t.highWater t'.live := by
  cases placed_of_insert w put with
  | filled vacant slots_eq => exact highWater_eq_max (w.insert put) (by simp [highWater, slots_eq])
  | appended index_eq generation_eq slots_eq =>
    have hsize : t'.highWater = t.highWater + 1 := by simp [highWater, slots_eq]
    -- The lowest slot without a record is the one behind all others.
    have hfull : t.live = t.highWater := by
      rw [live_eq_highWater_iff w]
      intro i hi hvacant
      have hle := (isLeast_insert w put).2 hvacant
      rw [index_eq] at hle
      exact Nat.not_lt.2 hle hi
    rw [hsize, live_insert w put, hfull]
    exact (Nat.max_eq_right (Nat.le_succ _)).symm

/-- An insertion is refused if and only if the table has all its records. Until then the cursor
stands behind the last slot, so that there is room to grow. -/
theorem insert_refused_iff (hcapacity : t.capacity ≤ maxIndex) (a : α) :
    (∃ full, t.insert a = .error full) ↔ t.live = t.capacity := by
  constructor
  · rintro ⟨full, hrefused⟩
    unfold insert at hrefused
    split at hrefused
    · cases hrefused
    · rename_i hnone
      -- Without a vacated slot every slot has a record, and the table could still grow.
      have hlive : t.live = t.highWater := by
        rw [w.live_eq, highWater, Array.countP_eq_size]
        intro slot hslot
        have hsome := Array.findIdx?_eq_none_iff.1 hnone slot hslot
        simpa using hsome
      have hroom := (push_eq_error hrefused).2
      by_contra hne
      have hle := w.highWater_le
      have hlt : t.highWater < t.capacity := by omega
      have hend : t.slots[t.cursor]? = none :=
        Array.getElem?_eq_none (w.cursor_eq hlt).ge
      have hrest : t.cursor < t.capacity ∧ t.cursor < maxIndex := by
        rw [w.cursor_eq hlt]
        exact ⟨hlt, Nat.lt_of_lt_of_le hlt hcapacity⟩
      rw [hasRoom, hend] at hroom
      simp [hrest] at hroom
  · intro hfull
    cases put : t.insert a with
    | error full => exact ⟨full, rfl⟩
    | ok r =>
      have hlive := live_insert w put
      have hle := live_le_highWater (w.insert put)
      have hcap := (w.insert put).highWater_le
      rw [Op.capacity_insert put] at hcap
      omega

end

namespace Op

variable {op : Op K α} {ops : List (Op K α)}

def isPush : Op K α → Bool
  | push _ => true
  | _ => false

/-- A table grows only to hold more records than ever before. -/
theorem highWater_apply (w : t.WellFormed) (hop : op.isPush = false) :
    (op.apply t).highWater = max t.highWater (op.apply t).live := by
  -- Only an insertion can make a slot, so the others need not be looked into.
  have hsame : (op.apply t).highWater = t.highWater →
      (op.apply t).highWater = max t.highWater (op.apply t).live :=
    highWater_eq_max (wellFormed_apply w op)
  cases op with
  | push a => cases hop
  | insert a =>
    cases put : t.insert a with
    | ok r =>
      have happly : (Op.insert a).apply t = r.2 := by rw [apply, perform, put]
      rw [happly]
      exact highWater_insert w put
    | error full => exact hsame (by rw [apply, perform, put])
  | vacate h =>
    refine hsame ?_
    cases hv : t.vacate? h with
    | none => rw [apply, perform, hv]; rfl
    | some r =>
      obtain ⟨b, -, rfl⟩ := Option.map_eq_some_iff.1 hv
      simp [apply, perform, hv, highWater]
  | modify h f => exact hsame (by simp [apply, perform, highWater, SlotTable.modify])
  | mapLive f => exact hsame (by simp [apply, perform, highWater, SlotTable.mapLive])
  | look h => exact hsame rfl

/-- A table without records and slots has as many slots in the end as it had records at most. -/
theorem isGreatest_highWater (w : t.WellFormed) (hempty : t.highWater = t.live)
    (hpush : ∀ op ∈ ops, op.isPush = false) :
    IsGreatest {n | ∃ before, before <+: ops ∧ (runAll before t).live = n}
      (runAll ops t).highWater := by
  -- The last operation adds one more state of the run to those that came before.
  induction ops using List.reverseRecOn with
  | nil =>
    refine ⟨⟨[], List.prefix_refl _, hempty.symm⟩, ?_⟩
    rintro n ⟨before, hbefore, rfl⟩
    rw [List.prefix_nil.1 hbefore]
    exact hempty.ge
  | append_singleton ops op ih =>
    have hrun : runAll (ops ++ [op]) t = op.apply (runAll ops t) := runAll_append ops [op] t
    have hstates : {n | ∃ before, before <+: ops ++ [op] ∧ (runAll before t).live = n} =
        Insert.insert (runAll (ops ++ [op]) t).live
          {n | ∃ before, before <+: ops ∧ (runAll before t).live = n} := by
      ext n
      constructor
      · rintro ⟨before, hbefore, rfl⟩
        rcases List.prefix_concat_iff.1 hbefore with rfl | hbefore
        · exact .inl rfl
        · exact .inr ⟨before, hbefore, rfl⟩
      · rintro (rfl | ⟨before, hbefore, rfl⟩)
        · exact ⟨ops ++ [op], List.prefix_refl _, rfl⟩
        · exact ⟨before, hbefore.trans (List.prefix_append ops [op]), rfl⟩
    have hstep := highWater_apply (wellFormed_runAll ops w)
      (hpush op (List.mem_append_right ops (List.mem_singleton_self op)))
    have hbefore := ih fun op hop => hpush op (List.mem_append_left _ hop)
    rw [← hrun, max_comm] at hstep
    rw [hstates, hstep]
    exact hbefore.insert _

theorem get?_runAll_of_contains (w : t.WellFormed) (hlive : t.contains h)
    (hkept : Op.vacate h ∉ ops) :
    (runAll ops t).contains h ∧ (runAll ops t).get? h = ops.foldl (fate h) (t.get? h) := by
  induction ops generalizing t with
  | nil => exact ⟨hlive, rfl⟩
  | cons op ops ih =>
    obtain ⟨hop, hops⟩ := List.ne_and_not_mem_of_not_mem_cons hkept
    obtain ⟨a, ha⟩ := contains_iff.1 hlive
    have hget := get?_apply w op (issued_of_get? ha)
    have hstill : (op.apply t).contains h := by
      rw [contains, hget, ha]
      cases op with
      | vacate k =>
        have hk : k ≠ h := fun hk => hop (hk ▸ rfl)
        simp [fate, hk]
      | modify k f => by_cases hk : k = h <;> simp [fate, hk]
      | insert | push | mapLive | look => rfl
    rw [List.foldl_cons, ← hget]
    exact ih (wellFormed_apply w op) hstill hops

/-- How a run that starts without records uses the slots. The next insertion takes the lowest slot
without a record, and is refused if and only if the table is full of records. A new slot is only
made where every other one has a record, so there are as many as there were records at one time, and
a record stays in its slot. -/
structure ReusesSlots (ops : List (Op K α)) (start : SlotTable K α) : Prop where
  lowest : ∀ a h t', (runAll ops start).insert a = .ok (h, t') →
    IsLeast {i | (runAll ops start).occupant? i = none} h.index ∧ t'.get? h = some a
  refused_iff : ∀ a, (∃ full, (runAll ops start).insert a = .error full) ↔
    (runAll ops start).entries.length = start.capacity
  grows_full : ∀ a h t', (runAll ops start).insert a = .ok (h, t') →
    (runAll ops start).highWater < t'.highWater →
    (runAll ops start).entries.length = (runAll ops start).highWater
  peak : IsGreatest {n | ∃ before, before <+: ops ∧ (runAll before start).entries.length = n}
    (runAll ops start).highWater
  stays : ∀ before after h, ops = before ++ after → (runAll before start).contains h →
    Op.vacate h ∉ after → (runAll ops start).occupant? h.index = some h ∧
      (runAll ops start).get? h = after.foldl (fate h) ((runAll before start).get? h)

theorem reusesSlots (name : String) {capacity : ℕ} (hcapacity : capacity ≤ maxIndex)
    (hpush : ∀ op ∈ ops, op.isPush = false) :
    ReusesSlots ops ({ name, capacity } : SlotTable K α) := by
  have w₀ : WellFormed ({ name, capacity } : SlotTable K α) := wellFormed_empty name capacity
  have w := wellFormed_runAll ops w₀
  have hsize : (runAll ops ({ name, capacity } : SlotTable K α)).capacity = capacity :=
    capacity_runAll ops w₀
  refine ⟨fun a h t' put => ?_, fun a => ?_, fun a h t' put hgrow => ?_, ?_,
    fun before after h hops hlive hkept => ?_⟩
  · exact ⟨isLeast_insert w put, (placed_of_insert w put).get?_self⟩
  · have hrefused := insert_refused_iff w (hsize.trans_le hcapacity) a
    rw [hsize, ← length_entries w] at hrefused
    exact hrefused
  · -- It grows only where each slot has a record, the new one too.
    have hlive := live_insert w put
    have hle := live_le_highWater w
    have hhigh := highWater_insert w put
    rw [length_entries w]
    omega
  · have hpeak := isGreatest_highWater w₀ rfl hpush
    have hlength : ∀ before, (runAll before ({ name, capacity } : SlotTable K α)).entries.length =
        (runAll before ({ name, capacity } : SlotTable K α)).live :=
      fun before => length_entries (wellFormed_runAll before w₀)
    simp only [hlength]
    exact hpeak
  · obtain ⟨hstill, hget⟩ := get?_runAll_of_contains (wellFormed_runAll before w₀) hlive hkept
    rw [← runAll_append, ← hops] at hstill hget
    obtain ⟨b, hb⟩ := contains_iff.1 hstill
    exact ⟨occupant?_of_get? hb, hget⟩

end Op

/-- A table that was never pushed to since it had no records. -/
def Unpushed (name : String) (capacity : ℕ) (t : SlotTable K α) : Prop :=
  ∃ ops : List (Op K α), (∀ op ∈ ops, op.isPush = false) ∧ Op.runAll ops { name, capacity } = t

namespace Unpushed

variable {name : String} {capacity : ℕ}

theorem empty : Unpushed name capacity ({ name, capacity } : SlotTable K α) :=
  ⟨[], by simp, rfl⟩

theorem apply (u : Unpushed name capacity t) {op : Op K α} (hop : op.isPush = false) :
    Unpushed name capacity (op.apply t) := by
  obtain ⟨ops, hpush, rfl⟩ := u
  refine ⟨ops ++ [op], fun op' hop' => ?_, Op.runAll_append ops [op] _⟩
  rcases List.mem_append.1 hop' with hold | hnew
  · exact hpush op' hold
  · rw [List.mem_singleton.1 hnew, hop]

theorem insert (u : Unpushed name capacity t) (put : t.insert a = .ok (h, t')) :
    Unpushed name capacity t' := by
  have happly : (Op.insert a).apply t = t' := by rw [Op.apply, Op.perform, put]
  rw [← happly]
  exact u.apply rfl

theorem vacated (u : Unpushed name capacity t) (h : Handle K) :
    Unpushed name capacity (t.vacated h) := by
  have hop : (Op.vacate h : Op K α).isPush = false := rfl
  exact u.apply hop

theorem modify (u : Unpushed name capacity t) (h : Handle K) (f : α → α) :
    Unpushed name capacity (t.modify h f) := by
  have hop : (Op.modify h f).isPush = false := rfl
  exact u.apply hop

end Unpushed

end Sinkhole.SlotTable
