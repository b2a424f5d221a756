import Sinkhole.Proofs.Slot.Generation

namespace Sinkhole.SlotTable

/-- An operation on a table. `look` stands for all that only read. -/
inductive Op (K : Kind) (α : Type) where
  | insert (a : α)
  | push (a : α)
  | vacate (h : Handle K)
  | modify (h : Handle K) (f : α → α)
  | mapLive (f : α → α)
  | look (h : Handle K)

namespace Op

variable {K : Kind} {α : Type}

def record? : Op K α → Option α
  | insert a | push a => some a
  | vacate _ | modify _ _ | mapLive _ | look _ => none

/-- The handle that an operation gives out, and the table after it. -/
def perform (op : Op K α) (t : SlotTable K α) : Option (Handle K) × SlotTable K α :=
  let ofPut (result : Except TableFull (Handle K × SlotTable K α)) :=
    match result with
    | .ok (h, t') => (some h, t')
    | .error _ => (none, t)
  match op with
  | insert a => ofPut (t.insert a)
  | push a => ofPut (t.push a)
  | vacate h => (none, ((t.vacate? h).map (·.2)).getD t)
  | modify h f => (none, t.modify h f)
  | mapLive f => (none, t.mapLive f)
  | look _ => (none, t)

def given? (op : Op K α) (t : SlotTable K α) : Option (Handle K) :=
  (op.perform t).1

def apply (op : Op K α) (t : SlotTable K α) : SlotTable K α :=
  (op.perform t).2

def vacates (op : Op K α) (t : SlotTable K α) (index : Nat) : Bool :=
  match op with
  | vacate h => h.index == index && t.contains h
  | _ => false

/-- What an operation makes of the record that a handle names, whatever the table. -/
def fate (h : Handle K) (a : Option α) : Op K α → Option α
  | vacate k => if k = h then none else a
  | modify k f => if k = h then a.map f else a
  | mapLive f => a.map f
  | insert _ | push _ | look _ => a

def runAll (ops : List (Op K α)) (t : SlotTable K α) : SlotTable K α :=
  ops.foldl (fun t op => op.apply t) t

def given : List (Op K α) → SlotTable K α → List (Handle K)
  | [], _ => []
  | op :: ops, t => (op.given? t).toList ++ given ops (op.apply t)

def vacations (index : Nat) : List (Op K α) → SlotTable K α → Nat
  | [], _ => 0
  | op :: ops, t => (op.vacates t index).toNat + vacations index ops (op.apply t)

/-- What an operation does: it puts a record in, vacates a slot, changes records, or does nothing.
-/
inductive Effect (t : SlotTable K α) : Op K α → Option (Handle K) → SlotTable K α → Prop where
  | put {op : Op K α} {t' : SlotTable K α} (h : Handle K) (a : α) (isPut : op.record? = some a)
      (placed : Placed t t' h a) (wellFormed : t'.WellFormed)
      (capacity_eq : t'.capacity = t.capacity) : Effect t op (some h) t'
  | refused {op : Op K α} (isPut : op.record?.isSome) : Effect t op none t
  | vacated {t' : SlotTable K α} (h : Handle K) (a : α) (out : t.vacate? h = some (a, t')) :
      Effect t (.vacate h) none t'
  | missed (h : Handle K) (gone : t.get? h = none) : Effect t (.vacate h) none t
  | modified (h : Handle K) (f : α → α) : Effect t (.modify h f) none (t.modify h f)
  | mapped (f : α → α) : Effect t (.mapLive f) none (t.mapLive f)
  | looked (h : Handle K) : Effect t (.look h) none t

variable {t : SlotTable K α} {op : Op K α} {ops : List (Op K α)} {h k : Handle K}

theorem capacity_push {a : α} {t' : SlotTable K α} (hp : t.push a = .ok (h, t')) :
    t'.capacity = t.capacity := by
  unfold SlotTable.push at hp
  split at hp
  · cases hp
    rfl
  · cases hp

theorem capacity_insert {a : α} {t' : SlotTable K α} (hi : t.insert a = .ok (h, t')) :
    t'.capacity = t.capacity := by
  unfold SlotTable.insert at hi
  split at hi
  · cases hi
    rfl
  · exact capacity_push hi

theorem effect (w : t.WellFormed) (op : Op K α) : Effect t op (op.given? t) (op.apply t) := by
  cases op with
  | insert a =>
    cases hi : t.insert a with
    | ok r =>
      simp only [given?, apply, perform, hi]
      exact .put r.1 a rfl (placed_of_insert w hi) (w.insert hi) (capacity_insert hi)
    | error full =>
      simp only [given?, apply, perform, hi]
      exact .refused rfl
  | push a =>
    cases hp : t.push a with
    | ok r =>
      simp only [given?, apply, perform, hp]
      exact .put r.1 a rfl (placed_of_push w hp) (w.push hp) (capacity_push hp)
    | error full =>
      simp only [given?, apply, perform, hp]
      exact .refused rfl
  | vacate h =>
    cases hv : t.vacate? h with
    | some r =>
      simp only [given?, apply, perform, hv]
      exact .vacated h r.1 hv
    | none =>
      simp only [given?, apply, perform, hv]
      exact .missed h (vacate?_eq_none_iff.1 hv)
  | modify h f => exact .modified h f
  | mapLive f => exact .mapped f
  | look h => exact .looked h

theorem wellFormed_apply (w : t.WellFormed) (op : Op K α) : (op.apply t).WellFormed := by
  have he := effect w op
  generalize op.apply t = t' at he
  generalize op.given? t = g at he
  cases he with
  | put _ _ _ _ wellFormed => exact wellFormed
  | vacated h a out => exact w.vacate out
  | modified h f => exact w.modify h f
  | mapped f => exact w.mapLive f
  | refused | missed | looked => exact w

theorem capacity_apply (w : t.WellFormed) (op : Op K α) : (op.apply t).capacity = t.capacity := by
  have he := effect w op
  generalize op.apply t = t' at he
  generalize op.given? t = g at he
  cases he with
  | put _ _ _ _ _ capacity_eq => exact capacity_eq
  | vacated h a out =>
    obtain ⟨b, -, hb⟩ := Option.map_eq_some_iff.1 out
    cases hb
    rfl
  | refused | missed | modified | mapped | looked => rfl

theorem vacates_eq_false_of_put {a : α} (isPut : op.record? = some a) (i : Nat) :
    op.vacates t i = false := by
  cases op <;> first | rfl | cases isPut

/-- The generation of a slot counts how often the slot was vacated, until it wraps round. -/
theorem generationAt_apply (w : t.WellFormed) (op : Op K α) {i : Nat}
    (hroom : (t.generationAt i).toNat + (op.vacates t i).toNat < 2 ^ 32) :
    ((op.apply t).generationAt i).toNat = (t.generationAt i).toNat + (op.vacates t i).toNat := by
  have he := effect w op
  generalize op.apply t = t' at he
  generalize op.given? t = g at he
  cases he with
  | put h a isPut placed => simp [vacates_eq_false_of_put isPut, placed.generationAt_eq]
  | refused isPut =>
    obtain ⟨a, ha⟩ := Option.isSome_iff_exists.1 isPut
    simp [vacates_eq_false_of_put ha]
  | vacated h a out =>
    have hc : t.contains h := contains_iff.2 ⟨a, get?_vacated out⟩
    rw [generationAt_vacate out]
    by_cases hi : h.index = i
    · -- The one place where a generation moves, and where it could wrap round.
      simp only [vacates, hi, hc, beq_self_eq_true, Bool.and_self, Bool.toNat_true] at hroom ⊢
      rw [if_pos trivial, UInt32.toNat_add]
      exact Nat.mod_eq_of_lt hroom
    · simp [vacates, hi]
  | missed h gone => simp [vacates, contains, gone]
  | modified h f => simp [vacates, generationAt_modify]
  | mapped f => simp [vacates, generationAt_mapLive]
  | looked h => simp [vacates]

/-- An operation takes back no handle, and gives out the one that it answers. -/
theorem issued_apply (w : t.WellFormed) (op : Op K α)
    (hroom : ∀ i, (t.generationAt i).toNat + (op.vacates t i).toNat < 2 ^ 32) :
    (op.apply t).Issued k ↔ op.given? t = some k ∨ t.Issued k := by
  have he := effect w op
  generalize op.apply t = t' at he
  generalize op.given? t = g at he
  cases he with
  | put h a _ placed => rw [placed.issued_iff, Option.some_inj, eq_comm]
  | vacated h a out =>
    have hc : t.contains h := contains_iff.2 ⟨a, get?_vacated out⟩
    have hh := hroom h.index
    simp only [vacates, hc, beq_self_eq_true, Bool.and_self, Bool.toNat_true] at hh
    simp [issued_vacate out hh]
  | modified h f => simp [issued_modify]
  | mapped f => simp [issued_mapLive]
  | refused | missed | looked => simp

theorem not_issued_of_given (w : t.WellFormed) (hg : op.given? t = some k) : ¬ t.Issued k := by
  have he := effect w op
  rw [hg] at he
  cases he with
  | put _ _ _ placed => exact placed.not_issued

theorem get?_given (w : t.WellFormed) {a : α} (hr : op.record? = some a)
    (hg : op.given? t = some k) : (op.apply t).get? k = some a := by
  have he := effect w op
  rw [hg] at he
  cases he with
  | put _ b isPut placed =>
    rw [hr] at isPut
    cases isPut
    exact placed.get?_self

/-- What an operation does to the record of a handle that was given out before. -/
theorem get?_apply (w : t.WellFormed) (op : Op K α) (hk : t.Issued k) :
    (op.apply t).get? k = fate k (t.get? k) op := by
  have he := effect w op
  generalize op.apply t = t' at he
  generalize op.given? t = g at he
  cases he with
  | @put op t' h a isPut placed =>
    have hfate : fate k (t.get? k) op = t.get? k := by
      cases op <;> first | rfl | cases isPut
    rw [placed.get?_eq, if_neg (hk.ne_of_placed placed), hfate]
  | @refused op isPut => cases op <;> first | rfl | cases isPut
  | vacated h a out => exact get?_vacate out k
  | missed h gone =>
    by_cases hh : h = k
    · simp [fate, hh, ← gone]
    · simp [fate, hh]
  | modified h f => exact get?_modify t h k f
  | mapped f => exact get?_mapLive t f k
  | looked h => rfl

/-- No slot is vacated so often that its generation wraps round. -/
def Unwrapped (ops : List (Op K α)) (t : SlotTable K α) : Prop :=
  ∀ i, (t.generationAt i).toNat + vacations i ops t < 2 ^ 32

theorem Unwrapped.first (hu : Unwrapped (op :: ops) t) (i : Nat) :
    (t.generationAt i).toNat + (op.vacates t i).toNat < 2 ^ 32 := by
  have := hu i
  simp only [vacations] at this
  omega

theorem Unwrapped.rest (w : t.WellFormed) (hu : Unwrapped (op :: ops) t) :
    Unwrapped ops (op.apply t) := by
  intro i
  have := hu i
  simp only [vacations] at this
  rw [generationAt_apply w op (hu.first i)]
  omega

theorem wellFormed_runAll (ops : List (Op K α)) (w : t.WellFormed) : (runAll ops t).WellFormed := by
  induction ops generalizing t with
  | nil => exact w
  | cons op ops ih => exact ih (wellFormed_apply w op)

theorem capacity_runAll (ops : List (Op K α)) (w : t.WellFormed) :
    (runAll ops t).capacity = t.capacity := by
  induction ops generalizing t with
  | nil => rfl
  | cons op ops ih => exact (ih (wellFormed_apply w op)).trans (capacity_apply w op)

theorem vacations_le_length (ops : List (Op K α)) (t : SlotTable K α) (i : Nat) :
    vacations i ops t ≤ ops.length := by
  induction ops generalizing t with
  | nil => exact Nat.le_refl 0
  | cons op ops ih =>
    have hop : (op.vacates t i).toNat ≤ 1 := Bool.toNat_le _
    have hops := ih (op.apply t)
    simp only [vacations, List.length_cons]
    omega

theorem runAll_append (before after : List (Op K α)) (t : SlotTable K α) :
    runAll (before ++ after) t = runAll after (runAll before t) :=
  List.foldl_append

theorem Unwrapped.after (before : List (Op K α)) {after : List (Op K α)} (w : t.WellFormed)
    (hu : Unwrapped (before ++ after) t) : Unwrapped after (runAll before t) := by
  induction before generalizing t with
  | nil => exact hu
  | cons op before ih => exact ih (wellFormed_apply w op) (hu.rest w)

theorem issued_runAll (w : t.WellFormed) (hu : Unwrapped ops t) :
    (runAll ops t).Issued k ↔ k ∈ given ops t ∨ t.Issued k := by
  induction ops generalizing t with
  | nil => simp [runAll, given]
  | cons op ops ih =>
    have hnext := ih (wellFormed_apply w op) (hu.rest w)
    rw [issued_apply w op hu.first] at hnext
    simp only [given, List.mem_append, Option.mem_toList]
    rw [or_assoc, or_left_comm]
    exact hnext

/-- What a run does to the record of a handle does not depend on any other handle. -/
theorem get?_runAll (w : t.WellFormed) (hu : Unwrapped ops t) (hk : t.Issued k) :
    (runAll ops t).get? k = ops.foldl (fate k) (t.get? k) := by
  induction ops generalizing t with
  | nil => rfl
  | cons op ops ih =>
    have hk' : (op.apply t).Issued k := (issued_apply w op hu.first).2 (.inr hk)
    rw [List.foldl_cons, ← get?_apply w op hk]
    exact ih (wellFormed_apply w op) (hu.rest w) hk'

theorem nodup_given (w : t.WellFormed) (hu : Unwrapped ops t) :
    (given ops t).Nodup ∧ ∀ h ∈ given ops t, ¬ t.Issued h := by
  -- A handle of the rest is new to the table after the first operation, and so to the one before.
  induction ops generalizing t with
  | nil => exact ⟨List.nodup_nil, fun h hh => absurd hh List.not_mem_nil⟩
  | cons op ops ih =>
    obtain ⟨hnodup, hfresh⟩ := ih (wellFormed_apply w op) (hu.rest w)
    have hold : ∀ h ∈ given ops (op.apply t), ¬ t.Issued h := fun h hh hi =>
      hfresh h hh ((issued_apply w op hu.first).2 (.inr hi))
    simp only [given]
    cases hg : op.given? t with
    | none => exact ⟨hnodup, hold⟩
    | some h =>
      have hnew : h ∉ given ops (op.apply t) := fun hh =>
        hfresh h hh ((issued_apply w op hu.first).2 (.inl hg))
      refine ⟨List.nodup_cons.2 ⟨hnew, hnodup⟩, fun k hk => ?_⟩
      rcases List.mem_cons.1 hk with rfl | hk
      · exact not_issued_of_given w hg
      · exact hold k hk

end Op

open Op

variable {K : Kind} {α : Type}

/-- Over every run of a table in which no slot is vacated 2 ^ 32 times, a handle resolves to the
record that was put in with it, as changed since, until its slot is vacated, and never again. All
accesses agree on that, no handle is given out twice, a refused record changes nothing, and the
table's counts keep to their bounds. -/
theorem handles_name_their_record (name : String) (capacity : Nat) (ops : List (Op K α))
    (hv : ∀ i, vacations i ops ({ name, capacity } : SlotTable K α) < 2 ^ 32) :
    let start : SlotTable K α := { name, capacity }
    let t := runAll ops start
    (∀ before op after a h, ops = before ++ op :: after → op.record? = some a →
      op.given? (runAll before start) = some h → t.get? h = after.foldl (fate h) (some a)) ∧
    (∀ h, h ∉ given ops start → t.get? h = none) ∧
    (∀ h, t.contains h = (t.get? h).isSome ∧ (t.vacate? h).map (·.1) = t.get? h ∧
      ∀ f, (t.modify h f).get? h = (t.get? h).map f) ∧
    (given ops start).Nodup ∧
    (∀ h ∈ given ops start, h.index < t.highWater ∧ h.index < 2 ^ 32) ∧
    (∀ op : Op K α, op.record?.isSome → op.given? t = none → op.apply t = t) ∧
    t.live = t.entries.length ∧ t.live ≤ t.highWater ∧ t.highWater ≤ capacity ∧
    t.occupancy.free + t.live = t.highWater ∧
    (∀ h, t.contains h → 0 < t.live) := by
  intro start t
  have w₀ : start.WellFormed := wellFormed_empty name capacity
  have hu : Unwrapped ops start := by
    intro i
    simpa [start, generationAt] using hv i
  have w : t.WellFormed := wellFormed_runAll ops w₀
  have hcard : t.live = t.entries.length := by
    rw [← card_records w, records, Multiset.coe_card, List.length_map]
  have hlive : t.live ≤ t.highWater := by
    rw [w.live_eq]
    exact Array.countP_le_size
  have hcapacity : t.capacity = capacity := capacity_runAll ops w₀
  have hknown : ∀ h, t.Issued h ↔ h ∈ given ops start := by
    intro h
    rw [issued_runAll w₀ hu]
    simp [start, not_issued_empty]
  refine ⟨?_, ?_, ?_, (nodup_given w₀ hu).1, ?_, ?_, hcard, hlive, ?_, ?_, ?_⟩
  -- The run is cut at the operation that gave the handle out; the rest of it is the record's fate.
  · intro before op after a h hops hr hg
    have wb : (runAll before start).WellFormed := wellFormed_runAll before w₀
    have hub : Unwrapped (op :: after) (runAll before start) := .after before w₀ (hops ▸ hu)
    have hissued : (op.apply (runAll before start)).Issued h :=
      (issued_apply wb op hub.first).2 (.inl hg)
    have ht : t = runAll after (op.apply (runAll before start)) := by
      simp only [t, hops, runAll_append]
      rfl
    rw [ht, get?_runAll (wellFormed_apply wb op) (hub.rest wb) hissued, get?_given wb hr hg]
  · intro h hh
    by_contra hne
    obtain ⟨a, ha⟩ := Option.ne_none_iff_exists'.1 hne
    exact hh ((hknown h).1 (issued_of_get? ha))
  · refine fun h => ⟨rfl, ?_, fun f => ?_⟩
    · rw [vacate?, Option.map_map]
      exact Option.map_id'
    · rw [get?_modify, if_pos rfl]
  · intro h hh
    have hi : h.index < t.highWater := ((hknown h).2 hh).index_lt
    exact ⟨hi, Nat.lt_trans (Nat.lt_of_lt_of_le hi w.highWater_le_maxIndex) (by decide)⟩
  · intro op isPut hg
    have he := effect w op
    rw [hg] at he
    generalize op.apply t = t' at he
    cases he with
    | refused => rfl
    | vacated | missed | modified | mapped | looked => cases isPut
  · exact hcapacity ▸ w.highWater_le
  · exact Nat.sub_add_cancel hlive
  · intro h hc
    obtain ⟨a, ha⟩ := contains_iff.1 hc
    rw [← card_records w]
    exact Multiset.card_pos_iff_exists_mem.2 ⟨a, mem_records_of_get? ha⟩

/-- A slot that is used again answers its new handle, changed as its record was, and no more the
old one. -/
theorem handles_name_their_record_of_reused_slot :
    let start : SlotTable .domain Nat := { name := "domains", capacity := 2 }
    let before : List (Op .domain Nat) :=
      [.push 7, .insert 10, .modify ⟨1, 0⟩ (· + 1), .vacate ⟨1, 0⟩]
    let after : List (Op .domain Nat) := [.mapLive (2 * ·), .vacate ⟨1, 0⟩, .push 30]
    let ops := before ++ .insert 20 :: after
    (∀ i, vacations i ops start < 2 ^ 32) ∧ (runAll ops start).get? ⟨1, 1⟩ = some 40 := by
  intro start before after ops
  have hv : ∀ i, vacations i ops start < 2 ^ 32 := fun i =>
    Nat.lt_of_le_of_lt (vacations_le_length ops start i) (by decide)
  have hgiven : (Op.insert 20).given? (runAll before start) = some ⟨1, 1⟩ := by decide +kernel
  exact ⟨hv, (handles_name_their_record "domains" 2 ops hv).1 before (.insert 20) after 20 ⟨1, 1⟩
    rfl rfl hgiven⟩

end Sinkhole.SlotTable
