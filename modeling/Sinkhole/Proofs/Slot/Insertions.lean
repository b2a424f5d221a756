import Sinkhole.Proofs.Slot.Scans

namespace Sinkhole.SlotTable

variable {K : Kind} {α β : Type} {t t' t'' : SlotTable K α} {h : Handle K} {a : α}
  {es es' : List (Handle K × α)}

/-- The records that a table has and an earlier one has not, in slot order. -/
def newSince (t' t : SlotTable K α) : List (Handle K × α) :=
  t'.entries.filter fun e => !t.contains e.1

theorem mem_entries : (h, a) ∈ t.entries ↔ t.get? h = some a := by
  rw [entries, List.mem_filterMap, get?_eq_some_iff, ← Array.getElem?_toList]
  constructor
  · rintro ⟨⟨slot, i⟩, hslot, he⟩
    obtain ⟨value, hvalue, heq⟩ := Option.map_eq_some_iff.1 he
    obtain ⟨rfl, rfl⟩ := Prod.mk.inj heq
    rw [List.mem_zipIdx_iff_getElem?] at hslot
    rw [hslot, ← hvalue]
  · intro hslot
    refine ⟨(⟨h.generation, some a⟩, h.index), ?_, rfl⟩
    rw [List.mem_zipIdx_iff_getElem?]
    exact hslot

theorem pairwise_entries (t : SlotTable K α) :
    t.entries.Pairwise fun e e' => e.1.index < e'.1.index := by
  have hindices : t.slots.toList.zipIdx.Pairwise fun x y => x.2 < y.2 := by
    rw [← List.pairwise_map, List.zipIdx_map_snd]
    exact List.pairwise_lt_range'
  refine List.Pairwise.filterMap _ ?_ hindices
  rintro ⟨slot, i⟩ ⟨slot', j⟩ hlt e he e' he'
  obtain ⟨value, -, rfl⟩ := Option.map_eq_some_iff.1 he
  obtain ⟨value', -, rfl⟩ := Option.map_eq_some_iff.1 he'
  exact hlt

theorem mem_newSince : (h, a) ∈ t'.newSince t ↔ t'.get? h = some a ∧ t.contains h = false := by
  rw [newSince, List.mem_filter, mem_entries, Bool.not_eq_true']

theorem newSince_eq_nil (hold : ∀ k, t'.contains k → t.contains k) : t'.newSince t = [] := by
  rw [List.eq_nil_iff_forall_not_mem]
  rintro ⟨k, a⟩ hmem
  obtain ⟨hk, hno⟩ := mem_newSince.1 hmem
  rw [hold k (contains_iff.2 ⟨a, hk⟩)] at hno
  cases hno

theorem newSince_map (f : α → β) (t' t : SlotTable K α) :
    (t'.map f).newSince (t.map f) = (t'.newSince t).map fun e => (e.1, f e.2) := by
  have hentries : (t'.map f).entries = t'.entries.map fun e => (e.1, f e.2) := by
    have hzip : (t'.slots.map (Slot.map f)).toList.zipIdx =
        t'.slots.toList.zipIdx.map (Prod.map (Slot.map f) id) := by
      rw [Array.toList_map, List.zipIdx_map]
    rw [entries, map, hzip, List.filterMap_map, entries, List.map_filterMap]
    congr 1
    funext x
    simp [Slot.map, Function.comp_def]
  rw [newSince, hentries, List.filter_map, newSince]
  simp only [Function.comp_def, contains_map]

/-- A run of insertions, with the records in the order in which they were put in. -/
inductive Inserts (t : SlotTable K α) : List (Handle K × α) → SlotTable K α → Prop where
  | none : Inserts t [] t
  | more {es : List (Handle K × α)} {t' t'' : SlotTable K α} {h : Handle K} {a : α}
      (before : Inserts t es t') (put : t'.insert a = .ok (h, t'')) :
      Inserts t (es ++ [(h, a)]) t''

namespace Inserts

theorem single (put : t.insert a = .ok (h, t')) : Inserts t [(h, a)] t' :=
  .more .none put

theorem trans (i : Inserts t es t') (i' : Inserts t' es' t'') : Inserts t (es ++ es') t'' := by
  induction i' with
  | none =>
    rw [List.append_nil]
    exact i
  | more before put ih =>
    rw [← List.append_assoc]
    exact .more ih put

theorem wellFormed (i : Inserts t es t') (w : t.WellFormed) : t'.WellFormed := by
  induction i with
  | none => exact w
  | more before put ih => exact ih.insert put

theorem map (f : α → β) (i : Inserts t es t') :
    Inserts (t.map f) (es.map fun e => (e.1, f e.2)) (t'.map f) := by
  induction i with
  | none => exact .none
  | more before put ih =>
    rw [List.map_append]
    exact .more ih (insert_map f put)

variable (i : Inserts t es t') (w : t.WellFormed)
include i w

theorem get?_eq_some_iff : t'.get? h = some a ↔ t.get? h = some a ∨ (h, a) ∈ es := by
  induction i with
  | none => simp
  | more before put ih =>
    rename_i es t' t'' k b
    have hp := placed_of_insert (before.wellFormed w) put
    rw [hp.get?_eq, List.mem_append, List.mem_singleton, Prod.mk.injEq]
    by_cases hk : k = h
    · subst hk
      -- What was put in last had no record before, in the table or among the others.
      have hno : ¬ (t.get? k = some a ∨ (k, a) ∈ es) := by
        rw [← ih, hp.get?_eq_none]
        nofun
      rw [if_pos rfl, Option.some_inj]
      constructor
      · intro hb
        exact .inr (.inr ⟨rfl, hb.symm⟩)
      · rintro (hold | hold | ⟨-, hb⟩)
        · exact absurd (.inl hold) hno
        · exact absurd (.inr hold) hno
        · exact hb.symm
    · rw [if_neg hk, ih]
      simp [Ne.symm hk]

theorem not_contains {e : Handle K × α} (he : e ∈ es) : t.contains e.1 = false := by
  induction i with
  | none => cases he
  | more before put ih =>
    rcases List.mem_append.1 he with hold | hlast
    · exact ih hold
    · rw [List.mem_singleton.1 hlast]
      refine Bool.eq_false_of_not_eq_true fun hc => ?_
      obtain ⟨b, hb⟩ := contains_iff.1 hc
      have hp := placed_of_insert (before.wellFormed w) put
      exact hp.ne_of_get? ((before.get?_eq_some_iff w).2 (.inl hb)) rfl

theorem live_below {e : Handle K × α} (he : e ∈ es) {n : Nat} (hn : n ≤ e.1.index) :
    ∃ g b, t'.get? ⟨n, g⟩ = some b := by
  induction i with
  | none => cases he
  | more before put ih =>
    have w' := before.wellFormed w
    have hp := placed_of_insert w' put
    rcases List.mem_append.1 he with hold | hlast
    · obtain ⟨g, b, hb⟩ := ih hold
      exact ⟨g, b, hp.get?_of_get? hb⟩
    · rw [List.mem_singleton.1 hlast] at hn
      rcases Nat.lt_or_eq_of_le hn with hlt | rfl
      · obtain ⟨g, b, hb⟩ := live_below_insert w' put hlt
        exact ⟨g, b, hp.get?_of_get? hb⟩
      · exact ⟨_, _, hp.get?_self⟩

theorem pairwise : es.Pairwise fun e e' => e.1.index < e'.1.index := by
  induction i with
  | none => exact .nil
  | more before put ih =>
    rw [List.pairwise_append]
    refine ⟨ih, List.pairwise_singleton _ _, fun e he e' he' => ?_⟩
    rw [List.mem_singleton.1 he']
    have hp := placed_of_insert (before.wellFormed w) put
    by_contra hle
    obtain ⟨g, b, hb⟩ := before.live_below w he (Nat.le_of_not_lt hle)
    exact hp.index_ne hb rfl

/-- The order of the new records in the table is the order in which they were put in. -/
theorem newSince_eq : t'.newSince t = es := by
  have hlist := i.pairwise w
  have htable : (t'.newSince t).Pairwise fun e e' => e.1.index < e'.1.index :=
    t'.pairwise_entries.filter _
  have hne : ∀ e e' : Handle K × α, e.1.index < e'.1.index → e ≠ e' := by
    rintro e _ hlt rfl
    omega
  have hmem : ∀ e, e ∈ t'.newSince t ↔ e ∈ es := by
    rintro ⟨h, a⟩
    rw [mem_newSince, i.get?_eq_some_iff w]
    constructor
    · rintro ⟨hold | hnew, hno⟩
      · rw [contains_iff.2 ⟨a, hold⟩] at hno
        cases hno
      · exact hnew
    · intro he
      exact ⟨.inr he, i.not_contains w he⟩
  -- Both lists go by slots, so they need only have the same members.
  have hperm : (t'.newSince t).Perm es :=
    (List.perm_ext_iff_of_nodup (htable.imp (hne _ _)) (hlist.imp (hne _ _))).2 hmem
  exact hperm.eq_of_pairwise (fun e e' _ _ hlt hlt' => by omega) htable hlist

end Inserts

/-- Of two insertions, the second fills a higher slot. -/
theorem index_lt_of_insert (w : t.WellFormed) {m : Handle K} {b : α}
    (put : t.insert a = .ok (h, t')) (put' : t'.insert b = .ok (m, t'')) : h.index < m.index := by
  have hpair := (Inserts.more (.single put) put').pairwise w
  simpa using hpair

end Sinkhole.SlotTable
