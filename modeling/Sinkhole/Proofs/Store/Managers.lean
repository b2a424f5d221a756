import Sinkhole.Proofs.Slot.Records
import Sinkhole.Proofs.Store.Runs

namespace Sinkhole

open scoped Words

/-- What a client adds to the counts of the alias-client `m`. -/
def Client.share (m : Handle .client) (c : Client) : Counts :=
  if c.manager = some m then c.counts else 0

namespace Client

variable (h k : Handle .client) (c : Client)

theorem history_dismiss : (c.dismiss h).history = c.history := by
  unfold dismiss
  split <;> rfl

theorem isAlias_dismiss : (c.dismiss h).isAlias = c.isAlias := by
  unfold dismiss
  split <;> rfl

theorem counts_dismiss : (c.dismiss h).counts = c.counts := by
  unfold dismiss
  split <;> rfl

theorem manager_dismiss :
    (c.dismiss h).manager = if c.manager = some h then none else c.manager := by
  unfold dismiss
  split <;> rfl

theorem share_dismiss : (c.dismiss h).share k = if k = h then 0 else c.share k := by
  rw [share, share, manager_dismiss, counts_dismiss]
  by_cases hm : c.manager = some h
  · by_cases hk : k = h
    · simp [hm, hk]
    · simp [hm, hk, Ne.symm hk]
  · by_cases hk : k = h <;> simp [hm, hk]

end Client

def SlotTable.shares (t : SlotTable .client Client) (m : Handle .client) : Counts :=
  (t.records.map (Client.share m)).sum

def SlotTable.AliasAt (t : SlotTable .client Client) (m : Handle .client) : Prop :=
  ∃ a, t.get? m = some a ∧ a.isAlias

/-- The clients are in order, and an alias-client has counted `surplus` more than the clients that
it manages. -/
structure Managed (length : ℕ) (surplus : Handle .client → Counts)
    (t : SlotTable .client Client) : Prop where
  wellFormed : t.WellFormed
  length_eq : ∀ {h c}, t.get? h = some c → c.history.length = length
  manager_isAlias : ∀ {h c m}, t.get? h = some c → c.manager = some m → t.AliasAt m
  alias_unmanaged : ∀ {h a}, t.get? h = some a → a.isAlias → a.manager = none
  counts_eq : ∀ {h a}, t.get? h = some a → a.isAlias → a.counts = t.shares h + surplus h

namespace SlotTable

variable {t t' : SlotTable .client Client} {h : Handle .client} {c : Client}

theorem get?_modify_cases {f : Client → Client} {k : Handle .client} {c' : Client}
    (hg : t.get? h = some c) (hk : (t.modify h f).get? k = some c') :
    (k = h ∧ c' = f c) ∨ (k ≠ h ∧ t.get? k = some c') := by
  rw [get?_modify] at hk
  by_cases hh : h = k
  · subst hh
    rw [if_pos rfl, hg] at hk
    exact .inl ⟨rfl, (Option.some.inj hk).symm⟩
  · rw [if_neg hh] at hk
    exact .inr ⟨Ne.symm hh, hk⟩

theorem AliasAt.isAlias (ha : t.AliasAt h) (hg : t.get? h = some c) : c.isAlias := by
  obtain ⟨a, ha, halias⟩ := ha
  rw [hg] at ha
  cases ha
  exact halias

theorem AliasAt.of_get? (ha : t.AliasAt h) (hget : ∀ a, t.get? h = some a → t'.get? h = some a) :
    t'.AliasAt h := by
  obtain ⟨a, ha, halias⟩ := ha
  exact ⟨a, hget a ha, halias⟩

theorem AliasAt.modify {f : Client → Client} {m : Handle .client} (ha : t.AliasAt m)
    (hf : ∀ a, t.get? h = some a → a.isAlias → (f a).isAlias) : (t.modify h f).AliasAt m := by
  obtain ⟨a, ha, halias⟩ := ha
  by_cases hh : h = m
  · subst hh
    exact ⟨f a, by rw [get?_modify, if_pos rfl, ha]; rfl, hf a ha halias⟩
  · exact ⟨a, by rw [get?_modify, if_neg hh, ha], halias⟩

theorem AliasAt.released {m : Handle .client} (ha : t.AliasAt m) (h : Handle .client) :
    (t.released h).AliasAt m := by
  unfold SlotTable.released
  cases hg : t.get? h with
  | none => exact ha
  | some c =>
    cases hm : c.manager with
    | none =>
      simp only [hm]
      exact ha
    | some old =>
      have hexpel : (t.modify old (·.expel c)).AliasAt m := ha.modify fun _ _ halias => halias
      simp only [hm]
      exact hexpel.modify fun _ _ halias => halias

theorem shares_modify (hg : t.get? h = some c) (f : Client → Client) (m : Handle .client) :
    (t.modify h f).shares m = t.shares m - c.share m + (f c).share m := by
  obtain ⟨rest, hrest, hrest'⟩ := records_modify hg f
  simp only [shares, hrest, hrest', Multiset.map_cons, Multiset.sum_cons]
  abel

theorem shares_of_placed (hp : Placed t t' h c) (m : Handle .client) :
    t'.shares m = c.share m + t.shares m := by
  rw [shares, hp.records_eq, Multiset.map_cons, Multiset.sum_cons, shares]

theorem shares_of_vacate (hv : t.vacate? h = some (c, t')) (m : Handle .client) :
    t.shares m = c.share m + t'.shares m := by
  rw [shares, records_vacate hv, Multiset.map_cons, Multiset.sum_cons, shares]

theorem shares_mapLive (t : SlotTable .client Client) {f : Client → Client}
    {m : Handle .client} {g : Counts →+ Counts}
    (hf : ∀ c ∈ t.records, (f c).share m = g (c.share m)) :
    (t.mapLive f).shares m = g (t.shares m) := by
  rw [shares, records_mapLive, Multiset.map_map, shares, map_multiset_sum, Multiset.map_map]
  exact congrArg _ (Multiset.map_congr rfl hf)

end SlotTable

namespace Managed

variable {length : ℕ} {surplus : Handle .client → Counts} {t t' : SlotTable .client Client}
  {h m : Handle .client} {c a : Client} {f : Client → Client}

theorem congr {surplus' : Handle .client → Counts} (i : Managed length surplus t)
    (heq : ∀ k, surplus' k = surplus k) : Managed length surplus' t :=
  (funext heq : surplus' = surplus) ▸ i

theorem modify_member (i : Managed length surplus t) (hg : t.get? h = some c)
    (hc : c.isAlias = false) (hf : (f c).isAlias = false) (hlength : (f c).history.length = length)
    (hmanager : ∀ m, (f c).manager = some m → t.AliasAt m) :
    Managed length (fun k => surplus k + c.share k - (f c).share k) (t.modify h f) := by
  -- The changed client is regular, so no alias-client is lost with it.
  have halias : ∀ {m}, t.AliasAt m → (t.modify h f).AliasAt m := by
    intro m hm
    refine hm.modify fun a ha halias => ?_
    rw [hg] at ha
    cases ha
    rw [hc] at halias
    cases halias
  refine ⟨i.wellFormed.modify h f, fun hk => ?_, fun hk hm => ?_, fun hk ha => ?_, fun hk ha => ?_⟩
  · rcases SlotTable.get?_modify_cases hg hk with ⟨-, rfl⟩ | ⟨-, hk⟩
    · exact hlength
    · exact i.length_eq hk
  · rcases SlotTable.get?_modify_cases hg hk with ⟨-, rfl⟩ | ⟨-, hk⟩
    · exact halias (hmanager _ hm)
    · exact halias (i.manager_isAlias hk hm)
  · rcases SlotTable.get?_modify_cases hg hk with ⟨-, rfl⟩ | ⟨-, hk⟩
    · rw [hf] at ha
      cases ha
    · exact i.alias_unmanaged hk ha
  · rcases SlotTable.get?_modify_cases hg hk with ⟨-, rfl⟩ | ⟨-, hk⟩
    · rw [hf] at ha
      cases ha
    · rw [i.counts_eq hk ha, SlotTable.shares_modify hg]
      abel

theorem modify_alias (i : Managed length surplus t) (hg : t.get? m = some a) (ha : a.isAlias)
    (hf : (f a).isAlias) (hlength : (f a).history.length = length)
    (hmanager : (f a).manager = none) :
    Managed length (fun k => surplus k + if k = m then (f a).counts - a.counts else 0)
      (t.modify m f) := by
  -- An alias-client is managed by no one, so it has no part in any sum.
  have hshares : ∀ k, (t.modify m f).shares k = t.shares k := by
    intro k
    rw [SlotTable.shares_modify hg, Client.share, Client.share, i.alias_unmanaged hg ha, hmanager]
    simp
  refine ⟨i.wellFormed.modify m f, fun hk => ?_, fun hk hm => ?_, fun hk ha => ?_, fun hk ha => ?_⟩
  · rcases SlotTable.get?_modify_cases hg hk with ⟨-, rfl⟩ | ⟨-, hk⟩
    · exact hlength
    · exact i.length_eq hk
  · rcases SlotTable.get?_modify_cases hg hk with ⟨-, rfl⟩ | ⟨-, hk⟩
    · rw [hmanager] at hm
      cases hm
    · refine (i.manager_isAlias hk hm).modify fun b hb _ => ?_
      rw [hg] at hb
      cases hb
      exact hf
  · rcases SlotTable.get?_modify_cases hg hk with ⟨-, rfl⟩ | ⟨-, hk⟩
    · exact hmanager
    · exact i.alias_unmanaged hk ha
  · rcases SlotTable.get?_modify_cases hg hk with ⟨rfl, rfl⟩ | ⟨hne, hk⟩
    · rw [hshares, if_pos rfl, ← add_assoc, ← i.counts_eq hg ‹_›]
      abel
    · rw [hshares, if_neg hne, add_zero, i.counts_eq hk ha]

theorem isAlias_of_manager (i : Managed length surplus t) (hg : t.get? h = some c)
    (hm : c.manager = some m) : c.isAlias = false := by
  by_contra hc
  rw [i.alias_unmanaged hg (Bool.eq_true_of_not_eq_false hc)] at hm
  cases hm

theorem ne_manager (i : Managed length surplus t) (hg : t.get? h = some c)
    (hm : c.manager = some m) : h ≠ m := by
  rintro rfl
  have halias := (i.manager_isAlias hg hm).isAlias hg
  rw [i.isAlias_of_manager hg hm] at halias
  cases halias

theorem charge (i : Managed length 0 t) (h : Handle .client) (δ : CountChange) :
    Managed length 0 (t.charge h δ) := by
  unfold SlotTable.charge
  cases hg : t.get? h with
  | none => exact i
  | some c =>
    by_cases hc : c.isAlias
    · simp only [hc, if_true]
      exact i
    have hlength : ∀ c : Client, c.history.length = length →
        (c.adjust δ).history.length = length ∧ (c.adjust δ).counts = c.counts + δ.counts length := by
      intro c hc
      exact ⟨(c.length_history_adjust δ).trans hc, hc ▸ c.counts_adjust δ⟩
    obtain ⟨hclength, hccounts⟩ := hlength c (i.length_eq hg)
    have hregular : c.isAlias = false := Bool.eq_false_iff.2 hc
    have hmember := i.modify_member (f := (·.adjust δ)) hg hregular hregular hclength
      fun m hm => i.manager_isAlias hg hm
    simp only [hregular, Bool.false_eq_true, if_false]
    cases hm : c.manager with
    | none =>
      refine hmember.congr fun k => ?_
      have hmanager : (c.adjust δ).manager = none := hm
      simp [Client.share, hm, hmanager]
    | some m =>
      obtain ⟨a, ha, halias⟩ := i.manager_isAlias hg hm
      obtain ⟨halength, hacounts⟩ := hlength a (i.length_eq ha)
      have ha' : (t.modify h (·.adjust δ)).get? m = some a := by
        rw [SlotTable.get?_modify, if_neg (i.ne_manager hg hm), ha]
      have hunmanaged := i.alias_unmanaged ha halias
      -- Both records change by the same counts, so the two shifts of the surplus cancel.
      have hboth := hmember.modify_alias (f := (·.adjust δ)) ha' halias halias halength hunmanaged
      refine hboth.congr fun k => ?_
      have hmanager : (c.adjust δ).manager = some m := hm
      simp only [Client.share, hm, hmanager, hccounts, hacounts, Option.some_inj, Pi.zero_apply]
      by_cases hk : k = m
      · simp only [hk, if_true]
        abel
      · simp [hk, Ne.symm hk]

theorem released (i : Managed length 0 t) (h : Handle .client) :
    Managed length 0 (t.released h) := by
  unfold SlotTable.released
  cases hg : t.get? h with
  | none => exact i
  | some c =>
    cases hm : c.manager with
    | none =>
      simp only [hm]
      exact i
    | some m =>
      obtain ⟨a, ha, halias⟩ := i.manager_isAlias hg hm
      have hregular := i.isAlias_of_manager hg hm
      have hlength : c.history.length = a.history.length :=
        (i.length_eq hg).trans (i.length_eq ha).symm
      have hunmanaged := i.alias_unmanaged ha halias
      -- The alias-client gives up the counts first, and is short of them until it is left.
      have hexpel := i.modify_alias (f := (·.expel c)) ha halias halias
        ((a.length_history_expel c).trans (i.length_eq ha)) hunmanaged
      have hg' : (t.modify m (·.expel c)).get? h = some c := by
        rw [SlotTable.get?_modify, if_neg (i.ne_manager hg hm).symm, hg]
      have hclength := i.length_eq hg
      have hboth := hexpel.modify_member (f := ({ · with manager := none })) hg' hregular hregular
        hclength (fun m hm => by cases hm)
      simp only [hm]
      refine hboth.congr fun k => ?_
      simp only [Client.share, hm, Client.counts_expel hlength, Option.some_inj, Pi.zero_apply]
      by_cases hk : k = m
      · simp [hk]
      · simp [hk, Ne.symm hk]

theorem get?_released (i : Managed length 0 t) (hg : t.get? h = some c) :
    (t.released h).get? h = some { c with manager := none } := by
  unfold SlotTable.released
  cases hm : c.manager with
  | none =>
    simp only [hg, hm]
    rw [← hm]
  | some m =>
    simp only [hg, hm]
    rw [SlotTable.get?_modify, if_pos rfl, SlotTable.get?_modify,
      if_neg (i.ne_manager hg hm).symm, hg]
    rfl

theorem managed (i : Managed length 0 t) (h m : Handle .client) :
    Managed length 0 (t.managed h m) := by
  unfold SlotTable.managed
  split
  · rename_i c a hg ha
    split
    · exact i
    · rename_i hallowed
      simp only [Bool.or_eq_true, Bool.not_eq_true', beq_iff_eq, not_or, Bool.not_eq_true,
        Bool.not_eq_false] at hallowed
      obtain ⟨⟨hregular, halias⟩, -⟩ := hallowed
      -- The client is free of its old alias-client before the new one takes over its counts.
      have hfree := i.released h
      obtain ⟨b, hb, hbalias⟩ := SlotTable.AliasAt.released ⟨a, ha, halias⟩ h
      have hgfree := i.get?_released hg
      have hclength := i.length_eq hg
      have hblength := hfree.length_eq hb
      have hunmanaged := hfree.alias_unmanaged hb hbalias
      have habsorb := hfree.modify_alias (f := (·.absorb c)) hb hbalias hbalias
        ((b.length_history_absorb c).trans hblength) hunmanaged
      have hne : m ≠ h := by
        rintro rfl
        rw [hg] at ha
        cases ha
        rw [hregular] at halias
        cases halias
      have hg' : ((t.released h).modify m (·.absorb c)).get? h =
          some { c with manager := none } := by
        rw [SlotTable.get?_modify, if_neg hne, hgfree]
      have hboth := habsorb.modify_member (f := ({ · with manager := some m })) hg' hregular hregular
        hclength (fun m' hm' => by
          cases hm'
          exact SlotTable.AliasAt.modify ⟨b, hb, hbalias⟩ fun _ _ halias => halias)
      refine hboth.congr fun k => ?_
      have hcounts := Client.counts_absorb (hclength.trans hblength.symm)
      simp only [Client.share, hcounts, Option.some_inj, Pi.zero_apply]
      by_cases hk : k = m
      · simp [hk, Client.counts]
      · simp [hk, Ne.symm hk]
  · exact i

theorem describe (i : Managed length 0 t) (h : Handle .client) (keeps : ∀ c, (f c).CountsAs c) :
    Managed length 0 (t.modify h f) := by
  cases hg : t.get? h with
  | none =>
    rw [SlotTable.modify_of_get?_eq_none hg]
    exact i
  | some c =>
    have hf := keeps c
    have hcounts : (f c).counts = c.counts := hf.counts_eq
    have hlength : (f c).history.length = length := hf.history_eq ▸ i.length_eq hg
    cases hc : c.isAlias with
    | true =>
      -- Neither kind of client has its surplus shifted, since the counts stay.
      have hsame := i.modify_alias hg hc (hf.isAlias_eq.trans hc) hlength
        (hf.manager_eq.trans (i.alias_unmanaged hg hc))
      refine hsame.congr fun k => ?_
      simp [hcounts]
    | false =>
      have hsame := i.modify_member hg hc (hf.isAlias_eq.trans hc) hlength fun m hm =>
        i.manager_isAlias hg (hf.manager_eq ▸ hm)
      refine hsame.congr fun k => ?_
      simp [Client.share, hf.manager_eq, hcounts]

theorem mapLive (i : Managed length 0 t) {g : Counts →+ Counts}
    (hcounts : ∀ c, c.history.length = length → (f c).counts = g c.counts)
    (hlength : ∀ c, (f c).history.length = c.history.length)
    (hmanager : ∀ c, (f c).manager = c.manager) (halias : ∀ c, (f c).isAlias = c.isAlias) :
    Managed length 0 (t.mapLive f) := by
  have hget : ∀ {k c'}, (t.mapLive f).get? k = some c' → ∃ c, t.get? k = some c ∧ c' = f c := by
    intro k c' hk
    rw [SlotTable.get?_mapLive] at hk
    obtain ⟨c, hc, rfl⟩ := Option.map_eq_some_iff.1 hk
    exact ⟨c, hc, rfl⟩
  refine ⟨i.wellFormed.mapLive f, fun hk => ?_, fun hk hm => ?_, fun hk ha => ?_, fun hk ha => ?_⟩
  · obtain ⟨c, hc, rfl⟩ := hget hk
    exact (hlength c).trans (i.length_eq hc)
  · obtain ⟨c, hc, rfl⟩ := hget hk
    obtain ⟨a, ha, haalias⟩ := i.manager_isAlias hc (hmanager c ▸ hm)
    exact ⟨f a, by rw [SlotTable.get?_mapLive, ha]; rfl, (halias a).trans haalias⟩
  · obtain ⟨c, hc, rfl⟩ := hget hk
    exact (hmanager c).trans (i.alias_unmanaged hc (halias c ▸ ha))
  · rename_i k _
    obtain ⟨c, hc, rfl⟩ := hget hk
    -- Members have their counts mapped, and of all others the map keeps the zero.
    have hshares := SlotTable.shares_mapLive t (f := f) (m := k) (g := g) fun c hc => by
      obtain ⟨k', hk'⟩ := SlotTable.mem_records.1 hc
      rw [Client.share, Client.share, hmanager, hcounts c (i.length_eq hk')]
      split
      · rfl
      · exact (map_zero g).symm
    rw [hshares, hcounts c (i.length_eq hc), i.counts_eq hc (halias c ▸ ha)]
    simp

theorem describeAll (i : Managed length 0 t) (keeps : ∀ c, (f c).CountsAs c) :
    Managed length 0 (t.mapLive f) := by
  refine i.mapLive (g := AddMonoidHom.id Counts) (fun c _ => (keeps c).counts_eq) (fun c => ?_)
    (fun c => (keeps c).manager_eq) fun c => (keeps c).isAlias_eq
  rw [(keeps c).history_eq]

theorem fold (i : Managed length 0 t) (shift : ℕ) :
    Managed length 0 (t.mapLive (Client.foldHistory shift)) := by
  refine i.mapLive (g := foldCounts (min shift (length - 1))) (fun c hc => ?_)
    (Client.length_history_foldHistory shift) (fun _ => rfl) fun _ => rfl
  rw [Client.counts_foldHistory, hc]

theorem shares_eq_zero (i : Managed length surplus t) (hg : t.get? h = none) : t.shares h = 0 := by
  rw [SlotTable.shares, Multiset.sum_eq_zero]
  intro x hx
  obtain ⟨c, hc, rfl⟩ := Multiset.mem_map.1 hx
  obtain ⟨k, hk⟩ := SlotTable.mem_records.1 hc
  rw [Client.share, if_neg]
  intro hm
  obtain ⟨a, ha, -⟩ := i.manager_isAlias hk hm
  rw [hg] at ha
  cases ha

theorem placed (i : Managed length 0 t) (hp : SlotTable.Placed t t' h c) (w : t'.WellFormed)
    {n : Int64} (hn : c.IsNew length n) (hzero : c.isAlias → n = 0) : Managed length 0 t' := by
  have hold := hp.get?_eq_none
  -- A record is the new one or was there before.
  have hget : ∀ {k c'}, t'.get? k = some c' → (k = h ∧ c' = c) ∨ (k ≠ h ∧ t.get? k = some c') := by
    intro k c' hk
    rw [hp.get?_eq] at hk
    by_cases hh : h = k
    · subst hh
      rw [if_pos rfl] at hk
      exact .inl ⟨rfl, (Option.some.inj hk).symm⟩
    · rw [if_neg hh] at hk
      exact .inr ⟨Ne.symm hh, hk⟩
  -- The new client is managed by no one yet.
  have hshares : ∀ k, t'.shares k = t.shares k := by
    intro k
    rw [SlotTable.shares_of_placed hp, Client.share, hn.manager_eq]
    simp
  refine ⟨w, fun hk => ?_, fun hk hm => ?_, fun hk ha => ?_, fun hk ha => ?_⟩
  · rcases hget hk with ⟨-, rfl⟩ | ⟨-, hk⟩
    · exact hn.length_eq
    · exact i.length_eq hk
  · rcases hget hk with ⟨-, rfl⟩ | ⟨-, hk⟩
    · rw [hn.manager_eq] at hm
      cases hm
    · refine (i.manager_isAlias hk hm).of_get? fun a ha => ?_
      rw [hp.get?_eq, if_neg, ha]
      rintro rfl
      rw [hold] at ha
      cases ha
  · rcases hget hk with ⟨-, rfl⟩ | ⟨-, hk⟩
    · exact hn.manager_eq
    · exact i.alias_unmanaged hk ha
  · rcases hget hk with ⟨rfl, rfl⟩ | ⟨-, hk⟩
    · rw [hshares, i.shares_eq_zero hold, hn.counts_eq, hzero ha]
      rfl
    · rw [hshares]
      exact i.counts_eq hk ha

theorem vacated (i : Managed length surplus t) (hg : t.get? h = some c) (hc : c.manager = none)
    (hnobody : ∀ {k c'}, t.get? k = some c' → c'.manager ≠ some h)
    (hzero : ∀ k, k ≠ h → surplus k = 0) : Managed length 0 (t.vacated h) := by
  have hv := SlotTable.vacate?_of_get? hg
  have hget : ∀ {k c'}, (t.vacated h).get? k = some c' → k ≠ h ∧ t.get? k = some c' := by
    intro k c' hk
    rw [SlotTable.get?_vacate hv] at hk
    by_cases hh : h = k
    · rw [if_pos hh] at hk
      cases hk
    · rw [if_neg hh] at hk
      exact ⟨Ne.symm hh, hk⟩
  -- The client that goes was in no sum.
  have hshares : ∀ k, (t.vacated h).shares k = t.shares k := by
    intro k
    rw [SlotTable.shares_of_vacate hv, Client.share, hc]
    simp
  refine ⟨i.wellFormed.vacate hv, fun hk => i.length_eq (hget hk).2, fun hk hm => ?_,
    fun hk ha => i.alias_unmanaged (hget hk).2 ha, fun hk ha => ?_⟩
  · refine (i.manager_isAlias (hget hk).2 hm).of_get? fun a ha => ?_
    rw [SlotTable.get?_vacate hv, if_neg, ha]
    rintro rfl
    exact hnobody (hget hk).2 hm
  · obtain ⟨hne, hk⟩ := hget hk
    rw [hshares, i.counts_eq hk ha, hzero _ hne]
    rfl

/-- Once nobody is managed by an alias-client, its surplus is all that it has counted. -/
theorem dismissed (i : Managed length 0 t) (h : Handle .client) :
    Managed length (fun k => if k = h then t.shares h else 0) (t.dismissed h) := by
  have hget : ∀ {k c'}, (t.dismissed h).get? k = some c' →
      ∃ c, t.get? k = some c ∧ c' = c.dismiss h := by
    intro k c' hk
    rw [SlotTable.dismissed, SlotTable.get?_mapLive] at hk
    obtain ⟨c, hc, rfl⟩ := Option.map_eq_some_iff.1 hk
    exact ⟨c, hc, rfl⟩
  -- What `h` managed is in no sum any more, and every other sum stays.
  have hshares : ∀ k, (t.dismissed h).shares k = if k = h then 0 else t.shares k := by
    intro k
    by_cases hk : k = h
    · rw [if_pos hk]
      refine (SlotTable.shares_mapLive t (g := 0) fun c _ => ?_).trans rfl
      rw [Client.share_dismiss, if_pos hk]
      rfl
    · rw [if_neg hk]
      refine (SlotTable.shares_mapLive t (g := AddMonoidHom.id Counts) fun c _ => ?_).trans rfl
      rw [Client.share_dismiss, if_neg hk]
      rfl
  refine ⟨i.wellFormed.mapLive _, fun hk => ?_, fun hk hm => ?_, fun hk ha => ?_, fun hk ha => ?_⟩
  · obtain ⟨c, hc, rfl⟩ := hget hk
    rw [Client.history_dismiss]
    exact i.length_eq hc
  · obtain ⟨c, hc, rfl⟩ := hget hk
    rw [Client.manager_dismiss] at hm
    split at hm
    · cases hm
    · obtain ⟨a, ha, halias⟩ := i.manager_isAlias hc hm
      refine ⟨a.dismiss h, by rw [SlotTable.dismissed, SlotTable.get?_mapLive, ha]; rfl, ?_⟩
      rw [Client.isAlias_dismiss]
      exact halias
  · obtain ⟨c, hc, rfl⟩ := hget hk
    rw [Client.isAlias_dismiss] at ha
    rw [Client.manager_dismiss, i.alias_unmanaged hc ha]
    rfl
  · rename_i k _
    obtain ⟨c, hc, rfl⟩ := hget hk
    rw [Client.isAlias_dismiss] at ha
    rw [Client.counts_dismiss, hshares, i.counts_eq hc ha]
    by_cases hk : k = h <;> simp [hk]

theorem withoutClient (i : Managed length 0 t) (h : Handle .client) :
    Managed length 0 (t.withoutClient h) := by
  unfold SlotTable.withoutClient
  cases hg : t.get? h with
  | none => exact i
  | some c =>
    by_cases hc : c.isAlias
    · simp only [hc, if_true]
      have hnone := i.alias_unmanaged hg hc
      -- Only the record that goes has a surplus by then.
      have hg' : (t.dismissed h).get? h = some c := by
        rw [SlotTable.dismissed, SlotTable.get?_mapLive, hg]
        simp [Client.dismiss, hnone]
      refine (i.dismissed h).vacated hg' hnone (fun hk hm => ?_) fun k hk => if_neg hk
      rw [SlotTable.dismissed, SlotTable.get?_mapLive] at hk
      obtain ⟨c', -, rfl⟩ := Option.map_eq_some_iff.1 hk
      rw [Client.manager_dismiss] at hm
      split at hm
      · cases hm
      · exact absurd hm ‹_›
    · simp only [hc, Bool.false_eq_true, if_false]
      have hfree := i.released h
      refine hfree.vacated (i.get?_released hg) rfl (fun hk hm => ?_) fun _ _ => rfl
      have halias := (hfree.manager_isAlias hk hm).isAlias (i.get?_released hg)
      exact hc halias

theorem edit (i : Managed length 0 t) (e : ClientEdit length t t') : Managed length 0 t' := by
  cases e with
  | added put isNew =>
    exact i.placed (SlotTable.placed_of_insert i.wellFormed put) (i.wellFormed.insert put) isNew
      fun _ => rfl
  | described h keeps => exact i.describe h keeps
  | describedAll keeps => exact i.describeAll keeps
  | released h => exact i.released h
  | managed h m => exact i.managed h m

theorem edits (i : Managed length 0 t) (e : Relation.ReflTransGen (ClientEdit length) t t') :
    Managed length 0 t' := by
  induction e with
  | refl => exact i
  | tail _ last ih => exact ih.edit last

end Managed

end Sinkhole
