import Sinkhole.Proofs.Store.AliasSums
import Sinkhole.Proofs.Store.Charges
import Sinkhole.Proofs.Store.Tallies

namespace Sinkhole

open SlotTable
open scoped Words

/-- What a query adds to the counts of its client, in the buckets of a window. -/
def Query.clientCharge (w : Window) (q : Query) : Handle .client × Counts :=
  (q.client, 1, if q.status.isBlocked then 1 else 0, fun b => if w.bucketOf q.time = b then 1 else 0)

def clientCharges (w : Window) (qs : Multiset Query) (ms : List Mark) :
    Multiset (Handle .client × Counts) :=
  charges (Query.clientCharge w) Mark.clientCall? (1, 0, 0) qs ms

section
variable (w : Window) (q : Query) (qs : Multiset Query) (ms : List Mark)

theorem clientCharges_cons :
    clientCharges w (q ::ₘ qs) ms = q.clientCharge w ::ₘ clientCharges w qs ms :=
  charges_cons _ _ _ _ _ _

theorem clientCharges_counted (h : Handle .client) :
    clientCharges w qs (ms ++ [.clientCounted h]) = (h, 1, 0, 0) ::ₘ clientCharges w qs ms :=
  charges_called _ _ _ _ _ rfl

theorem clientCharges_uncounted {m : Option Mark} (hm : m.bind Mark.clientCall? = none) :
    clientCharges w qs (ms ++ m.toList) = clientCharges w qs ms :=
  charges_append _ _ _ _ _ hm

end

/-- The regular clients hold their charges. -/
abbrev ClientsBooked (t : SlotTable .client Client) (xs : Multiset (Handle .client × Counts)) :
    Prop :=
  Booked Client.counts (fun c => c.isAlias = false) t xs

theorem counts_of_bucket {b length : ℕ} (hb : b < length) (total blocked n : Int64) :
    CountChange.counts { total, blocked, history := some (b, n) } length =
      (total, blocked, fun b' => if b = b' then n else 0) := by
  refine Prod.ext rfl (Prod.ext rfl (funext fun b' => ?_))
  simp only [CountChange.counts]
  by_cases hbb : b = b'
  · subst hbb
    simp [hb]
  · simp [hbb]

namespace ClientsBooked

variable {length : ℕ} {t t' : SlotTable .client Client} {xs : Multiset (Handle .client × Counts)}
  {h m : Handle .client} {f : Client → Client}

theorem modify_alias (b : ClientsBooked t xs) (hm : t.AliasAt m)
    (hf : ∀ c, (f c).isAlias = c.isAlias) : ClientsBooked (t.modify m f) xs := by
  refine b.modify_keep fun c hc hregular => ?_
  rw [hf, hm.isAlias hc] at hregular
  cases hregular

theorem modify_same (b : ClientsBooked t xs) (halias : ∀ c, (f c).isAlias = c.isAlias)
    (hcounts : ∀ c, (f c).counts = c.counts) : ClientsBooked (t.modify h f) xs :=
  b.modify_keep fun c _ hc => ⟨halias c ▸ hc, hcounts c⟩

theorem describe (b : ClientsBooked t xs) (keeps : ∀ c, (f c).CountsAs c) :
    ClientsBooked (t.modify h f) xs :=
  b.modify_same (fun c => (keeps c).isAlias_eq) fun c => (keeps c).counts_eq

theorem mapLive_same (b : ClientsBooked t xs) (halias : ∀ c, (f c).isAlias = c.isAlias)
    (hcounts : ∀ c, (f c).counts = c.counts) : ClientsBooked (t.mapLive f) xs := by
  have hmap := b.mapLive (f := f) (φ := AddMonoidHom.id Counts) fun _ c _ hc =>
    ⟨halias c ▸ hc, hcounts c⟩
  simpa using hmap

theorem charge (b : ClientsBooked t xs) (i : Managed length 0 t) (hissued : t.Issued h)
    (δ : CountChange) : ClientsBooked (t.charge h δ) ((h, δ.counts length) ::ₘ xs) := by
  unfold SlotTable.charge
  cases hg : t.get? h with
  | none =>
    refine b.unlisted hissued (fun c hc => ?_) _
    rw [hg] at hc
    cases hc
  | some c =>
    by_cases hc : c.isAlias
    · simp only [hc, if_true]
      refine b.unlisted hissued (fun c' hc' => ?_) _
      rw [hg] at hc'
      cases hc'
      simp [hc]
    · simp only [hc, Bool.false_eq_true, if_false]
      -- The client is regular and counts the charge; its alias-client changes without a charge.
      have hcharge : ClientsBooked (t.modify h (·.adjust δ)) ((h, δ.counts length) ::ₘ xs) :=
        b.modify_charge hissued fun c hc hregular =>
          ⟨hregular, i.length_eq hc ▸ c.counts_adjust δ⟩
      cases hm : c.manager with
      | none => exact hcharge
      | some m =>
        have halias : (t.modify h (·.adjust δ)).AliasAt m :=
          (i.manager_isAlias hg hm).modify fun _ _ halias => halias
        exact hcharge.modify_alias halias fun _ => rfl

theorem released (b : ClientsBooked t xs) (i : Managed length 0 t) (h : Handle .client) :
    ClientsBooked (t.released h) xs := by
  unfold SlotTable.released
  cases hg : t.get? h with
  | none => exact b
  | some c =>
    cases hm : c.manager with
    | none =>
      simp only [hm]
      exact b
    | some m =>
      simp only [hm]
      have hexpel : ClientsBooked (t.modify m (·.expel c)) xs :=
        b.modify_alias (i.manager_isAlias hg hm) fun _ => rfl
      exact hexpel.modify_same (fun _ => rfl) fun _ => rfl

theorem managed (b : ClientsBooked t xs) (i : Managed length 0 t) (h m : Handle .client) :
    ClientsBooked (t.managed h m) xs := by
  unfold SlotTable.managed
  split
  · rename_i c a hg ha
    split
    · exact b
    · rename_i hallowed
      have halias : a.isAlias := by
        simp only [Bool.or_eq_true, Bool.not_eq_true', not_or, Bool.not_eq_false] at hallowed
        exact hallowed.1.2
      have hm : (t.released h).AliasAt m := AliasAt.released ⟨a, ha, halias⟩ h
      have habsorb : ClientsBooked ((t.released h).modify m (·.absorb c)) xs :=
        (b.released i h).modify_alias hm fun _ => rfl
      exact habsorb.modify_same (fun _ => rfl) fun _ => rfl
  · exact b

theorem edit (b : ClientsBooked t xs) (i : Managed length 0 t) (e : ClientEdit length t t') :
    ClientsBooked t' xs := by
  cases e with
  | added put isNew =>
    exact (b.placed (placed_of_insert i.wellFormed put) (isNew.counts_eq)).drop
  | described h keeps =>
    exact b.describe keeps
  | describedAll keeps =>
    exact b.mapLive_same (fun c => (keeps c).isAlias_eq) fun c => (keeps c).counts_eq
  | released h => exact b.released i h
  | managed h m => exact b.managed i h m

theorem edits (b : ClientsBooked t xs) (i : Managed length 0 t)
    (e : Relation.ReflTransGen (ClientEdit length) t t') : ClientsBooked t' xs := by
  induction e with
  | refl => exact b
  | tail first last ih => exact ih.edit (i.edits first) last

theorem vacated (b : ClientsBooked t xs) (h : Handle .client)
    (hroom : (t.generationAt h.index).toNat + 1 < 2 ^ 32) : ClientsBooked (t.vacated h) xs := by
  unfold SlotTable.vacated
  cases hv : t.vacate? h with
  | none => exact b
  | some r => exact Booked.vacated b hv hroom

theorem withoutClient (b : ClientsBooked t xs) (i : Managed length 0 t) (h : Handle .client)
    (hroom : (t.generationAt h.index).toNat + 1 < 2 ^ 32) :
    ClientsBooked (t.withoutClient h) xs := by
  unfold SlotTable.withoutClient
  split
  · split
    · have hdismiss : ClientsBooked (t.dismissed h) xs :=
        b.mapLive_same (Client.isAlias_dismiss h) (Client.counts_dismiss h)
      refine hdismiss.vacated h ?_
      rwa [dismissed, generationAt_mapLive]
    · refine (b.released i h).vacated h ?_
      rwa [(Extends.released t h).generationAt_eq]
  · exact b

/-- The history of each client moves along with the window, and so does what is charged to it. -/
theorem slideTo {w : Window} (now : UInt64) {qs : Multiset Query} {ms : List Mark}
    (hwithin : ∀ q ∈ qs, w.intervalOf q.time ≤ w.lastInterval) (i : Managed w.length 0 t)
    (b : ClientsBooked t (clientCharges w qs ms)) :
    ClientsBooked (t.mapLive (Client.foldHistory (w.shiftTo now)))
      (clientCharges (w.slideTo now) qs ms) := by
  have hmap := b.mapLive (φ := foldCounts (min (w.shiftTo now) (w.length - 1)))
    (f := Client.foldHistory (w.shiftTo now)) fun h c hg hc =>
      ⟨hc, i.length_eq hg ▸ c.counts_foldHistory (w.shiftTo now)⟩
  have hcharges : (clientCharges w qs ms).map
      (fun x => (x.1, foldCounts (min (w.shiftTo now) (w.length - 1)) x.2)) =
      clientCharges (w.slideTo now) qs ms := by
    refine charges_map _ _ _ _ _ ?_ fun q hq => ?_
    · exact Prod.ext rfl (Prod.ext rfl (map_zero _))
    · refine Prod.ext rfl (Prod.ext rfl (Prod.ext rfl (funext fun b => ?_)))
      have hplace := w.bucketOf_lt_length q.time
      refine (Row.foldMap_single hplace (1 : Int64) b).trans ?_
      simp only [Query.clientCharge, w.bucketOf_slideTo now q.time (hwithin q hq)]
  rwa [hcharges] at hmap

theorem charge_blocked {a c : Int64} {history : ℕ → Int64} (i : Managed length 0 t)
    (b : ClientsBooked t ((h, a, c, history) ::ₘ xs)) (n : Int64) :
    ClientsBooked (t.charge h { blocked := n }) ((h, a, n + c, history) ::ₘ xs) := by
  have hcharge := (b.charge i (b.issued _ (Multiset.mem_cons_self _ _)) { blocked := n }).merge
  have hcounts : CountChange.counts { blocked := n } length + (a, c, history) =
      (a, n + c, history) := by
    refine Prod.ext (zero_add a) (Prod.ext rfl ?_)
    exact funext fun b => zero_add (history b)
  rwa [hcounts] at hcharge

theorem arrive {w : Window} {q : Query} (i : Managed w.length 0 t) (b : ClientsBooked t xs)
    (hissued : t.Issued q.client) (keeps : ∀ c, (f c).CountsAs c) :
    ClientsBooked
      (((t.charge q.client { total := 1, history := some (w.bucketOf q.time, 1) }).modify q.client
        f).charge q.client { blocked := Store.blockedChange none q.status })
      (q.clientCharge w ::ₘ xs) := by
  have hcharge := b.charge i hissued { total := 1, history := some (w.bucketOf q.time, 1) }
  rw [counts_of_bucket (w.bucketOf_lt_length q.time)] at hcharge
  have hdescribe := hcharge.describe (h := q.client) keeps
  have hblocked := hdescribe.charge_blocked ((i.charge q.client _).describe q.client keeps)
    (Store.blockedChange none q.status)
  rw [add_zero] at hblocked
  rwa [Query.clientCharge, ← blockedChange_none]

theorem leave {w : Window} {q : Query} (i : Managed w.length 0 t)
    (b : ClientsBooked t (q.clientCharge w ::ₘ xs)) :
    ClientsBooked
      (t.charge q.client
        { total := -1
          blocked := if q.status.isBlocked then -1 else 0
          history := some (w.bucketOf q.time, -1) })
      xs := by
  have hcharge := (b.charge i (b.issued _ (Multiset.mem_cons_self _ _))
    { total := -1
      blocked := if q.status.isBlocked then -1 else 0
      history := some (w.bucketOf q.time, -1) }).merge
  -- What is taken back and what was charged cancel out, number by number.
  have hblocked : (if q.status.isBlocked then (-1 : Int64) else 0) +
      (if q.status.isBlocked then 1 else 0) = 0 := by
    rw [ite_neg_one, neg_add_cancel]
  have hhistory : (fun b => if w.bucketOf q.time = b then (-1 : Int64) else 0) +
      (fun b => if w.bucketOf q.time = b then 1 else 0) = 0 := by
    funext b
    by_cases hb : w.bucketOf q.time = b <;> simp [hb]
  rw [counts_of_bucket (w.bucketOf_lt_length q.time), Prod.mk_add_mk, Prod.mk_add_mk, hblocked,
    hhistory, neg_add_cancel] at hcharge
  exact hcharge.drop

end ClientsBooked

namespace Store

variable {s s' : Store} {ms : List Mark}

theorem clientsBooked_of_quiet (i : s.AliasesSum)
    (b : ClientsBooked s.clients (clientCharges s.ledger.window s.queries.records ms))
    (q : Quiet s s') :
    ClientsBooked s'.clients (clientCharges s'.ledger.window s'.queries.records ms) := by
  have hqueries : s'.queries.records.map (Query.clientCharge s.ledger.window) =
      s.queries.records.map (Query.clientCharge s.ledger.window) := by
    refine map_records_of_edits (fun h => ?_) q.queries
    rw [Query.clientCharge, Query.clientCharge, h.client_eq, h.status_eq, h.time_eq]
  rw [q.window_eq, clientCharges, charges, hqueries]
  exact ClientsBooked.edits b i q.clients

theorem clientsBooked_slid (l : s.ledger.Follows s.queries.records) (i : s.AliasesSum)
    (b : ClientsBooked s.clients (clientCharges s.ledger.window s.queries.records ms))
    (now : UInt64) :
    ClientsBooked (s.slid now).clients
      (clientCharges (s.slid now).ledger.window s.queries.records ms) := by
  rw [slid, Ledger.window_slideTo]
  exact ClientsBooked.slideTo now l.within i b

/-- Each effect but a direct change of counts keeps the clients right, as long as no removal makes a
generation wrap round. -/
theorem clientsBooked_of_effect (w : s.WellFormed) {c : Command} {m : Option Mark}
    (hfirst : c.isFirst = false) (hdirect : ∀ h δ, c ≠ .adjustClient h δ)
    (hroom : ∀ h, m = some (.clientRemoved h) → (s.clients.generationAt h.index).toNat + 1 < 2 ^ 32)
    (l : s.ledger.Follows s.queries.records) (i : s.AliasesSum)
    (b : ClientsBooked s.clients (clientCharges s.ledger.window s.queries.records ms))
    (e : Effect s c m s') :
    ClientsBooked s'.clients
      (clientCharges s'.ledger.window s'.queries.records (ms ++ m.toList)) := by
  cases e with
  | quiet q =>
    rw [clientCharges_uncounted _ _ _ rfl]
    exact clientsBooked_of_quiet i b q
  | slid now =>
    rw [clientCharges_uncounted _ _ _ rfl]
    exact clientsBooked_slid l i b now
  | domainCounted known before =>
    rw [clientCharges_uncounted _ _ _ rfl]
    have h := clientsBooked_of_quiet i b before
    exact h
  | @clientCounted address h live =>
    rw [Option.toList_some, clientCharges_counted]
    exact ClientsBooked.charge b i (.inl live) { total := 1 }
  | @clientAdded address h s₂ added =>
    obtain ⟨before, put, isNew, isAlias_eq, after⟩ := added
    have hclients := aliasesSum_of_quiet i before
    have hadded := Booked.placed (clientsBooked_of_quiet i b before)
      (placed_of_insert hclients.wellFormed put) isNew.counts_eq
    rw [← clientCharges_counted] at hadded
    rw [← before.window_eq] at isNew
    rw [Option.toList_some]
    refine clientsBooked_of_quiet ?_ ?_ after
    · exact aliasesSum_insert hclients put isNew isAlias_eq
    · exact hadded
  | @recorded new q k s₁ queries newDomain newClient before domain client reply_eq put =>
    -- The charges are moved along with the window first, then the query is charged in its buckets.
    have hi := aliasesSum_of_quiet i before
    have hslid := clientsBooked_slid (follows_of_quiet l before) hi
      (clientsBooked_of_quiet i b before) q.time
    have harrive := hslid.arrive (aliasesSum_slid hi q.time) (issued_mapLive.2 (.inl client))
      fun c => c.countsAs_noteArrival q.time newClient
    rw [← clientCharges_cons, ← records_recorded (before.wellFormed w).queries put] at harrive
    rw [clientCharges_uncounted _ _ _ rfl]
    exact harrive
  | @reclassified c query q new known =>
    -- Only the charge of the one query changes, so it is taken out of the others and put back.
    obtain ⟨rest, hrest, hrest'⟩ := records_modify known ({ · with status := new })
    rw [hrest, clientCharges_cons] at b
    have hblocked := ClientsBooked.charge_blocked i b (blockedChange (some q.status) new)
    rw [blockedChange_some] at hblocked
    rw [clientCharges_uncounted _ _ _ rfl]
    simp only [hfirst, Bool.false_eq_true, if_false, reclassified, blockedShifted, window_reclassify]
    rw [hrest', clientCharges_cons]
    exact hblocked
  | @replied query q reply known =>
    obtain ⟨rest, hrest, hrest'⟩ := records_modify known ({ · with reply })
    rw [hrest, clientCharges_cons] at b
    rw [clientCharges_uncounted _ _ _ rfl]
    simp only [replied]
    rw [hrest', clientCharges_cons]
    exact b
  | adjusted h δ => exact absurd rfl (hdirect h δ)
  | @queryRemoved query q queries out =>
    rw [records_vacate out, clientCharges_cons] at b
    rw [clientCharges_uncounted _ _ _ rfl]
    exact ClientsBooked.leave i b
  | domainRemoved =>
    rw [clientCharges_uncounted _ _ _ rfl]
    exact b
  | @clientRemoved h live =>
    rw [clientCharges_uncounted _ _ _ rfl]
    exact ClientsBooked.withoutClient b i h (hroom h rfl)

end Store

end Sinkhole
