import Sinkhole.Proofs.Store.Charges

namespace Sinkhole

open SlotTable
open scoped Words

def Domain.counts (d : Domain) : Int64 × Int64 :=
  (d.count, d.blocked)

/-- What a query adds to the counts of its domain. -/
def Query.domainCharge (q : Query) : Handle .domain × Int64 × Int64 :=
  (q.domain, 1, if q.status.isBlocked then 1 else 0)

def domainCharges (qs : Multiset Query) (ms : List Mark) :
    Multiset (Handle .domain × Int64 × Int64) :=
  charges Query.domainCharge Mark.domainCall? (1, 0) qs ms

section
variable (q : Query) (qs : Multiset Query) (ms : List Mark)

theorem domainCharges_cons :
    domainCharges (q ::ₘ qs) ms = q.domainCharge ::ₘ domainCharges qs ms :=
  charges_cons _ _ _ _ _ _

theorem domainCharges_counted (h : Handle .domain) :
    domainCharges qs (ms ++ [.domainCounted h]) = (h, 1, 0) ::ₘ domainCharges qs ms :=
  charges_called _ _ _ _ _ rfl

theorem domainCharges_uncounted {m : Option Mark} (hm : m.bind Mark.domainCall? = none) :
    domainCharges qs (ms ++ m.toList) = domainCharges qs ms :=
  charges_append _ _ _ _ _ hm

end

/-- The domains hold their charges. -/
abbrev DomainsBooked (t : SlotTable .domain Domain)
    (xs : Multiset (Handle .domain × Int64 × Int64)) :
    Prop :=
  Booked Domain.counts (fun _ => True) t xs

namespace Store

variable {s s' : Store} {ms : List Mark}

theorem domainsBooked_of_edits {t t' : SlotTable .domain Domain}
    {xs : Multiset (Handle .domain × Int64 × Int64)} (w : t.WellFormed)
    (b : DomainsBooked t xs) (e : Relation.ReflTransGen DomainEdit t t') : DomainsBooked t' xs := by
  induction e with
  | refl => exact b
  | tail first last ih =>
    cases last with
    | added put count_eq blocked_eq =>
      have w' := wellFormed_of_edits DomainEdit.wellFormed w first
      refine (ih.placed (placed_of_insert w' put) (g := 0) ?_).drop
      rw [Domain.counts, count_eq, blocked_eq]
      rfl

theorem domainsBooked_of_quiet (w : s.WellFormed)
    (b : DomainsBooked s.domains (domainCharges s.queries.records ms)) (q : Quiet s s') :
    DomainsBooked s'.domains (domainCharges s'.queries.records ms) := by
  have hqueries : s'.queries.records.map Query.domainCharge =
      s.queries.records.map Query.domainCharge := by
    refine map_records_of_edits (fun h => ?_) q.queries
    rw [Query.domainCharge, Query.domainCharge, h.domain_eq, h.status_eq]
  rw [domainCharges, charges, hqueries]
  exact domainsBooked_of_edits w.domains b q.domains

theorem addBlocked_charge {t : SlotTable .domain Domain}
    {xs : Multiset (Handle .domain × Int64 × Int64)} {h : Handle .domain} {a c : Int64}
    (b : DomainsBooked t ((h, a, c) ::ₘ xs)) (n : Int64) :
    DomainsBooked (t.modify h (·.addBlocked n)) ((h, a, n + c) ::ₘ xs) := by
  have hcounts : ∀ d : Domain, (d.addBlocked n).counts = d.counts + (0, n) := fun d =>
    Prod.ext (add_zero d.count).symm rfl
  have hcharge := (b.modify_charge (b.issued _ (Multiset.mem_cons_self _ _)) fun d _ _ =>
    ⟨trivial, hcounts d⟩).merge
  rwa [Prod.mk_add_mk, zero_add] at hcharge

/-- Each effect keeps the domains right, as long as no removal makes a generation wrap round. -/
theorem domainsBooked_of_effect (w : s.WellFormed) {c : Command} {m : Option Mark}
    (hfirst : c.isFirst = false)
    (hroom : ∀ h, m = some (.domainRemoved h) → (s.domains.generationAt h.index).toNat + 1 < 2 ^ 32)
    (b : DomainsBooked s.domains (domainCharges s.queries.records ms)) (e : Effect s c m s') :
    DomainsBooked s'.domains (domainCharges s'.queries.records (ms ++ m.toList)) := by
  cases e with
  | quiet q =>
    rw [domainCharges_uncounted _ _ rfl]
    exact domainsBooked_of_quiet w b q
  | slid | adjusted =>
    rw [domainCharges_uncounted _ _ rfl]
    exact b
  | clientCounted | clientRemoved =>
    rw [domainCharges_uncounted _ _ rfl]
    exact b
  | clientAdded added =>
    obtain ⟨before, put, -, -, after⟩ := added
    have w₁ := before.wellFormed w
    have hbefore := domainsBooked_of_quiet w b before
    rw [domainCharges_uncounted _ _ rfl]
    refine domainsBooked_of_quiet ?_ ?_ after
    · exact ⟨w₁.queries, w₁.domains, w₁.clients.insert put⟩
    · exact hbefore
  | @domainCounted name h s₁ known before live =>
    have hbefore := domainsBooked_of_quiet w b before
    rw [Option.toList_some, domainCharges_counted]
    exact hbefore.modify_charge (.inl live) fun d _ _ =>
      ⟨trivial, Prod.ext rfl (add_zero d.blocked).symm⟩
  | @recorded new q k s₁ queries newDomain newClient before domain client reply_eq put =>
    have hbefore := domainsBooked_of_quiet w b before
    have hcounts : ∀ d : Domain, (d.addQuery (!newDomain) s₁.now).counts = d.counts + (1, 0) :=
      fun d => Prod.ext rfl (add_zero d.blocked).symm
    have hcount := hbefore.modify_charge (.inl domain) fun d _ _ => ⟨trivial, hcounts d⟩
    have hblocked := addBlocked_charge hcount (blockedChange none q.status)
    rw [add_zero, blockedChange_none] at hblocked
    rw [domainCharges_uncounted _ _ rfl]
    simp only [reclassified, blockedShifted, arrivalBooked, arrivalCounted, slid, blockedChange_none]
    rw [records_recorded (before.wellFormed w).queries put, domainCharges_cons]
    exact hblocked
  | @reclassified c query q new known =>
    obtain ⟨rest, hrest, hrest'⟩ := records_modify known ({ · with status := new })
    rw [hrest, domainCharges_cons] at b
    rw [domainCharges_uncounted _ _ rfl]
    simp only [hfirst, Bool.false_eq_true, if_false, reclassified, blockedShifted]
    rw [hrest', domainCharges_cons]
    have hshift := addBlocked_charge b (blockedChange (some q.status) new)
    rw [blockedChange_some] at hshift
    exact hshift
  | @replied query q reply known =>
    obtain ⟨rest, hrest, hrest'⟩ := records_modify known ({ · with reply })
    rw [hrest, domainCharges_cons] at b
    rw [domainCharges_uncounted _ _ rfl]
    simp only [replied]
    rw [hrest', domainCharges_cons]
    exact b
  | @queryRemoved query q queries out =>
    rw [records_vacate out, domainCharges_cons] at b
    have hcounts : ∀ d : Domain, (d.uncount q.status.isBlocked).counts =
        d.counts + (-1, -if q.status.isBlocked then 1 else 0) := by
      intro d
      refine Prod.ext (sub_eq_add_neg d.count 1) ?_
      cases hb : q.status.isBlocked
      · exact (add_zero d.blocked).symm
      · exact sub_eq_add_neg d.blocked 1
    have hcharge := (b.modify_charge (b.issued _ (Multiset.mem_cons_self _ _)) fun d _ _ =>
      ⟨trivial, hcounts d⟩).merge
    -- What the query was charged for and what is taken back add up to nothing.
    rw [Prod.mk_add_mk, neg_add_cancel, neg_add_cancel] at hcharge
    rw [domainCharges_uncounted _ _ rfl]
    exact hcharge.drop
  | @domainRemoved h live =>
    obtain ⟨d, hd⟩ := contains_iff.1 live
    rw [domainCharges_uncounted _ _ rfl]
    exact b.vacated (vacate?_of_get? hd) (hroom h rfl)

end Store

end Sinkhole
