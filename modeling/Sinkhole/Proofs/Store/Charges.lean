import Sinkhole.Proofs.Slot.Charges
import Sinkhole.Proofs.Store.Runs

namespace Sinkhole

open SlotTable
open scoped Words

theorem blockedChange_none (new : Status) :
    Store.blockedChange none new = if new.isBlocked then 1 else 0 := by
  cases hn : new.isBlocked <;> simp [Store.blockedChange, hn]

theorem blockedChange_some (old new : Status) : Store.blockedChange (some old) new +
    (if old.isBlocked then 1 else 0) = if new.isBlocked then 1 else 0 := by
  cases ho : old.isBlocked <;> cases hn : new.isBlocked <;> simp [Store.blockedChange, ho, hn]

theorem map_records_of_edits {β : Type} {t t' : SlotTable .query Query} {φ : Query → β}
    (hφ : ∀ {q' q}, Query.CountsAs q' q → φ q' = φ q) (e : Relation.ReflTransGen QueryEdit t t') :
    t'.records.map φ = t.records.map φ := by
  induction e with
  | refl => rfl
  | @tail t₁ t₂ _ last ih =>
    cases last with
    | @described f h keeps =>
      cases hg : t₁.get? h with
      | none => rw [modify_of_get?_eq_none hg, ih]
      | some q =>
        obtain ⟨rest, hrest, hrest'⟩ := records_modify hg f
        rw [hrest', Multiset.map_cons, hφ (keeps q), ← Multiset.map_cons, ← hrest, ih]

namespace Mark

def domainCall? : Mark → Option (Handle .domain)
  | domainCounted h => some h
  | _ => none

def clientCall? : Mark → Option (Handle .client)
  | clientCounted h => some h
  | _ => none

theorem count_domainCalls (ms : List Mark) (h : Handle .domain) :
    (ms.filterMap domainCall?).count h = ms.count (domainCounted h) := by
  rw [List.count, List.countP_filterMap, List.count]
  refine List.countP_congr fun m _ => ?_
  cases m <;> simp [domainCall?]

theorem count_clientCalls (ms : List Mark) (h : Handle .client) :
    (ms.filterMap clientCall?).count h = ms.count (clientCounted h) := by
  rw [List.count, List.countP_filterMap, List.count]
  refine List.countP_congr fun m _ => ?_
  cases m <;> simp [clientCall?]

def removesDomainAt (index : ℕ) : Mark → Bool
  | domainRemoved h => h.index = index
  | _ => false

def removesClientAt (index : ℕ) : Mark → Bool
  | clientRemoved h => h.index = index
  | _ => false

end Mark

section
variable {K : Kind} {G : Type} (charge : Query → Handle K × G) (call? : Mark → Option (Handle K))
  (unit : G) (qs : Multiset Query) (ms : List Mark)

/-- One charge for each query, and one unit for each marked call. -/
def charges : Multiset (Handle K × G) :=
  qs.map charge + Multiset.map (fun h => (h, unit)) (ms.filterMap call?)

theorem charges_cons (q : Query) :
    charges charge call? unit (q ::ₘ qs) ms = charge q ::ₘ charges charge call? unit qs ms := by
  rw [charges, Multiset.map_cons, Multiset.cons_add, charges]

theorem charges_called {m : Mark} {h : Handle K} (hm : call? m = some h) :
    charges charge call? unit qs (ms ++ [m]) = (h, unit) ::ₘ charges charge call? unit qs ms := by
  have hcalls : (ms ++ [m]).filterMap call? = ms.filterMap call? ++ [h] := by
    simp [hm]
  rw [charges, hcalls, ← Multiset.coe_add, Multiset.map_add, ← add_assoc, add_comm]
  rfl

theorem charges_map {charge' : Query → Handle K × G} {φ : G → G} (hunit : φ unit = unit)
    (hcharge : ∀ q ∈ qs, ((charge q).1, φ (charge q).2) = charge' q) :
    (charges charge call? unit qs ms).map (fun x => (x.1, φ x.2)) =
      charges charge' call? unit qs ms := by
  simp only [charges, Multiset.map_add, Multiset.map_map, Function.comp_def, hunit]
  rw [Multiset.map_congr rfl hcharge]

theorem charges_append {m : Option Mark} (hm : m.bind call? = none) :
    charges charge call? unit qs (ms ++ m.toList) = charges charge call? unit qs ms := by
  cases m with
  | none => rw [Option.toList_none, List.append_nil]
  | some m =>
    have hm' : call? m = none := hm
    simp [charges, hm']

/-- In each number that is charged, the due of a handle is the number of the queries that charge it
for one, and of the calls as often as one call charges. -/
theorem due_charges [AddCommGroup G] {π : G →+ Int64} {p : Query → Bool} {n : ℕ}
    (hcharge : ∀ q, π (charge q).2 = if p q then 1 else 0) (hunit : π unit = wordOfNat n)
    (h : Handle K) : π (due (charges charge call? unit qs ms) h) =
      wordOfNat (qs.countP (fun q => ((charge q).1 = h && p q) = true) +
        (ms.filterMap call?).count h * n) := by
  -- The queries and the calls are added up on their own, each sum by its handle.
  have hqueries : (qs.map fun q => π (if (charge q).1 = h then (charge q).2 else 0)).sum =
      wordOfNat (qs.countP fun q => ((charge q).1 = h && p q) = true) := by
    refine Eq.trans (congrArg _ (Multiset.map_congr rfl fun q _ => ?_)) (sum_map_ite _ qs)
    rw [apply_ite π, hcharge, map_zero]
    by_cases hq : (charge q).1 = h <;> simp [hq]
  have hcalls : ∀ hs : List (Handle K), (hs.map fun k => π (if k = h then unit else 0)).sum =
      wordOfNat (hs.count h * n) := by
    intro hs
    induction hs with
    | nil => rw [List.count_nil, Nat.zero_mul, map_zero, List.map_nil, List.sum_nil]
    | cons k hs ih =>
      rw [List.map_cons, List.sum_cons, ih, List.count_cons]
      by_cases hk : k = h
      · subst hk
        rw [if_pos rfl, hunit, ← map_add, beq_self_eq_true, if_pos rfl, Nat.add_one_mul,
          Nat.add_comm]
      · simp [hk]
  rw [due, map_multiset_sum, charges, Multiset.map_map, Multiset.map_add, Multiset.sum_add,
    Multiset.map_map, map_add, ← hqueries, ← hcalls]
  simp only [Function.comp_def, Multiset.map_coe, Multiset.sum_coe, List.map_map]

end

end Sinkhole
