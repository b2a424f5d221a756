import Mathlib.Logic.Relation
import Sinkhole.Proofs.Ledger.Views
import Sinkhole.Proofs.Store.Attempts
import Sinkhole.Proofs.Store.Specs

namespace Sinkhole

open Relation

/-- Two records of one query that are counted alike. -/
structure Query.CountsAs (q' q : Query) : Prop where
  status_eq : q'.status = q.status
  time_eq : q'.time = q.time
  type_eq : q'.type = q.type
  reply_eq : q'.reply = q.reply
  domain_eq : q'.domain = q.domain
  client_eq : q'.client = q.client

/-- Two records of one client with the same counts and the same place among the clients. -/
structure Client.CountsAs (c' c : Client) : Prop where
  count_eq : c'.count = c.count
  blocked_eq : c'.blocked = c.blocked
  history_eq : c'.history = c.history
  manager_eq : c'.manager = c.manager
  isAlias_eq : c'.isAlias = c.isAlias

namespace Client

theorem CountsAs.counts_eq {c' c : Client} (h : c'.CountsAs c) : c'.counts = c.counts := by
  rw [counts, counts, h.count_eq, h.blocked_eq, h.history_eq]

theorem countsAs_noteArrival (c : Client) (time : UInt64) (added : Bool) :
    (c.noteArrival time added).CountsAs c :=
  ⟨rfl, rfl, rfl, rfl, rfl⟩

/-- A record that nothing but `n` calls was counted for yet. -/
structure IsNew (length : ℕ) (n : Int64) (c : Client) : Prop where
  counts_eq : c.counts = (n, 0, 0)
  length_eq : c.history.length = length
  manager_eq : c.manager = none

end Client

inductive QueryEdit (t : SlotTable .query Query) : SlotTable .query Query → Prop where
  | described {f : Query → Query} (h : Handle .query) (keeps : ∀ q, (f q).CountsAs q) :
      QueryEdit t (t.modify h f)

inductive DomainEdit (t : SlotTable .domain Domain) : SlotTable .domain Domain → Prop where
  | added {d : Domain} {h : Handle .domain} {t' : SlotTable .domain Domain}
      (put : t.insert d = .ok (h, t')) (count_eq : d.count = 0) (blocked_eq : d.blocked = 0) :
      DomainEdit t t'

/-- `length` is the length of the history that a new client gets. -/
inductive ClientEdit (length : ℕ) (t : SlotTable .client Client) :
    SlotTable .client Client → Prop where
  | added {c : Client} {h : Handle .client} {t' : SlotTable .client Client}
      (put : t.insert c = .ok (h, t')) (isNew : c.IsNew length 0) : ClientEdit length t t'
  | described {f : Client → Client} (h : Handle .client) (keeps : ∀ c, (f c).CountsAs c) :
      ClientEdit length t (t.modify h f)
  | describedAll {f : Client → Client} (keeps : ∀ c, (f c).CountsAs c) :
      ClientEdit length t (t.mapLive f)
  | released (h : Handle .client) : ClientEdit length t (t.released h)
  | managed (h m : Handle .client) : ClientEdit length t (t.managed h m)

section
variable {K : Kind} {α : Type} {t t' : SlotTable K α} {edit : SlotTable K α → SlotTable K α → Prop}

theorem wellFormed_of_edits (hedit : ∀ {t t'}, t.WellFormed → edit t t' → t'.WellFormed)
    (w : t.WellFormed) (h : ReflTransGen edit t t') : t'.WellFormed := by
  induction h with
  | refl => exact w
  | tail _ last ih => exact hedit ih last

theorem extends_of_edits (hedit : ∀ {t t'}, t.WellFormed → edit t t' → t'.WellFormed)
    (hextends : ∀ {t t'}, t.WellFormed → edit t t' → t.Extends t') (w : t.WellFormed)
    (h : ReflTransGen edit t t') : t.Extends t' := by
  induction h with
  | refl => exact .refl t
  | tail first last ih => exact ih.trans (hextends (wellFormed_of_edits hedit w first) last)

end

namespace QueryEdit

variable {t t' : SlotTable .query Query}

theorem wellFormed (w : t.WellFormed) (h : QueryEdit t t') : t'.WellFormed := by
  cases h with
  | described h keeps => exact w.modify h _

end QueryEdit

namespace DomainEdit

variable {t t' : SlotTable .domain Domain}

theorem wellFormed (w : t.WellFormed) (h : DomainEdit t t') : t'.WellFormed := by
  cases h with
  | added put => exact w.insert put

theorem extension (w : t.WellFormed) (h : DomainEdit t t') : t.Extends t' := by
  cases h with
  | added put => exact .of_placed (SlotTable.placed_of_insert w put)

end DomainEdit

namespace SlotTable

variable {t t' : SlotTable .client Client}

theorem WellFormed.released (w : t.WellFormed) (h : Handle .client) : (t.released h).WellFormed := by
  unfold SlotTable.released
  split
  · split
    · exact (w.modify _ _).modify _ _
    · exact w
  · exact w

theorem WellFormed.managed (w : t.WellFormed) (h m : Handle .client) :
    (t.managed h m).WellFormed := by
  unfold SlotTable.managed
  split
  · split
    · exact w
    · exact ((w.released h).modify _ _).modify _ _
  · exact w

theorem Extends.released (t : SlotTable .client Client) (h : Handle .client) :
    t.Extends (t.released h) := by
  unfold SlotTable.released
  split
  · split
    · exact (Extends.modify t _ _).trans (.modify _ _ _)
    · exact .refl t
  · exact .refl t

theorem Extends.managed (t : SlotTable .client Client) (h m : Handle .client) :
    t.Extends (t.managed h m) := by
  unfold SlotTable.managed
  split
  · split
    · exact .refl t
    · exact ((Extends.released t h).trans (.modify _ _ _)).trans (.modify _ _ _)
  · exact .refl t

end SlotTable

namespace ClientEdit

variable {length : ℕ} {t t' : SlotTable .client Client}

theorem wellFormed (w : t.WellFormed) (h : ClientEdit length t t') : t'.WellFormed := by
  cases h with
  | added put => exact w.insert put
  | described h => exact w.modify h _
  | describedAll => exact w.mapLive _
  | released h => exact w.released h
  | managed h m => exact w.managed h m

theorem extension (w : t.WellFormed) (h : ClientEdit length t t') : t.Extends t' := by
  cases h with
  | added put => exact .of_placed (SlotTable.placed_of_insert w put)
  | described h => exact .modify t h _
  | describedAll => exact .mapLive t _
  | released h => exact .released t h
  | managed h m => exact .managed t h m

end ClientEdit

/-- The three tables that counts depend on are well-formed. -/
structure Store.WellFormed (s : Store) : Prop where
  queries : s.queries.WellFormed
  domains : s.domains.WellFormed
  clients : s.clients.WellFormed

/-- A change of a store that counts no query. -/
structure Quiet (s s' : Store) : Prop where
  queries : ReflTransGen QueryEdit s.queries s'.queries
  domains : ReflTransGen DomainEdit s.domains s'.domains
  clients : ReflTransGen (ClientEdit s.ledger.window.length) s.clients s'.clients
  window_eq : s'.ledger.window = s.ledger.window
  view_eq : ∀ v, s'.ledger.view v = s.ledger.view v

namespace Quiet

variable {s s' s'' : Store}

theorem refl (s : Store) : Quiet s s :=
  ⟨.refl, .refl, .refl, rfl, fun _ => rfl⟩

theorem trans (h : Quiet s s') (h' : Quiet s' s'') : Quiet s s'' where
  queries := h.queries.trans h'.queries
  domains := h.domains.trans h'.domains
  clients := h.clients.trans (h.window_eq ▸ h'.clients)
  window_eq := h'.window_eq.trans h.window_eq
  view_eq v := (h'.view_eq v).trans (h.view_eq v)

theorem of_eq (hqueries : s'.queries = s.queries) (hdomains : s'.domains = s.domains)
    (hclients : s'.clients = s.clients) (hledger : s'.ledger = s.ledger) : Quiet s s' where
  queries := hqueries ▸ .refl
  domains := hdomains ▸ .refl
  clients := hclients ▸ .refl
  window_eq := by rw [hledger]
  view_eq v := by rw [hledger]

theorem of_clients {t : SlotTable .client Client}
    (h : ClientEdit s.ledger.window.length s.clients t) : Quiet s { s with clients := t } :=
  ⟨.refl, .refl, .single h, rfl, fun _ => rfl⟩

theorem of_domains {t : SlotTable .domain Domain} (h : DomainEdit s.domains t) :
    Quiet s { s with domains := t } :=
  ⟨.refl, .single h, .refl, rfl, fun _ => rfl⟩

theorem of_queries {t : SlotTable .query Query} (h : QueryEdit s.queries t) :
    Quiet s { s with queries := t } :=
  ⟨.single h, .refl, .refl, rfl, fun _ => rfl⟩

theorem wellFormed (h : Quiet s s') (w : s.WellFormed) : s'.WellFormed where
  queries := wellFormed_of_edits QueryEdit.wellFormed w.queries h.queries
  domains := wellFormed_of_edits DomainEdit.wellFormed w.domains h.domains
  clients := wellFormed_of_edits ClientEdit.wellFormed w.clients h.clients

theorem extends_domains (h : Quiet s s') (w : s.WellFormed) : s.domains.Extends s'.domains :=
  extends_of_edits DomainEdit.wellFormed DomainEdit.extension w.domains h.domains

theorem extends_clients (h : Quiet s s') (w : s.WellFormed) : s.clients.Extends s'.clients :=
  extends_of_edits ClientEdit.wellFormed ClientEdit.extension w.clients h.clients

end Quiet

namespace Store

/-- A client was added to `s`, as one that `n` calls were counted for. -/
inductive ClientAdded (s : Store) (n : Int64) (isAlias : Bool) (h : Handle .client) (s' : Store) :
    Prop where
  | intro {s₁ : Store} {c : Client} {t : SlotTable .client Client} (before : Quiet s s₁)
      (put : s₁.clients.insert c = .ok (h, t)) (isNew : c.IsNew s.ledger.window.length n)
      (isAlias_eq : c.isAlias = isAlias) (after : Quiet { s₁ with clients := t } s')

namespace ClientAdded

variable {s s' s'' : Store} {n : Int64} {isAlias : Bool} {h : Handle .client}

theorem quiet (a : ClientAdded s 0 isAlias h s') : Quiet s s' := by
  obtain ⟨before, put, isNew, -, after⟩ := a
  exact before.trans (.trans (.of_clients (.added put (before.window_eq ▸ isNew))) after)

theorem trans (a : ClientAdded s n isAlias h s') (q : Quiet s' s'') :
    ClientAdded s n isAlias h s'' := by
  obtain ⟨before, put, isNew, isAlias_eq, after⟩ := a
  exact ⟨before, put, isNew, isAlias_eq, after.trans q⟩

theorem wellFormed (w : s.WellFormed) (a : ClientAdded s n isAlias h s') : s'.WellFormed := by
  obtain ⟨before, put, -, -, after⟩ := a
  have w₁ := before.wellFormed w
  exact after.wellFormed ⟨w₁.queries, w₁.domains, w₁.clients.insert put⟩

theorem contains (w : s.WellFormed) (a : ClientAdded s n isAlias h s') : s'.clients.contains h := by
  obtain ⟨before, put, -, -, after⟩ := a
  have w₁ := before.wellFormed w
  have placed := SlotTable.placed_of_insert w₁.clients put
  refine (after.extends_clients ⟨w₁.queries, w₁.domains, w₁.clients.insert put⟩).contains h ?_
  simp [SlotTable.contains, placed.get?_eq]

end ClientAdded

end Store

end Sinkhole
