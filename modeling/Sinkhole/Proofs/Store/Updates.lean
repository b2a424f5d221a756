import Sinkhole.Proofs.Ledger.Exchanges
import Sinkhole.Proofs.Slot.Exchanges
import Sinkhole.Proofs.Store.Charges
import Sinkhole.Proofs.Store.Courses

namespace Sinkhole

open scoped Words

namespace Domain

def adjust (d : Domain) (total blocked : Int64) : Domain :=
  { d with count := d.count + total, blocked := d.blocked + blocked }

theorem adjust_zero (d : Domain) : d.adjust 0 0 = d := by
  simp [adjust]

theorem adjust_adjust (d : Domain) (m n m' n' : Int64) :
    (d.adjust m n).adjust m' n' = d.adjust (m + m') (n + n') := by
  simp only [adjust, add_assoc]

theorem adjust_comm (d : Domain) (m n m' n' : Int64) :
    (d.adjust m n).adjust m' n' = (d.adjust m' n').adjust m n := by
  rw [adjust_adjust, adjust_adjust, add_comm m, add_comm n]

end Domain

namespace Row

theorem modify_add_add (row : List Int64) (b : ℕ) (m n : Int64) :
    (row.modify b (· + m)).modify b (· + n) = row.modify b (· + (m + n)) := by
  rw [List.modify_modify_eq]
  congr 1
  funext x
  exact add_assoc x m n

theorem modify_add_comm (row : List Int64) (b c : ℕ) (m n : Int64) :
    (row.modify b (· + m)).modify c (· + n) = (row.modify c (· + n)).modify b (· + m) := by
  by_cases hbc : b = c
  · rw [hbc, modify_add_add, modify_add_add, add_comm m n]
  · exact List.modify_modify_ne _ _ _ hbc

theorem modify_add_zero (row : List Int64) (b : ℕ) : row.modify b (· + 0) = row := by
  have hid : (fun x : Int64 => x + 0) = id := funext add_zero
  rw [hid, List.modify_id]

end Row

namespace Client

theorem adjust_adjust (c : Client) (m n m' n' : Int64) (b : ℕ) (k k' : Int64) :
    (c.adjust { total := m, blocked := n, history := some (b, k) }).adjust
        { total := m', blocked := n', history := some (b, k') } =
      c.adjust { total := m + m', blocked := n + n', history := some (b, k + k') } := by
  simp only [adjust, add_assoc, Row.modify_add_add]

theorem adjust_comm (c : Client) (δ δ' : CountChange) :
    (c.adjust δ).adjust δ' = (c.adjust δ').adjust δ := by
  have htotal := add_right_comm c.count δ.total δ'.total
  have hblocked := add_right_comm c.blocked δ.blocked δ'.blocked
  unfold adjust
  rw [htotal, hblocked]
  cases δ.history with
  | none => rfl
  | some change =>
    cases δ'.history with
    | none => rfl
    | some change' =>
      simp only
      rw [Row.modify_add_comm]

end Client

namespace SlotTable

variable (t : SlotTable .client Client) (h k : Handle .client)

/-- The clients that count what is charged to one of them. -/
def reached : List (Handle .client) :=
  match t.get? h with
  | some c => if c.isAlias then [] else h :: c.manager.toList
  | none => []

/-- The clients after the counts of some of them changed. -/
def adjustAll (t : SlotTable .client Client) (hs : List (Handle .client)) (δ : CountChange) :
    SlotTable .client Client :=
  hs.foldl (fun t h => t.modify h (·.adjust δ)) t

theorem charge_eq_adjustAll (δ : CountChange) : t.charge h δ = t.adjustAll (t.reached h) δ := by
  unfold charge reached
  cases t.get? h with
  | none => rfl
  | some c =>
    dsimp only
    split
    · rfl
    · cases c.manager <;> rfl

theorem reached_modify_adjust (δ : CountChange) :
    (t.modify k (·.adjust δ)).reached h = t.reached h := by
  have hreached : ∀ c? : Option Client, c? = t.get? h ∨ c? = (t.get? h).map (·.adjust δ) →
      (match c? with
        | some c => if c.isAlias then [] else h :: c.manager.toList
        | none => []) = t.reached h := by
    rintro _ (rfl | rfl)
    · rfl
    · unfold reached
      cases t.get? h <;> rfl
  refine hreached _ ?_
  rw [get?_modify]
  split
  · exact .inr rfl
  · exact .inl rfl

theorem reached_adjustAll (hs : List (Handle .client)) (δ : CountChange) :
    (t.adjustAll hs δ).reached h = t.reached h := by
  induction hs generalizing t with
  | nil => rfl
  | cons k hs ih => exact (ih _).trans (reached_modify_adjust t h k δ)

theorem adjustAll_modify (hs : List (Handle .client)) (δ δ' : CountChange) :
    (t.modify k (·.adjust δ')).adjustAll hs δ = (t.adjustAll hs δ).modify k (·.adjust δ') := by
  induction hs generalizing t with
  | nil => rfl
  | cons h hs ih =>
    have hcomm : (t.modify k (·.adjust δ')).modify h (·.adjust δ) =
        (t.modify h (·.adjust δ)).modify k (·.adjust δ') :=
      modify_comm t k h fun c => c.adjust_comm δ' δ
    exact (congrArg (·.adjustAll hs δ) hcomm).trans (ih _)

theorem adjustAll_comm (hs ks : List (Handle .client)) (δ δ' : CountChange) :
    (t.adjustAll hs δ).adjustAll ks δ' = (t.adjustAll ks δ').adjustAll hs δ := by
  induction hs generalizing t with
  | nil => rfl
  | cons h hs ih =>
    exact (ih _).trans (congrArg (·.adjustAll hs δ) (adjustAll_modify t h ks δ' δ))

/-- Where two changes of every client come to one, two charges do too. -/
theorem adjustAll_adjustAll {δ δ' δ'' : CountChange} (hs : List (Handle .client))
    (hδ : ∀ c : Client, (c.adjust δ).adjust δ' = c.adjust δ'') :
    (t.adjustAll hs δ).adjustAll hs δ' = t.adjustAll hs δ'' := by
  induction hs generalizing t with
  | nil => rfl
  | cons h hs ih =>
    have hboth : (t.modify h (·.adjust δ)).modify h (·.adjust δ') = t.modify h (·.adjust δ'') := by
      rw [modify_modify]
      congr 1
      exact funext hδ
    -- The second change of `h` moves before the first change of the others.
    have hhead : ((t.modify h (·.adjust δ)).adjustAll hs δ).modify h (·.adjust δ') =
        (t.modify h (·.adjust δ'')).adjustAll hs δ := by
      rw [← adjustAll_modify, hboth]
    calc (t.adjustAll (h :: hs) δ).adjustAll (h :: hs) δ'
        = (((t.modify h (·.adjust δ)).adjustAll hs δ).modify h (·.adjust δ')).adjustAll hs δ' := rfl
      _ = ((t.modify h (·.adjust δ'')).adjustAll hs δ).adjustAll hs δ' := by rw [hhead]
      _ = t.adjustAll (h :: hs) δ'' := ih _

theorem charge_charge {δ δ' δ'' : CountChange}
    (hδ : ∀ c : Client, (c.adjust δ).adjust δ' = c.adjust δ'') :
    (t.charge h δ).charge h δ' = t.charge h δ'' := by
  simp only [charge_eq_adjustAll, reached_adjustAll]
  exact adjustAll_adjustAll t _ hδ

theorem charge_comm (δ δ' : CountChange) :
    (t.charge h δ).charge k δ' = (t.charge k δ').charge h δ := by
  simp only [charge_eq_adjustAll, reached_adjustAll]
  exact adjustAll_comm t _ _ δ δ'

theorem charge_congr {δ δ' : CountChange} (hδ : ∀ c : Client, c.adjust δ = c.adjust δ') :
    t.charge h δ = t.charge h δ' := by
  have hfun : (fun c : Client => c.adjust δ) = fun c => c.adjust δ' := funext hδ
  unfold charge
  simp only [hfun]

end SlotTable

namespace Store

/-- What a client's counts change by when a query of it gives way to another, or to none. -/
def clientShift (w : Window) (q : Query) (q? : Option Query) : CountChange where
  total := q.shift (fun _ => true) q?
  blocked := q.shift (·.status.isBlocked) q?
  history := some (w.bucketOf q.time, q.shift (fun _ => true) q?)

def exchange (s : Store) (query : Handle .query) (q : Query) (q? : Option Query) : Store :=
  { s with
    queries := s.queries.exchanged query q?
    ledger := s.ledger.exchange q q?
    domains := s.domains.modify q.domain
      (·.adjust (q.shift (fun _ => true) q?) (q.shift (·.status.isBlocked) q?))
    clients := s.clients.charge q.client (clientShift s.ledger.window q q?) }

variable {s : Store} {query query' : Handle .query} {q q' p : Query} {q? p? : Option Query}

theorem adjust_clientShift_self (w : Window) (q : Query) (c : Client) :
    c.adjust (clientShift w q (some q)) = c := by
  simp only [Client.adjust, clientShift, Query.shift_self, Row.modify_add_zero]
  rw [add_zero, add_zero]

theorem exchange_self (hq : s.queries.get? query = some q) : s.exchange query q (some q) = s := by
  have hclients : s.clients.charge q.client (clientShift s.ledger.window q (some q)) =
      s.clients.charge q.client {} :=
    SlotTable.charge_congr _ _ fun c => (adjust_clientShift_self _ q c).trans c.adjust_zero.symm
  have hdomains : s.domains.modify q.domain (·.adjust 0 0) = s.domains :=
    SlotTable.modify_eq_self _ Domain.adjust_zero _
  simp only [exchange, SlotTable.exchanged_self hq, Ledger.exchange_self, Query.shift_self, hdomains,
    hclients, charge_zero]

theorem exchange_exchange (hq : s.queries.get? query = some q) (domain_eq : q'.domain = q.domain)
    (client_eq : q'.client = q.client) (time_eq : q'.time = q.time) :
    (s.exchange query q (some q')).exchange query q' q? = s.exchange query q q? := by
  have hdomains : (s.domains.modify q.domain fun d => d.adjust (q.shift (fun _ => true) (some q'))
        (q.shift (·.status.isBlocked) (some q'))).modify q.domain (fun d =>
          d.adjust (q'.shift (fun _ => true) q?) (q'.shift (·.status.isBlocked) q?)) =
      s.domains.modify q.domain fun d =>
        d.adjust (q.shift (fun _ => true) q?) (q.shift (·.status.isBlocked) q?) := by
    rw [SlotTable.modify_modify]
    simp only [Domain.adjust_adjust, Query.shift_add_shift]
  have hclients : (s.clients.charge q.client (clientShift s.ledger.window q (some q'))).charge
        q.client (clientShift s.ledger.window q' q?) =
      s.clients.charge q.client (clientShift s.ledger.window q q?) := by
    refine SlotTable.charge_charge _ _ fun c => ?_
    simp only [clientShift, time_eq, Client.adjust_adjust, Query.shift_add_shift]
  simp only [exchange, domain_eq, client_eq, SlotTable.exchanged_exchanged hq,
    Ledger.exchange_exchange, Ledger.window_exchange, hdomains, hclients]

theorem exchange_comm (hne : query ≠ query') (hq : s.queries.get? query = some q)
    (hp : s.queries.get? query' = some p) :
    (s.exchange query q q?).exchange query' p p? = (s.exchange query' p p?).exchange query q q? := by
  simp only [exchange, Ledger.window_exchange, mk.injEq, true_and, and_true]
  refine ⟨SlotTable.exchanged_comm hne hq hp _ _, ?_, SlotTable.charge_comm _ _ _ _ _,
    Ledger.exchange_comm _ _ _ _ _⟩
  exact SlotTable.modify_comm _ _ _ fun d => d.adjust_comm _ _ _ _

theorem blockedShifted_zero (s : Store) (domain : Handle .domain) (client : Handle .client) :
    s.blockedShifted domain client 0 = s := by
  have hdomains : s.domains.modify domain (·.addBlocked 0) = s.domains :=
    SlotTable.modify_eq_self _ (fun d => by rw [Domain.addBlocked, add_zero]) _
  simp only [blockedShifted, hdomains, charge_zero]

/-- A query that gives way to another of its kind shifts at most the blocked counts. -/
theorem exchange_some (s : Store) (query : Handle .query) (q q' : Query) :
    s.exchange query q (some q') =
      { s with
        queries := s.queries.modify query fun _ => q'
        ledger := s.ledger.exchange q (some q') }.blockedShifted q.domain q.client
          (q.shift (·.status.isBlocked) (some q')) := by
  -- One query comes for one that goes, so the totals stay.
  have htotal : q.shift (fun _ => true) (some q') = 0 := sub_self _
  have hdomains : ∀ d : Domain,
      d.adjust 0 (q.shift (·.status.isBlocked) (some q')) =
        d.addBlocked (q.shift (·.status.isBlocked) (some q')) := by
    intro d
    rw [Domain.adjust, add_zero, Domain.addBlocked]
  have hclients : ∀ c : Client, c.adjust (clientShift s.ledger.window q (some q')) =
      c.adjust { blocked := q.shift (·.status.isBlocked) (some q') } := by
    intro c
    simp only [Client.adjust, clientShift, htotal, Row.modify_add_zero]
  simp only [exchange, blockedShifted, SlotTable.exchanged, htotal, hdomains,
    SlotTable.charge_congr _ _ hclients]

/-- What can be done to a recorded query that changes its counts. -/
inductive Update where
  | status (new : Status)
  | reply (new : ReplyKind)
  | removal

namespace Update

def command (query : Handle .query) : Update → Command
  | status new => .reclassify query new false
  | reply new => .noteReply query new
  | removal => .removeQuery query

def outcome (q : Query) : Update → Option Query
  | status new => some { q with status := new }
  | reply new => some { q with reply := new }
  | removal => none

theorem answer_command (u : Update) (query : Handle .query) (s : Store) :
    (u.command query).answer s = .ok (.flag (s.queries.contains query)) := by
  have hcontains : s.queries.contains query = (s.queries.get? query).isSome := rfl
  cases u with
  | status new =>
    rw [command, answer_eq (x := reclassify query new false) rfl, hcontains]
    cases hq : s.queries.get? query with
    | none => simp [reclassify, hq]
    | some q => by_cases hkept : q.status = new <;> simp [reclassify, hq, hkept]
  | reply new =>
    rw [command, answer_eq (x := noteReply query new) rfl, hcontains]
    cases hq : s.queries.get? query with
    | none => simp [noteReply, hq]
    | some q => by_cases hkept : q.reply = new <;> simp [noteReply, hq, hkept]
  | removal =>
    rw [command, answer_eq (x := removeQuery query) rfl, value_removeQuery]

theorem apply_of_none (u : Update) (hq : s.queries.get? query = none) :
    (u.command query).apply s = s := by
  cases u with
  | status new => exact (apply_eq rfl s).trans (store_reclassify_of_none s hq new false)
  | reply new => exact (apply_eq rfl s).trans (store_noteReply_of_none s hq new)
  | removal =>
    exact (apply_eq rfl s).trans
      (store_removeQuery_of_none s (SlotTable.vacate?_eq_none_iff.2 hq))

theorem shift_status (q : Query) (new : Status) :
    q.shift (·.status.isBlocked) (some { q with status := new }) =
      blockedChange (some q.status) new := by
  rw [eq_sub_of_add_eq (blockedChange_some q.status new)]
  rfl

/-- Every update is an exchange, also one that sets what is set already. -/
theorem apply_of_some (u : Update) (hq : s.queries.get? query = some q) :
    (u.command query).apply s = s.exchange query q (u.outcome q) := by
  cases u with
  | status new =>
    rw [command, apply_eq (x := reclassify query new false) rfl,
      store_reclassify_of_some s hq new false, if_neg Bool.false_ne_true]
    split
    · -- A query that has the status already gives way to itself.
      rename_i hkept
      rw [outcome, ← hkept.1, exchange_self hq]
    · have hqueries : s.queries.modify query ({ · with status := new }) =
          s.queries.modify query fun _ => { q with status := new } := SlotTable.modify_congr hq rfl
      rw [outcome, exchange_some, shift_status, ← Ledger.reclassify_eq_exchange, ← hqueries]
      rfl
  | reply new =>
    rw [command, apply_eq (x := noteReply query new) rfl, store_noteReply_of_some s hq new]
    split
    · rename_i hkept
      rw [outcome, ← hkept, exchange_self hq]
    · have hqueries : s.queries.modify query ({ · with reply := new }) =
          s.queries.modify query fun _ => { q with reply := new } := SlotTable.modify_congr hq rfl
      have hblocked : q.shift (·.status.isBlocked) (some { q with reply := new }) = 0 := sub_self _
      rw [outcome, exchange_some, hblocked, ← Ledger.replaceReply_eq_exchange, ← hqueries,
        blockedShifted_zero]
      rfl
  | removal =>
    have htotal : q.shift (fun _ => true) none = -1 := rfl
    have hblocked : q.shift (·.status.isBlocked) none = if q.status.isBlocked then -1 else 0 := by
      cases hstatus : q.status.isBlocked <;> simp [Query.shift, Query.stake, hstatus]
    -- Only a blocked query is taken out of the blocked ones.
    have hdomains : ∀ d : Domain, d.uncount q.status.isBlocked =
        d.adjust (q.shift (fun _ => true) none) (q.shift (·.status.isBlocked) none) := by
      intro d
      rw [htotal, hblocked, Domain.uncount, Domain.adjust]
      cases q.status.isBlocked <;> simp [sub_eq_add_neg]
    rw [command, apply_eq (x := removeQuery query) rfl,
      store_removeQuery_of_some s (SlotTable.vacate?_of_get? hq)]
    simp only [withoutQuery, exchange, outcome, clientShift, hdomains, htotal, hblocked]
    rfl

/-- An update leaves no trace where the next one makes of its outcome what it would have made of the
query. -/
theorem apply_apply_of_outcome {u v : Update} (hforget : ∀ q : Query, ∃ q',
      u.outcome q = some q' ∧ v.outcome q' = v.outcome q ∧
      q'.domain = q.domain ∧ q'.client = q.client ∧ q'.time = q.time)
    (query : Handle .query) (s : Store) :
    (v.command query).apply ((u.command query).apply s) = (v.command query).apply s := by
  cases hq : s.queries.get? query with
  | none => rw [u.apply_of_none hq]
  | some q =>
    obtain ⟨q', hu, hv, domain_eq, client_eq, time_eq⟩ := hforget q
    have hq' : (s.exchange query q (some q')).queries.get? query = some q' :=
      (SlotTable.get?_exchanged hq _ query).trans (if_pos rfl)
    rw [u.apply_of_some hq, v.apply_of_some hq, hu, v.apply_of_some hq', hv,
      exchange_exchange hq domain_eq client_eq time_eq]

theorem get?_apply_of_ne (u : Update) (hne : query ≠ query') (s : Store) :
    ((u.command query).apply s).queries.get? query' = s.queries.get? query' := by
  cases hq : s.queries.get? query with
  | none => rw [u.apply_of_none hq]
  | some q =>
    rw [u.apply_of_some hq]
    exact (SlotTable.get?_exchanged hq _ query').trans (if_neg hne)

theorem apply_comm (u v : Update) (hne : query ≠ query') (s : Store) :
    (v.command query').apply ((u.command query).apply s) =
      (u.command query).apply ((v.command query').apply s) := by
  have hquery := v.get?_apply_of_ne hne.symm s
  have hquery' := u.get?_apply_of_ne hne s
  cases hq : s.queries.get? query with
  | none => rw [u.apply_of_none hq, u.apply_of_none (hquery.trans hq)]
  | some q =>
    cases hp : s.queries.get? query' with
    | none => rw [v.apply_of_none hp, v.apply_of_none (hquery'.trans hp)]
    | some p =>
      rw [v.apply_of_some (hquery'.trans hp), u.apply_of_some (hquery.trans hq), u.apply_of_some hq,
        v.apply_of_some hp, exchange_comm hne hq hp]

theorem answer_of_ne (u v : Update) (hne : query ≠ query') (s : Store) :
    (v.command query').answer ((u.command query).apply s) = (v.command query').answer s := by
  have hcontains : ((u.command query).apply s).queries.contains query' =
      s.queries.contains query' := congrArg Option.isSome (u.get?_apply_of_ne hne s)
  rw [v.answer_command, v.answer_command, hcontains]

end Update

/-- Of two statuses, or two replies, that a query gets one after the other, the first leaves no
trace. Updates of two queries come to the same store, and to the same answers, in either order. -/
theorem updates_forget_and_commute (s : Store) :
    (∀ query old new, Command.runAll [.reclassify query old false, .reclassify query new false] s =
      Command.runAll [.reclassify query new false] s) ∧
    (∀ query old new, Command.runAll [.noteReply query old, .noteReply query new] s =
      Command.runAll [.noteReply query new] s) ∧
    ∀ (u v : Update) (query query' : Handle .query), query ≠ query' →
      Command.runAll [u.command query, v.command query'] s =
        Command.runAll [v.command query', u.command query] s ∧
      (u.command query).answer ((v.command query').apply s) = (u.command query).answer s ∧
      (v.command query').answer ((u.command query).apply s) = (v.command query').answer s := by
  refine ⟨fun query old new => ?_, fun query old new => ?_, fun u v query query' hne => ?_⟩
  · have hforget := Update.apply_apply_of_outcome (u := .status old) (v := .status new)
      fun q => ⟨{ q with status := old }, rfl, rfl, rfl, rfl, rfl⟩
    exact hforget query s
  · have hforget := Update.apply_apply_of_outcome (u := .reply old) (v := .reply new)
      fun q => ⟨{ q with reply := old }, rfl, rfl, rfl, rfl, rfl⟩
    exact hforget query s
  · exact ⟨u.apply_comm v hne s, v.answer_of_ne u hne.symm s, u.answer_of_ne v hne s⟩

/-- Of two queries for one domain, by one client of an alias-client, one is blocked and the other
removed. -/
theorem updates_forget_and_commute_of_shared_client :
    let start := empty { buckets := 3 } 5000000 (some fun _ _ => some "phones") .discard
      (.ending 600 3 5000000)
    let s := Command.runAll
      [.recordQuery { id := 1, domain := "ads.test", client := "10.0.0.1", wire := 1 },
        .recordQuery { id := 2, domain := "ads.test", client := "10.0.0.1", wire := 1 }] start
    let blocking := Update.status .gravity
    let both := Command.runAll [blocking.command ⟨0, 0⟩, Update.removal.command ⟨1, 0⟩] s
    (⟨0, 0⟩ : Handle .query) ≠ ⟨1, 0⟩ ∧
      (s.clients.get? ⟨0, 0⟩).bind (·.manager) = some ⟨1, 0⟩ ∧
      (blocking.command ⟨0, 0⟩).answer s = .ok (.flag true) ∧
      both = Command.runAll [Update.removal.command ⟨1, 0⟩, blocking.command ⟨0, 0⟩] s ∧
      (both.domains.get? ⟨0, 0⟩).map (fun d => (d.count, d.blocked)) = some (1, 1) ∧
      (both.clients.get? ⟨1, 0⟩).map (fun c => (c.count, c.blocked)) = some (1, 1) ∧
      (both.queries.get? ⟨1, 0⟩).isNone := by
  intro start s blocking both
  have hne : (⟨0, 0⟩ : Handle .query) ≠ ⟨1, 0⟩ := by decide
  obtain ⟨hcomm, hanswer, -⟩ :=
    (updates_forget_and_commute s).2.2 blocking .removal ⟨0, 0⟩ ⟨1, 0⟩ hne
  have hlate : (blocking.command ⟨0, 0⟩).answer ((Update.removal.command ⟨1, 0⟩).apply s) =
      .ok (.flag true) := by
    decide +kernel
  refine ⟨hne, ?_, hanswer.symm.trans hlate, hcomm, ?_⟩
  · decide +kernel
  · decide +kernel

end Store

end Sinkhole
