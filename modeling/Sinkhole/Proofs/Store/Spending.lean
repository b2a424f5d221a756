import Sinkhole.Proofs.Store.Newcomers
import Sinkhole.Proofs.Text.Interning

namespace Sinkhole

namespace TextPool

variable {p : TextPool} {text : String}

/-- The bytes that a text takes where there is room for it. -/
def cost (text : String) : ℕ :=
  if beforeNul text = "" then 0 else (beforeNul text).utf8ByteSize + 1

def room (p : TextPool) : ℕ :=
  min p.limit maxOffset - p.used

theorem used_interned (p : TextPool) (text : String) :
    (p.interned text).used = if cost text ≤ p.room then p.used + cost text else p.used := by
  have hinterns := interns p text
  unfold interned cost room
  generalize p.intern text = r at hinterns
  cases hinterns with
  | empty cut => simp [cut]
  | refused cut lacks =>
    unfold Lacks at lacks
    rw [if_neg cut, if_neg (by omega)]
  | placed cut fits =>
    unfold Lacks at fits
    rw [if_neg cut, if_pos (by omega)]

theorem room_interned (p : TextPool) (text : String) :
    (p.interned text).room = if cost text ≤ p.room then p.room - cost text else p.room := by
  have hlimit : (p.interned text).limit = p.limit := by
    have hinterns := interns p text
    unfold interned
    generalize p.intern text = r at hinterns
    cases hinterns <;> rfl
  rw [room, hlimit, used_interned]
  split
  · rw [room, Nat.sub_sub]
  · rfl

theorem interned_eq_self_iff :
    p.interned text = p ↔ (∃ full, p.intern text = .error full) ∨ beforeNul text = "" := by
  have hinterns := interns p text
  unfold interned
  generalize p.intern text = r at hinterns
  cases hinterns with
  | empty cut => exact iff_of_true rfl (.inr cut)
  | refused => exact iff_of_true rfl (.inl ⟨_, rfl⟩)
  | placed cut =>
    refine iff_of_false (fun hsame => ?_) ?_
    · have hused := congrArg TextPool.used hsame
      dsimp only at hused
      omega
    · rintro (⟨_, hfull⟩ | hempty)
      · cases hfull
      · exact cut hempty

/-- A text that is handed in again and again takes its bytes as often as they fit. -/
theorem used_internAll_replicate (n : ℕ) (p : TextPool) (text : String) :
    (p.internAll (List.replicate n text)).used =
      p.used + min n (p.room / cost text) * cost text := by
  induction n generalizing p with
  | zero => simp [internAll]
  | succ n ih =>
    have hrest : p.internAll (List.replicate (n + 1) text) =
        (p.interned text).internAll (List.replicate n text) := rfl
    rw [hrest, ih, used_interned, room_interned]
    by_cases hfits : cost text ≤ p.room
    · rw [if_pos hfits, if_pos hfits]
      rcases Nat.eq_zero_or_pos (cost text) with hfree | hpaid
      · rw [hfree]
        omega
      · rw [Nat.div_eq_sub_div hpaid hfits, Nat.add_min_add_right, Nat.add_one_mul]
        omega
    · have hnever : p.room / cost text = 0 := Nat.div_eq_of_lt (by omega)
      rw [if_neg hfits, if_neg hfits, hnever, Nat.min_zero, Nat.min_zero]

end TextPool

namespace SlotTable

variable {K : Kind} {α : Type} {t : SlotTable K α}

def Full (t : SlotTable K α) : Prop :=
  ∀ a, t.insert a = .error t.full

theorem full_of_insert_eq_error {a : α} {full : TableFull} (hi : t.insert a = .error full) :
    t.Full := by
  intro b
  unfold insert at hi ⊢
  split at hi
  · cases hi
  · unfold push at hi ⊢
    split at hi
    · cases hi
    · rename_i hroom
      rw [if_neg hroom]

end SlotTable

namespace Command

/-- The text of the record that a command finds or adds. -/
def sought? : Command → Option String
  | enrolDomain text _ | enrolClient text _ _ | enrolForwarder text _
  | attachCname _ text => some text
  | _ => none

/-- A command has to add the record. -/
def Adds (s : Store) : Command → Prop
  | enrolDomain name _ => s.findDomain? name = none
  | enrolClient address counted isAlias =>
    s.findClient? address = none ∧ (counted ∨ isAlias)
  | enrolForwarder address number => s.findForwarder? address number = none
  | attachCname query target => s.queries.contains query ∧ s.findDomain? target = none
  | _ => False

/-- The table that a command would add to is full. -/
def Crowded (s : Store) : Command → Prop
  | enrolDomain _ _ | attachCname _ _ => s.domains.Full
  | enrolClient _ _ _ => s.clients.Full
  | enrolForwarder _ _ => s.forwarders.Full
  | _ => False

end Command

namespace Store

open Attempt StoreM

variable {α β : Type} {s : Store} {text : String} {taken : Prop}

/-- An attempt fails exactly if a text finds no place or a slot is not free, and then it has spent
what the text takes. -/
def Seats (x : Attempt α) (s : Store) (text : String) (taken : Prop) : Prop :=
  Ensures x s
    (fun _ s' => ((∃ full, s.pool.intern text = .error full) ∨ taken) ∧
      s' = { s with pool := s.pool.interned text })
    fun _ _ => ¬ ((∃ full, s.pool.intern text = .error full) ∨ taken)

/-- An attempt that never fails. -/
def Surely (x : Attempt α) : Prop :=
  ∀ s, Ensures x s (fun _ _ => False) fun _ _ => True

theorem Seats.bind {x : Attempt α} {f : α → Attempt β} (hx : Seats x s text taken)
    (hf : ∀ a, Surely (f a)) : Seats (x >>= f) s text taken := by
  refine (ensures_bind x f).2 (hx.mono (fun _ _ h => h) fun a s' hfree => ?_)
  exact (hf a s').mono (fun _ _ h => h.elim) fun _ _ _ => hfree

/-- A text is placed, then a record with it is put into a table. -/
theorem seats_place {K : Kind} {γ : Type} {table : Store → SlotTable K γ}
    (htable : ∀ pool, table { s with pool } = table s) (put : SlotTable K γ → Store → Store)
    (record : PooledText → Store → γ) {rest : Handle K → Attempt β} (hrest : ∀ h, Surely (rest h)) :
    Seats (do
      let placed ← intern text
      let s ← get
      let h ← ofTable put ((table s).insert (record placed s))
      rest h) s text (table s).Full := by
  simp only [Seats, ensures_bind, ensures_intern, TextPool.interned]
  split
  · rename_i placed pool hplaced
    simp only [ensures_get, ensures_ofTable, htable, hplaced]
    split
    -- With a slot at hand nothing that follows can fail.
    · rename_i h t put
      refine (hrest h _).mono (fun _ _ h => h.elim) fun _ _ _ => ?_
      rintro (⟨full, hfull⟩ | hfull)
      · cases hfull
      · rw [hfull] at put
        cases put
    · rename_i full hfull
      exact ⟨.inr (SlotTable.full_of_insert_eq_error hfull), trivial⟩
  · rename_i full hfull
    rw [hfull]
    exact ⟨.inl ⟨full, rfl⟩, rfl⟩

theorem surely_pure (a : α) : Surely (pure a) := fun _ => trivial

theorem surely_liftM (x : StoreM α) : Surely (liftM x) := fun _ => (ensures_liftM x).2 trivial

theorem Surely.bind {x : Attempt α} {f : α → Attempt β} (hx : Surely x) (hf : ∀ a, Surely (f a)) :
    Surely (x >>= f) := fun s =>
  (ensures_bind x f).2 ((hx s).mono (fun _ _ h => h) fun a s' _ => hf a s')

theorem seats_addDomain (name : String) (s : Store) :
    Seats (addDomain name) s name s.domains.Full :=
  seats_place (fun _ => rfl) _ _ fun _ => (surely_liftM _).bind fun _ => surely_pure _

theorem seats_addRecord (address : String) (isAlias counted : Bool) (s : Store) :
    Seats (addRecord address isAlias counted) s address s.clients.Full :=
  seats_place (fun _ => rfl) _ _ fun _ =>
    (surely_liftM _).bind fun _ => (surely_liftM _).bind fun _ => surely_pure _

theorem seats_addClient (address : String) (counted : Bool) (s : Store) :
    Seats (addClient address counted) s address s.clients.Full := by
  -- The directory spends its own texts, but only once the client has its place.
  refine (ensures_addClient_iff address counted).2 ?_
  refine (seats_addRecord address false counted s).mono (fun _ _ h => h) fun h s' hfree => ?_
  exact (ensures_run (followDirectory h) _).mono (fun _ _ _ => hfree) fun _ _ _ => hfree

theorem seats_enrolForwarder {number : UInt16} (unknown : s.findForwarder? text number = none) :
    Seats (enrolForwarder text number) s text s.forwarders.Full := by
  have hplace : Seats (do
      let placed ← intern text
      let s ← get
      let h ← ofTable (fun t s => { s with forwarders := t })
        (s.forwarders.insert { address := placed, number })
      notify (.newForwarder text number h)
      raise .resolveNames
      return h) s text s.forwarders.Full :=
    seats_place (fun _ => rfl) _ _ fun _ =>
      (surely_liftM _).bind fun _ => (surely_liftM _).bind fun _ => surely_pure _
  simp only [Seats, enrolForwarder, ensures_bind, ensures_get, unknown] at hplace ⊢
  exact hplace

theorem seats_domainFor (unknown : s.findDomain? text = none) :
    Seats (domainFor text) s text s.domains.Full := by
  simp only [Seats, domainFor, ensures_bind, ensures_get, unknown]
  exact (ensures_bind _ _).1 ((seats_addDomain text s).bind fun _ => surely_pure _)

theorem seats_enrolDomain (unknown : s.findDomain? text = none) (counted : Bool) :
    Seats (enrolDomain text counted) s text s.domains.Full := by
  unfold enrolDomain
  refine (seats_domainFor unknown).bind fun r => ?_
  cases counted with
  | false => exact surely_pure r.1
  | true => exact (surely_liftM _).bind fun _ => surely_pure r.1

theorem seats_enrolClient {counted isAlias : Bool} (unknown : s.findClient? text = none)
    (hwanted : counted ∨ isAlias) :
    Seats (enrolClient text counted isAlias) s text s.clients.Full := by
  simp only [Seats, enrolClient, ensures_bind, ensures_get, unknown]
  cases isAlias with
  | true =>
    simp only [if_true, ensures_bind]
    exact (ensures_bind _ _).1 ((seats_addRecord text true false s).bind fun _ => surely_pure _)
  | false =>
    have hcounted : counted := hwanted.resolve_right Bool.false_ne_true
    simp only [hcounted, Bool.false_eq_true, if_false, if_true, ensures_bind]
    exact (ensures_bind _ _).1 ((seats_addClient text true s).bind fun _ => surely_pure _)

theorem seats_perform {c : Command} (hc : c.sought? = some text) (hadds : c.Adds s) :
    Seats c.perform s text (c.Crowded s) := by
  cases c with
  | enrolDomain name counted =>
    cases hc
    exact (seats_enrolDomain hadds counted).bind fun _ => surely_pure _
  | enrolClient address counted isAlias =>
    cases hc
    obtain ⟨unknown, hwanted⟩ := hadds
    exact (seats_enrolClient unknown hwanted).bind fun _ => surely_pure _
  | enrolForwarder address number =>
    cases hc
    exact (seats_enrolForwarder hadds).bind fun _ => surely_pure _
  | attachCname query target =>
    cases hc
    obtain ⟨known, unknown⟩ := hadds
    have hattach : Seats (attachCname query text) s text s.domains.Full := by
      simp only [Seats, attachCname, ensures_bind, ensures_get, known, if_true]
      exact (ensures_bind _ _).1 ((seats_enrolDomain unknown false).bind fun _ => surely_liftM _)
    exact hattach.bind fun _ => surely_pure _
  | _ => cases hc

theorem sure_of_not_adds {c : Command} (hc : c.sought? = some text) (hno : ¬ c.Adds s) :
    Ensures c.perform s (fun _ _ => False) fun _ _ => True := by
  cases c with
  | enrolDomain name counted =>
    obtain ⟨h, hf⟩ := Option.ne_none_iff_exists'.1 hno
    cases counted <;> simp [Command.perform, enrolDomain, domainFor, hf]
  | enrolClient address counted isAlias =>
    simp only [Command.perform, enrolClient, ensures_bind, ensures_get]
    split
    · cases counted <;> cases isAlias <;> simp
    · rename_i hf
      cases counted <;> cases isAlias <;> simp [Command.Adds, hf] at hno ⊢
  | enrolForwarder address number =>
    obtain ⟨h, hf⟩ := Option.ne_none_iff_exists'.1 hno
    simp [Command.perform, enrolForwarder, hf]
  | attachCname query target =>
    simp only [Command.perform, attachCname, ensures_bind, ensures_get]
    split
    · rename_i known
      obtain ⟨h, hf⟩ := Option.ne_none_iff_exists'.1 fun unknown => hno ⟨known, unknown⟩
      simp [enrolDomain, domainFor, hf]
    · trivial
  | _ => cases hc

section
variable {c : Command} (hc : c.sought? = some text)
include hc

theorem refused_iff : (∃ fault, c.answer s = .error fault) ↔
    c.Adds s ∧ ((∃ full, s.pool.intern text = .error full) ∨ c.Crowded s) := by
  constructor
  · rintro ⟨fault, hfault⟩
    by_cases hadds : c.Adds s
    · exact ⟨hadds, ((seats_perform hc hadds).of_error hfault).1⟩
    · exact ((sure_of_not_adds hc hadds).of_error hfault).elim
  · rintro ⟨hadds, hfull⟩
    cases hanswer : c.answer s with
    | error fault => exact ⟨fault, rfl⟩
    | ok a => exact absurd hfull ((seats_perform hc hadds).of_ok hanswer)

theorem apply_of_refused {fault : Fault} (hfault : c.answer s = .error fault) :
    c.apply s = { s with pool := s.pool.interned text } := by
  have hadds := ((refused_iff hc).1 ⟨fault, hfault⟩).1
  exact ((seats_perform hc hadds).of_error hfault).2

/-- The bytes that a refusal spends do not make room, so the next call is refused too. -/
theorem refused_again (hrefused : ∃ fault, c.answer s = .error fault) :
    ∃ fault, c.answer { s with pool := s.pool.interned text } = .error fault := by
  obtain ⟨hadds, hfull⟩ := (refused_iff hc).1 hrefused
  refine (refused_iff hc).2 ⟨hadds, hfull.imp (fun hplace => ?_) fun hcrowded => hcrowded⟩
  have hkept : s.pool.interned text = s.pool := TextPool.interned_eq_self_iff.2 (.inl hplace)
  rw [hkept]
  exact hplace

theorem runAll_refused (n : ℕ) (hrefused : ∃ fault, c.answer s = .error fault) :
    (∃ fault, c.answer (Command.runAll (List.replicate n c) s) = .error fault) ∧
      Command.runAll (List.replicate n c) s =
        { s with pool := s.pool.internAll (List.replicate n text) } := by
  induction n generalizing s with
  | zero => exact ⟨hrefused, rfl⟩
  | succ n ih =>
    obtain ⟨fault, hfault⟩ := hrefused
    have hfirst : Command.runAll (List.replicate (n + 1) c) s =
        Command.runAll (List.replicate n c) { s with pool := s.pool.interned text } :=
      congrArg (Command.runAll (List.replicate n c)) (apply_of_refused hc hfault)
    rw [hfirst]
    exact ih (refused_again hc ⟨fault, hfault⟩)

end

/-- A refused call leaves the store as it was exactly if the text found no room in the pool, or
takes none. Any other refusal spends the bytes of the text each time it comes, until they no longer
fit. -/
theorem refusals_spend_their_text (s : Store) {c : Command} (hc : c.sought? = some text)
    {fault : Fault} (hrefused : c.answer s = .error fault) :
    (c.apply s = s ↔
      (∃ full, s.pool.intern text = .error full) ∨ TextPool.beforeNul text = "") ∧
    ∀ n, let s' := Command.runAll (List.replicate n c) s
      (∃ fault', c.answer s' = .error fault') ∧
      s' = { s with pool := s.pool.internAll (List.replicate n text) } ∧
      s'.pool.used = s.pool.used +
        min n (s.pool.room / TextPool.cost text) * TextPool.cost text := by
  refine ⟨?_, fun n => ?_⟩
  · rw [apply_of_refused hc hrefused, ← TextPool.interned_eq_self_iff]
    constructor
    · exact fun hsame => congrArg Store.pool hsame
    · intro hsame
      rw [hsame]
  · obtain ⟨hagain, hrun⟩ := runAll_refused hc n ⟨fault, hrefused⟩
    refine ⟨hagain, hrun, ?_⟩
    rw [hrun]
    exact TextPool.used_internAll_replicate n s.pool text

/-- A table for one domain, and a pool with room for two names more. -/
theorem refusals_spend_their_text_of_full_domains :
    let start := empty { domains := 1, textBytes := 24 } 5000000 none .discard
      (.ending 600 150 5000000)
    let s := Command.runAll [.enrolDomain "a.test" false] start
    let ask := Command.enrolDomain "b.test" false
    ask.answer s = .error (.exhausted "domains" 1) ∧ ask.apply s ≠ s ∧
      (Command.runAll (List.replicate 5 ask) s).pool.used = 22 := by
  intro start s ask
  have hrefused : ask.answer s = .error (.exhausted "domains" 1) := by decide +kernel
  obtain ⟨hsame, hspent⟩ := refusals_spend_their_text s rfl hrefused
  refine ⟨hrefused, fun hkept => ?_, (hspent 5).2.2.trans (by decide +kernel)⟩
  rcases hsame.1 hkept with ⟨full, hfull⟩ | hempty
  · have hroom : (s.pool.intern "b.test").isOk := by decide +kernel
    rw [hfull] at hroom
    cases hroom
  · exact absurd hempty (by decide)

/-- A call that is refused because all domains are taken spends seven bytes of the pool. -/
theorem refused_domain_spends_pool :
    let start := empty { domains := 1 } 5000000 none .discard (.ending 600 150 5000000)
    let s := Command.runAll [.enrolDomain "a.test" false] start
    let ask := Command.enrolDomain "b.test" false
    create { domains := 1 } 5000000 none .discard = .ok start ∧
      ask.answer s = .error (.exhausted "domains" 1) ∧
      s.pool.used = 8 ∧ (ask.apply s).pool.used = 15 := by
  refine ⟨create_of_made _ _ rfl (by decide +kernel), ?_⟩
  decide +kernel

end Store

end Sinkhole
