import Sinkhole.Proofs.Ledger.Recount
import Sinkhole.Proofs.Slot.Insertions
import Sinkhole.Proofs.Store.Newcomers

namespace Sinkhole

/-- The commands that may change a decision or a row count. -/
def Command.concernsLists : Command → Bool
  | enrolDecision _ _ _ _ | noteVerdict _ _ _ | forgetDecisions | removeDecision _ | reload _
  | refresh _ => true
  | _ => false

/-- The commands that may count a call of a client, report the client or remove it. -/
def Command.concernsScans : Command → Bool
  | enrolClient _ true false | recordQuery _ | assignHardware _ _ _ | removeClient _ => true
  | _ => false

namespace Store

open Attempt StoreM

variable {α β : Type} {R : Store → Store → Prop} {s s' : Store}

/-- What was counted for each client since the neighbour table reported it. -/
def scans (s : Store) : SlotTable .client Int64 :=
  s.clients.map (·.sinceScan)

/-- A transitive relation that looks at nothing else, and that a newcomer does not break. -/
class Lenient (R : Store → Store → Prop) : Prop where
  of_eq {s s' : Store} (decisions_eq : s'.decisions = s.decisions)
    (lists_eq : s'.ledger.tally.lists = s.ledger.tally.lists) (scans_eq : s'.scans = s.scans) :
    R s s'
  newcomer {s s' : Store} {h : Handle .client} (decisions_eq : s'.decisions = s.decisions)
    (lists_eq : s'.ledger.tally.lists = s.ledger.tally.lists)
    (put : s.scans.insert 0 = .ok (h, s'.scans)) : R s s'
  trans {s s' s'' : Store} (h : R s s') (h' : R s' s'') : R s s''

/-- An action that leads along a relation, from whatever store. -/
def Keeping (R : Store → Store → Prop) (x : StoreM α) : Prop :=
  ∀ s, R s (x.run s).store

def KeepingAttempt (R : Store → Store → Prop) (x : Attempt α) : Prop :=
  ∀ s, Ensures x s (fun _ => R s) fun _ => R s

theorem keeps_of_action {c : Command} {x : StoreM α} {f : α → Answer}
    (hc : c.perform = f <$> (liftM x : Attempt α)) (hx : Keeping R x) (s : Store) :
    R s (c.apply s) := by
  rw [apply_eq hc]
  exact hx s

theorem keeps_of_attempt {c : Command} {x : Attempt α} {f : α → Answer}
    (hc : c.perform = f <$> x) (hx : KeepingAttempt R x) (s : Store) : R s (c.apply s) := by
  rw [Command.apply, hc]
  exact Ensures.store (P := R s) ((ensures_map f x).2 (hx s))

theorem keeping_removeFrom {K : Kind} {table : Store → SlotTable K α}
    {put : SlotTable K α → Store → Store} (hput : ∀ s, put (table s) s = s)
    (hkeeps : ∀ t s, R s (put t s)) (h : Handle K) : Keeping R (removeFrom table put h) := by
  intro s
  rw [store_removeFrom s table (hput s)]
  exact hkeeps _ s

namespace KeepingAttempt

protected theorem modify {f : Store → Store} (hf : ∀ s, R s (f s)) :
    KeepingAttempt R (modify f : Attempt Unit) :=
  hf

protected theorem liftM {x : StoreM α} (hx : Keeping R x) : KeepingAttempt R (liftM x : Attempt α) :=
  fun s => (ensures_liftM x).2 (hx s)

protected theorem discard {x : Attempt α} (hx : KeepingAttempt R x) : KeepingAttempt R (discard x) :=
  fun s => (ensures_discard x).2 (hx s)

end KeepingAttempt

variable [Lenient R]

theorem Lenient.refl (s : Store) : R s s :=
  of_eq rfl rfl rfl

theorem Lenient.of_bare {t : SlotTable .client Client}
    (h : t.map Client.bare = s.clients.map Client.bare) : R s { s with clients := t } :=
  of_eq rfl rfl (SlotTable.map_of_bare (fun _ => rfl) h)

theorem Lenient.describe (client : Handle .client) {f : Client → Client}
    (keeps : ∀ c, (f c).sinceScan = c.sinceScan) (s : Store) :
    R s { s with clients := s.clients.modify client f } :=
  of_eq rfl rfl (SlotTable.map_modify_eq Client.sinceScan keeps s.clients client)

/-! ### Ways to build an attempt -/

namespace KeepingAttempt

protected theorem pure (a : α) : KeepingAttempt R (pure a : Attempt α) :=
  Lenient.refl

protected theorem get : KeepingAttempt R (get : Attempt Store) :=
  Lenient.refl

protected theorem throw (fault : Fault) : KeepingAttempt R (throw fault : Attempt α) :=
  Lenient.refl

protected theorem notify (n : Notice) : KeepingAttempt R (liftM (notify n) : Attempt Unit) :=
  Lenient.refl

protected theorem bind {x : Attempt α} {f : α → Attempt β} (hx : KeepingAttempt R x)
    (hf : ∀ a, KeepingAttempt R (f a)) : KeepingAttempt R (x >>= f) := by
  intro s
  refine (ensures_bind x f).2 ((hx s).mono (fun _ _ h => h) fun a s' h => ?_)
  exact (hf a s').mono (fun _ _ h' => Lenient.trans h h') fun _ _ h' => Lenient.trans h h'

protected theorem tryCatch {x : Attempt α} {f : Fault → Attempt α} (hx : KeepingAttempt R x)
    (hf : ∀ fault, KeepingAttempt R (f fault)) : KeepingAttempt R (tryCatch x f) := by
  intro s
  refine (ensures_tryCatch x f).2 ((hx s).mono (fun fault s' h => ?_) fun _ _ h => h)
  exact (hf fault s').mono (fun _ _ h' => Lenient.trans h h') fun _ _ h' => Lenient.trans h h'

protected theorem intern (text : String) : KeepingAttempt R (intern text) := by
  intro s
  rw [ensures_intern]
  split <;> exact Lenient.of_eq rfl rfl rfl

protected theorem ofTable {K : Kind} {put : SlotTable K α → Store → Store}
    (hput : ∀ t s, R s (put t s))
    (result : Except TableFull (Handle K × SlotTable K α)) :
    KeepingAttempt R (ofTable put result) := by
  intro s
  rw [ensures_ofTable]
  split
  · exact hput _ s
  · exact Lenient.refl s

end KeepingAttempt

/-! ### The actions -/

theorem keeping_raise (e : Event) : Keeping R (raise e) := by
  intro s
  rw [store_raise]
  exact Lenient.of_eq rfl rfl rfl

theorem keeping_adjustClient (client : Handle .client) (δ : CountChange) :
    Keeping R (adjustClient client δ) := by
  intro s
  rw [store_adjustClient]
  exact Lenient.of_bare (SlotTable.bare_charge s.clients client δ)

theorem keeping_release (client : Handle .client) : Keeping R (release client) := by
  intro s
  rw [store_release]
  exact Lenient.of_bare (SlotTable.bare_released s.clients client)

theorem keeping_manage (client manager : Handle .client) : Keeping R (manage client manager) := by
  intro s
  rw [store_manage]
  exact Lenient.of_bare (SlotTable.bare_managed s.clients client manager)

theorem keeping_slideTo (now : UInt64) : Keeping R (slideTo now) := by
  intro s
  rw [store_slideTo]
  have hfold : ∀ c, (Client.foldHistory (s.ledger.window.shiftTo now) c).sinceScan = c.sinceScan :=
    fun _ => rfl
  exact Lenient.of_eq rfl (congrArg Tally.lists (Ledger.tally_slideTo _ _))
    (SlotTable.map_mapLive_eq Client.sinceScan hfold s.clients)

theorem keeping_reclassify (query : Handle .query) (new : Status) (first : Bool) :
    Keeping R (reclassify query new first) := by
  intro s
  cases hq : s.queries.get? query with
  | none =>
    rw [store_reclassify_of_none s hq]
    exact Lenient.refl s
  | some q =>
    rw [store_reclassify_of_some s hq]
    have hscans : ∀ old, (s.reclassified query q new old).scans = s.scans := fun old =>
      SlotTable.map_of_bare (fun _ => rfl) (SlotTable.bare_charge s.clients q.client _)
    split
    · exact Lenient.refl s
    · cases first <;> exact Lenient.of_eq rfl rfl (hscans _)

theorem keeping_reclassifyCode (query : Handle .query) (code : Nat) (first : Bool) :
    Keeping R (reclassifyCode query code first) := by
  unfold reclassifyCode
  split
  · exact keeping_reclassify query _ first
  · exact Lenient.refl

theorem keeping_noteReply (query : Handle .query) (reply : ReplyKind) :
    Keeping R (noteReply query reply) := by
  intro s
  cases hq : s.queries.get? query with
  | none =>
    rw [store_noteReply_of_none s hq]
    exact Lenient.refl s
  | some q =>
    rw [store_noteReply_of_some s hq]
    split
    · exact Lenient.refl s
    · exact Lenient.of_eq rfl rfl rfl

theorem keeping_countDomain (domain : Handle .domain) (added : Bool) :
    Keeping R (countDomain domain added) :=
  fun _ => Lenient.of_eq rfl rfl rfl

theorem keeping_modifyQuery (query : Handle .query) (f : Query → Query) :
    Keeping R (modifyQuery query f) :=
  fun _ => Lenient.of_eq rfl rfl rfl

theorem keeping_modifyForwarder (forwarder : Handle .forwarder)
    (f : Store → Forwarder → Forwarder) : Keeping R (modifyForwarder forwarder f) :=
  fun _ => Lenient.of_eq rfl rfl rfl

theorem keeping_attachForwarder (query : Handle .query) (forwarder : Handle .forwarder) :
    Keeping R (attachForwarder query forwarder) := by
  intro s
  simp only [attachForwarder, run_bind, StoreM.run_get]
  split <;> exact Lenient.of_eq rfl rfl rfl

theorem keeping_attachDecision (query : Handle .query) (decision : Handle .decision) :
    Keeping R (attachDecision query decision) := by
  intro s
  simp only [attachDecision, run_bind, StoreM.run_get]
  split <;> exact Lenient.of_eq rfl rfl rfl

theorem keeping_removeQuery (query : Handle .query) : Keeping R (removeQuery query) := by
  intro s
  cases hq : s.queries.vacate? query with
  | none =>
    rw [store_removeQuery_of_none s hq]
    exact Lenient.refl s
  | some r =>
    rw [store_removeQuery_of_some s hq]
    exact Lenient.of_eq rfl rfl
      (SlotTable.map_of_bare (fun _ => rfl) (SlotTable.bare_charge s.clients r.1.client _))

/-! ### The attempts -/

theorem keeping_addDomain (name : String) : KeepingAttempt R (addDomain name) := by
  refine .bind (.intern name) fun placed => .bind .get fun s => .bind (.ofTable ?_ _) fun h => ?_
  · exact fun _ _ => Lenient.of_eq rfl rfl rfl
  · exact .bind (.notify _) fun _ => .pure h

theorem keeping_domainFor (name : String) : KeepingAttempt R (domainFor name) := by
  refine .bind .get fun s => ?_
  split
  · exact .pure _
  · exact .bind (keeping_addDomain name) fun h => .pure _

theorem keeping_enrolDomain (name : String) (counted : Bool) :
    KeepingAttempt R (enrolDomain name counted) := by
  refine .bind (keeping_domainFor name) fun r => ?_
  cases counted with
  | false => exact .pure r.1
  | true => exact .bind (.liftM (keeping_countDomain r.1 r.2)) fun _ => .pure r.1

theorem keeping_addRecord (address : String) (isAlias : Bool) :
    KeepingAttempt R (addRecord address isAlias false) := by
  intro s
  refine (seated_addRecord address isAlias false s).mono ?_ ?_
  · rintro fault s' ⟨-, pool, rfl⟩
    exact Lenient.of_eq rfl rfl rfl
  · rintro h s' ⟨-, put⟩
    exact Lenient.newcomer rfl rfl (SlotTable.insert_map Client.sinceScan put)

theorem keeping_aliasFor (address : String) : KeepingAttempt R (aliasFor address) := by
  refine .bind .get fun s => ?_
  split
  · exact .pure _
  · exact keeping_addRecord address true

theorem keeping_followDirectory (client : Handle .client) :
    KeepingAttempt R (followDirectory client) := by
  refine .bind .get fun s => ?_
  split
  · split
    · exact .pure _
    · split
      · exact .discard (.liftM (keeping_release client))
      · refine .bind (keeping_aliasFor _) fun manager => ?_
        refine .bind (.liftM (keeping_manage client manager)) fun managed => ?_
        split
        · exact .pure _
        · exact .notify _
  · exact .pure _

theorem keeping_addClient_of {address : String} {counted : Bool}
    (hadd : KeepingAttempt R (addRecord address false counted)) :
    KeepingAttempt R (addClient address counted) := by
  refine .bind hadd fun h => .bind .get fun s => ?_
  have hfollow : KeepingAttempt R (tryCatch (followDirectory h) fun fault =>
      liftM (notify (.aliasUnavailable address fault))) :=
    .tryCatch (keeping_followDirectory h) fun _ => .notify _
  split
  · exact .bind hfollow fun _ => .pure h
  · exact .bind (.liftM (keeping_raise _)) fun _ => .bind hfollow fun _ => .pure h

theorem keeping_clientFor (address : String) : KeepingAttempt R (clientFor address) := by
  refine .bind .get fun s => ?_
  split
  · exact .pure _
  · exact .bind (keeping_addClient_of (keeping_addRecord address false)) fun h => .pure _

theorem keeping_enrolClient_of {address : String} {counted isAlias : Bool}
    (hadd : counted → isAlias = false → KeepingAttempt R (addRecord address false true)) :
    KeepingAttempt R (enrolClient address counted isAlias) := by
  refine .bind .get fun s => ?_
  split
  · rename_i h _
    split
    · exact .bind (.discard (.liftM (keeping_adjustClient h _))) fun _ => .pure _
    · exact .pure _
  · split
    · exact .bind (keeping_addRecord address true) fun h => .pure _
    · rename_i hregular
      split
      · rename_i hcounted
        have hadd' := hadd hcounted (Bool.eq_false_of_not_eq_true hregular)
        exact .bind (keeping_addClient_of hadd') fun h => .pure _
      · exact .pure _

theorem keeping_nameClient (client : Handle .client) (name : String) :
    KeepingAttempt R (nameClient client name) := by
  refine .bind .get fun s => ?_
  split
  · refine .bind (.intern name) fun placed => .bind (.modify ?_) fun _ => .pure true
    exact Lenient.describe client fun _ => rfl
  · exact .pure false

theorem keeping_assignGroups (client : Handle .client) (groups : String) :
    KeepingAttempt R (assignGroups client groups) := by
  refine .bind .get fun s => ?_
  split
  · refine .bind (.intern groups) fun placed => .bind (.modify ?_) fun _ => .pure true
    exact Lenient.describe client fun _ => rfl
  · exact .pure false

theorem keeping_nameForwarder (forwarder : Handle .forwarder) (name : String) :
    KeepingAttempt R (nameForwarder forwarder name) := by
  refine .bind .get fun s => ?_
  split
  · refine .bind (.intern name) fun placed => .bind (.modify ?_) fun _ => .pure true
    exact fun _ => Lenient.of_eq rfl rfl rfl
  · exact .pure false

theorem keeping_enrolForwarder (address : String) (number : UInt16) :
    KeepingAttempt R (enrolForwarder address number) := by
  refine .bind .get fun s => ?_
  split
  · exact .pure _
  · refine .bind (.intern address) fun placed => .bind .get fun s => ?_
    refine .bind (.ofTable ?_ _) fun h => ?_
    · exact fun _ _ => Lenient.of_eq rfl rfl rfl
    · exact .bind (.notify _) fun _ => .bind (.liftM (keeping_raise _)) fun _ => .pure h

theorem keeping_attachCname (query : Handle .query) (target : String) :
    KeepingAttempt R (attachCname query target) := by
  refine .bind .get fun s => ?_
  split
  · refine .bind (keeping_enrolDomain target false) fun domain => ?_
    exact .liftM (keeping_modifyQuery query _)
  · exact .pure false

/-! ### Commands -/

/-- What is left are the commands on decisions and lists, and those that count a call of a client,
report the client or remove it. -/
theorem keeps_of_unconcerned {c : Command} (hlists : c.concernsLists = false)
    (hscans : c.concernsScans = false) (s : Store) : R s (c.apply s) := by
  cases c with
  | setClock | moveClock | setPrivacy | setStarting | setDirectory => exact Lenient.of_eq rfl rfl rfl
  | slideTo now => exact keeps_of_action (f := .number) rfl (keeping_slideTo now) s
  | enrolDomain name counted =>
    exact keeps_of_attempt (f := .domain) rfl (keeping_enrolDomain name counted) s
  | enrolClient address counted isAlias =>
    refine keeps_of_attempt (f := .client) rfl (keeping_enrolClient_of fun hcounted hregular => ?_) s
    subst hcounted hregular
    cases hscans
  | enrolForwarder address n =>
    exact keeps_of_attempt (f := .forwarder) rfl (keeping_enrolForwarder address n) s
  | reclassify q status first =>
    exact keeps_of_action (f := .flag) rfl (keeping_reclassify q status first) s
  | reclassifyCode q code first =>
    exact keeps_of_action (f := .flag) rfl (keeping_reclassifyCode q code first) s
  | noteReply q reply => exact keeps_of_action (f := .flag) rfl (keeping_noteReply q reply) s
  | attachForwarder q u =>
    exact keeps_of_action (f := .flag) rfl (keeping_attachForwarder q u) s
  | attachDecision q d =>
    exact keeps_of_action (f := .flag) rfl (keeping_attachDecision q d) s
  | attachCname q target =>
    exact keeps_of_attempt (f := .flag) rfl (keeping_attachCname q target) s
  | noteValidation q validation =>
    exact keeps_of_action (f := .flag) rfl (keeping_modifyQuery q _) s
  | noteResponseTime q ms => exact keeps_of_action (f := .flag) rfl (keeping_modifyQuery q _) s
  | nameClient c name => exact keeps_of_attempt (f := .flag) rfl (keeping_nameClient c name) s
  | assignGroups c groups =>
    exact keeps_of_attempt (f := .flag) rfl (keeping_assignGroups c groups) s
  | adjustClient c δ => exact keeps_of_action (f := .flag) rfl (keeping_adjustClient c δ) s
  | manage c manager => exact keeps_of_action (f := .flag) rfl (keeping_manage c manager) s
  | release c => exact keeps_of_action (f := .flag) rfl (keeping_release c) s
  | followDirectory c =>
    exact keeps_of_attempt (f := fun _ => .done) rfl (keeping_followDirectory c) s
  | nameForwarder u name =>
    exact keeps_of_attempt (f := .flag) rfl (keeping_nameForwarder u name) s
  | noteResponse u ms => exact keeps_of_action (f := .flag) rfl (keeping_modifyForwarder u _) s
  | noteFailure u => exact keeps_of_action (f := .flag) rfl (keeping_modifyForwarder u _) s
  | removeQuery q => exact keeps_of_action (f := .flag) rfl (keeping_removeQuery q) s
  | removeDomain d =>
    refine keeps_of_action (f := .flag) rfl (keeping_removeFrom (fun _ => rfl) ?_ d) s
    exact fun _ _ => Lenient.of_eq rfl rfl rfl
  | removeForwarder u =>
    refine keeps_of_action (f := .flag) rfl (keeping_removeFrom (fun _ => rfl) ?_ u) s
    exact fun _ _ => Lenient.of_eq rfl rfl rfl
  | recordQuery | assignHardware | removeClient => cases hscans
  | enrolDecision | noteVerdict | forgetDecisions | removeDecision | reload | refresh => cases hlists

end Store

end Sinkhole
