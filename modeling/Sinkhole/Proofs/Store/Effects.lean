import Sinkhole.Proofs.Store.Actions
import Sinkhole.Store.Command

namespace Sinkhole

/-- What the counts of domains and clients depend on beside the recorded queries. -/
inductive Mark where
  | domainCounted (h : Handle .domain)
  | clientCounted (h : Handle .client)
  | domainRemoved (h : Handle .domain)
  | clientRemoved (h : Handle .client)
  deriving DecidableEq

namespace Command

def answer (c : Command) (s : Store) : Except Fault Answer :=
  (c.perform.run.run s).value

/-- The mark that a command with an answer leaves. -/
def mark? (c : Command) (answer : Except Fault Answer) : Option Mark :=
  match c, answer with
  | enrolDomain _ true, .ok (.domain h) => some (.domainCounted h)
  | enrolClient _ true false, .ok (.client (some h)) => some (.clientCounted h)
  | removeDomain h, .ok (.flag true) => some (.domainRemoved h)
  | removeClient h, .ok (.flag true) => some (.clientRemoved h)
  | _, _ => none

theorem mark?_error (c : Command) (fault : Fault) : c.mark? (.error fault) = none := by
  cases c <;> simp [mark?]

/-- Whether a command counts a status without taking it from the one before. -/
def isFirst : Command → Bool
  | reclassify _ _ first | reclassifyCode _ _ first => first
  | _ => false

end Command

namespace Store

def arrivalBooked (s : Store) (q : Query) (newDomain newClient : Bool) : Store :=
  let s := s.slid q.time
  let s := { s with domains := s.domains.modify q.domain (·.addQuery (!newDomain) s.now) }
  s.arrivalCounted q.client q.type q.time newClient

/-- What a command makes of a store, and the mark that it leaves. -/
inductive Effect (s : Store) : Command → Option Mark → Store → Prop where
  | quiet {c : Command} {s' : Store} (q : Quiet s s') : Effect s c none s'
  | slid (now : UInt64) : Effect s (.slideTo now) none (s.slid now)
  | domainCounted {name : String} {h : Handle .domain} {s' : Store} (known : Bool)
      (before : Quiet s s') (live : s'.domains.contains h) :
      Effect s (.enrolDomain name true) (some (.domainCounted h))
        { s' with domains := s'.domains.modify h (·.addQuery known s'.now) }
  | clientCounted {address : String} {h : Handle .client} (live : s.clients.contains h) :
      Effect s (.enrolClient address true false) (some (.clientCounted h))
        { s with clients := s.clients.charge h { total := 1 } }
  | clientAdded {address : String} {h : Handle .client} {s' : Store}
      (added : ClientAdded s 1 false h s') :
      Effect s (.enrolClient address true false) (some (.clientCounted h)) s'
  | recorded {new : Arrival} {q : Query} {h : Handle .query} {s' : Store}
      {queries : SlotTable .query Query} (newDomain newClient : Bool) (before : Quiet s s')
      (domain : s'.domains.contains q.domain) (client : s'.clients.contains q.client)
      (reply_eq : q.reply = .unknown) (put : s'.queries.push q = .ok (h, queries)) :
      Effect s (.recordQuery new) none
        (({ s' with queries }.arrivalBooked q newDomain newClient).reclassified h q q.status none)
  | reclassified {c : Command} {query : Handle .query} {q : Query} (new : Status)
      (known : s.queries.get? query = some q) :
      Effect s c none (s.reclassified query q new (if c.isFirst then none else some q.status))
  | replied {query : Handle .query} {q : Query} (reply : ReplyKind)
      (known : s.queries.get? query = some q) :
      Effect s (.noteReply query reply) none (s.replied query q reply)
  | adjusted (h : Handle .client) (δ : CountChange) :
      Effect s (.adjustClient h δ) none { s with clients := s.clients.charge h δ }
  | queryRemoved {query : Handle .query} {q : Query} {queries : SlotTable .query Query}
      (out : s.queries.vacate? query = some (q, queries)) :
      Effect s (.removeQuery query) none (s.withoutQuery q queries)
  | domainRemoved {h : Handle .domain} (live : s.domains.contains h) :
      Effect s (.removeDomain h) (some (.domainRemoved h)) { s with domains := s.domains.vacated h }
  | clientRemoved {h : Handle .client} (live : s.clients.contains h) :
      Effect s (.removeClient h) (some (.clientRemoved h))
        { s with clients := s.clients.withoutClient h }

open Attempt StoreM

variable {s : Store}

/-- A query is put in once its client and its domain are there, and all that follows is booking it,
where no fault can come up. -/
theorem ensures_recordQuery_iff (new : Arrival) {failed : Fault → Store → Prop}
    {done : Handle .query → Store → Prop} :
    Ensures (recordQuery new) s failed done ↔
      if s.queries.hasRoom then
        Ensures (clientFor new.client) s failed fun c s₁ =>
          Ensures (domainFor new.domain) s₁ failed fun d s₂ =>
            let q := s₂.queryOf new (new.time.getD s.now) d.1 c.1
            match s₂.queries.push q with
            | .ok (h, queries) =>
              done h ((reclassify h q.status true).run
                ({ s₂ with queries }.arrivalBooked q d.2 c.2)).store
            | .error full => failed (.ofFullTable full) s₂
      else failed (.ofFullTable s.queries.full) s := by
  simp only [recordQuery, ensures_bind, ensures_get]
  split
  · rw [ensures_bind]
    refine ensures_congr (fun _ _ => Iff.rfl) fun c s₁ => ?_
    rw [ensures_bind]
    refine ensures_congr (fun _ _ => Iff.rfl) fun d s₂ => ?_
    simp only [ensures_bind, ensures_get, ensures_ofTable]
    cases s₂.queries.push (s₂.queryOf new (new.time.getD s.now) d.1 c.1) with
    | error full => exact Iff.rfl
    | ok r =>
      -- From here on nothing can fail.
      simp only [ensures_discard, ensures_liftM, ensures_pure, store_slideTo, store_countDomain,
        store_countArrival]
      exact Iff.rfl
  · exact Iff.rfl

theorem ensures_recordQuery (w : s.WellFormed) (new : Arrival) :
    Ensures (recordQuery new) s (fun _ => Quiet s)
      fun _ s' => Effect s (.recordQuery new) none s' := by
  refine (ensures_recordQuery_iff new).2 ?_
  split
  · refine (quietly_clientFor w new.client).mono (fun _ _ q => q) ?_
    rintro ⟨client, newClient⟩ s₁ ⟨q₁, hclient⟩
    have w₁ := q₁.wellFormed w
    -- The client is found first, and adding the domain does not take it away again.
    refine (quietly_domainFor w₁ new.domain).mono (fun _ _ q => q₁.trans q) ?_
    rintro ⟨domain, newDomain⟩ s₂ ⟨q₂, hdomain⟩
    have w₂ := q₂.wellFormed w₁
    have hclient₂ : s₂.clients.contains client := (q₂.extends_clients w₁).contains client hclient
    intro q
    split
    · rename_i h queries put
      have hrecord : queries.get? h = some q := (SlotTable.placed_of_push w₂.queries put).get?_self
      rw [store_reclassify_of_some _ hrecord, if_neg (by simp), if_pos rfl]
      exact .recorded newDomain newClient (q₁.trans q₂) hdomain hclient₂ rfl put
    · exact q₁.trans q₂
  · exact .refl s

theorem effect_of_ensures {c : Command}
    (h : Ensures c.perform s (fun fault s' => Effect s c (c.mark? (.error fault)) s')
      fun a s' => Effect s c (c.mark? (.ok a)) s') :
    Effect s c (c.mark? (c.answer s)) (c.apply s) := by
  unfold Ensures at h
  unfold Command.answer Command.apply
  split at h
  · rename_i ha
    rwa [ha]
  · rename_i ha
    rwa [ha]

theorem apply_eq {α : Type} {c : Command} {x : StoreM α} {f : α → Answer}
    (hc : c.perform = f <$> (liftM x : Attempt α)) (s : Store) : c.apply s = (x.run s).store := by
  simp [Command.apply, hc]

theorem effect_of_quietly {α : Type} {c : Command} {x : Attempt α} {f : α → Answer}
    {P : α → Store → Prop} (hc : c.perform = f <$> x) (hmark : ∀ r, c.mark? r = none)
    (h : Quietly x s P) : Effect s c (c.mark? (c.answer s)) (c.apply s) := by
  apply effect_of_ensures
  rw [hc, ensures_map]
  simp only [hmark]
  exact h.mono (fun _ _ q => .quiet q) fun _ _ q => .quiet q.1

theorem effect_of_quiet {α : Type} {c : Command} {x : StoreM α} {f : α → Answer}
    (hc : c.perform = f <$> (liftM x : Attempt α)) (hmark : ∀ r, c.mark? r = none)
    (h : Quiet s (x.run s).store) : Effect s c (c.mark? (c.answer s)) (c.apply s) := by
  apply effect_of_ensures
  rw [hc, ensures_map, ensures_liftM]
  simp only [hmark]
  exact .quiet h

theorem effect_enrolDomain (w : s.WellFormed) (name : String) (counted : Bool) :
    Effect s (.enrolDomain name counted)
      ((Command.enrolDomain name counted).mark? ((Command.enrolDomain name counted).answer s))
      ((Command.enrolDomain name counted).apply s) := by
  cases counted with
  | false =>
    exact effect_of_quietly (f := .domain) rfl (fun _ => rfl) (quietly_enrolDomain w name)
  | true =>
    apply effect_of_ensures
    simp only [Command.perform, enrolDomain, ensures_bind]
    refine (quietly_domainFor w name).mono (fun _ _ q => .quiet q) ?_
    rintro ⟨h, added⟩ s' ⟨q, hc⟩
    exact .domainCounted (!added) q hc

theorem effect_enrolClient (w : s.WellFormed) (address : String) (counted isAlias : Bool) :
    Effect s (.enrolClient address counted isAlias)
      ((Command.enrolClient address counted isAlias).mark?
        ((Command.enrolClient address counted isAlias).answer s))
      ((Command.enrolClient address counted isAlias).apply s) := by
  apply effect_of_ensures
  simp only [Command.perform, enrolClient, ensures_bind, ensures_get, Command.mark?_error]
  split
  · rename_i h hf
    -- Only a regular client that is asked to be counted is charged.
    have hc : s.clients.contains h := SlotTable.contains_of_find? hf
    cases counted <;> cases isAlias
    · exact .quiet (.refl s)
    · exact .quiet (.refl s)
    · simp only [Bool.not_false, Bool.and_self, if_true, ensures_bind, ensures_discard,
        ensures_liftM, store_adjustClient]
      exact .clientCounted hc
    · exact .quiet (.refl s)
  · cases isAlias with
    | true =>
      simp only [if_true, ensures_bind]
      refine (quietly_addRecord w address true).mono (fun _ _ q => .quiet q) fun h s' q => ?_
      cases counted <;> exact .quiet q.1
    | false =>
      cases counted with
      | true =>
        simp only [Bool.false_eq_true, if_false, if_true, ensures_bind]
        exact (ensures_addClient w address true).mono (fun _ _ q => .quiet q)
          fun h s' a => .clientAdded a
      | false => exact .quiet (.refl s)

theorem effect_reclassify {c : Command} {first : Bool} (hfirst : c.isFirst = first) (s : Store)
    (query : Handle .query) (new : Status) :
    Effect s c none ((reclassify query new first).run s).store := by
  cases hq : s.queries.get? query with
  | some q =>
    rw [store_reclassify_of_some s hq]
    split
    · exact .quiet (.refl s)
    · rw [← hfirst]
      exact .reclassified new hq
  | none =>
    rw [store_reclassify_of_none s hq]
    exact .quiet (.refl s)

theorem effect_removeDomain (s : Store) (h : Handle .domain) :
    Effect s (.removeDomain h)
      ((Command.removeDomain h).mark? ((Command.removeDomain h).answer s))
      ((Command.removeDomain h).apply s) := by
  apply effect_of_ensures
  simp only [Command.perform, ensures_bind, ensures_liftM, ensures_pure, run_removeDomain s h]
  cases hc : s.domains.contains h with
  | true => exact .domainRemoved hc
  | false =>
    rw [SlotTable.vacated_of_not_contains hc]
    exact .quiet (.refl s)

theorem effect_removeClient (s : Store) (h : Handle .client) :
    Effect s (.removeClient h)
      ((Command.removeClient h).mark? ((Command.removeClient h).answer s))
      ((Command.removeClient h).apply s) := by
  apply effect_of_ensures
  simp only [Command.perform, ensures_bind, ensures_liftM, ensures_pure, run_removeClient s h]
  cases hc : s.clients.contains h with
  | true => exact .clientRemoved hc
  | false =>
    have hn : s.clients.get? h = none := by simpa [SlotTable.contains] using hc
    have hsame : s.clients.withoutClient h = s.clients := by simp [SlotTable.withoutClient, hn]
    rw [hsame]
    exact .quiet (.refl s)

theorem effect (w : s.WellFormed) (c : Command) :
    Effect s c (c.mark? (c.answer s)) (c.apply s) := by
  cases c with
  | setClock ms => exact .quiet (.of_eq rfl rfl rfl rfl)
  | moveClock ms => exact .quiet (.of_eq rfl rfl rfl rfl)
  | setPrivacy level => exact .quiet (.of_eq rfl rfl rfl rfl)
  | setStarting on => exact .quiet (.of_eq rfl rfl rfl rfl)
  | setDirectory keyOf => exact .quiet (.of_eq rfl rfl rfl rfl)
  | slideTo now =>
    rw [apply_eq (f := .number) rfl, store_slideTo]
    exact .slid now
  | enrolDomain name counted => exact effect_enrolDomain w name counted
  | enrolClient address counted isAlias => exact effect_enrolClient w address counted isAlias
  | enrolForwarder address n =>
    exact effect_of_quietly (f := .forwarder) rfl (fun _ => rfl) (quietly_enrolForwarder address n s)
  | enrolDecision d c type create =>
    exact effect_of_quietly (f := .decision) rfl (fun _ => rfl)
      (quietly_enrolDecision d c type create s)
  | recordQuery new =>
    refine effect_of_ensures ((ensures_bind _ _).2 ?_)
    exact (ensures_recordQuery w new).mono (fun _ _ q => .quiet q) fun _ _ e => e
  | reclassify q status first => exact effect_reclassify rfl s q status
  | reclassifyCode q code first =>
    cases hcode : Status.ofCode? code with
    | some status =>
      rw [apply_eq (f := .flag) rfl, Store.reclassifyCode, hcode]
      exact effect_reclassify rfl s q status
    | none =>
      rw [apply_eq (f := .flag) rfl, Store.reclassifyCode, hcode]
      exact .quiet (.refl s)
  | noteReply q reply =>
    rw [apply_eq (f := .flag) rfl]
    cases hq : s.queries.get? q with
    | some r =>
      rw [store_noteReply_of_some s hq]
      split
      · exact .quiet (.refl s)
      · exact .replied reply hq
    | none =>
      rw [store_noteReply_of_none s hq]
      exact .quiet (.refl s)
  | attachForwarder q u =>
    exact effect_of_quiet (f := .flag) rfl (fun _ => rfl) (quiet_attachForwarder q u s)
  | attachDecision q d =>
    exact effect_of_quiet (f := .flag) rfl (fun _ => rfl) (quiet_attachDecision q d s)
  | attachCname q target =>
    exact effect_of_quietly (f := .flag) rfl (fun _ => rfl) (quietly_attachCname w q target)
  | noteValidation q validation =>
    refine effect_of_quiet (f := .flag) rfl (fun _ => rfl) (quiet_modifyQuery q ?_ s)
    exact fun _ => ⟨rfl, rfl, rfl, rfl, rfl, rfl⟩
  | noteResponseTime q ms =>
    refine effect_of_quiet (f := .flag) rfl (fun _ => rfl) (quiet_modifyQuery q ?_ s)
    exact fun _ => ⟨rfl, rfl, rfl, rfl, rfl, rfl⟩
  | nameClient c name =>
    exact effect_of_quietly (f := .flag) rfl (fun _ => rfl) (quietly_nameClient c name s)
  | assignGroups c groups =>
    exact effect_of_quietly (f := .flag) rfl (fun _ => rfl) (quietly_assignGroups c groups s)
  | assignHardware c hardware interface =>
    exact effect_of_quietly (f := .flag) rfl (fun _ => rfl)
      (quietly_assignHardware w c hardware interface)
  | adjustClient c δ =>
    rw [apply_eq (f := .flag) rfl, store_adjustClient]
    exact .adjusted c δ
  | manage c manager =>
    exact effect_of_quiet (f := .flag) rfl (fun _ => rfl) (quiet_manage c manager s)
  | release c => exact effect_of_quiet (f := .flag) rfl (fun _ => rfl) (quiet_release c s)
  | followDirectory c =>
    exact effect_of_quietly (f := fun _ => .done) rfl (fun _ => rfl) (quietly_followDirectory w c)
  | nameForwarder u name =>
    exact effect_of_quietly (f := .flag) rfl (fun _ => rfl) (quietly_nameForwarder u name s)
  | noteResponse u ms => exact .quiet (.of_eq rfl rfl rfl rfl)
  | noteFailure u => exact .quiet (.of_eq rfl rfl rfl rfl)
  | noteVerdict d verdict list => exact .quiet (.of_eq rfl rfl rfl rfl)
  | forgetDecisions =>
    exact effect_of_quiet (f := .number) rfl (fun _ => rfl) (quiet_forgetDecisions s)
  | removeQuery q =>
    rw [apply_eq (f := .flag) rfl]
    cases hq : s.queries.vacate? q with
    | some r =>
      rw [store_removeQuery_of_some s hq]
      exact .queryRemoved hq
    | none =>
      rw [store_removeQuery_of_none s hq]
      exact .quiet (.refl s)
  | removeDomain d => exact effect_removeDomain s d
  | removeClient c => exact effect_removeClient s c
  | removeForwarder u =>
    refine effect_of_quiet (f := .flag) rfl (fun _ => rfl) ?_
    rw [removeForwarder, store_removeFrom s (·.forwarders) rfl]
    exact .of_eq rfl rfl rfl rfl
  | removeDecision d =>
    refine effect_of_quiet (f := .flag) rfl (fun _ => rfl) ?_
    rw [removeDecision, store_removeFrom s (·.decisions) rfl]
    exact .of_eq rfl rfl rfl rfl
  | reload lists =>
    exact effect_of_quietly (f := .report) rfl (fun _ => rfl) (quietly_reload lists s)
  | refresh lists =>
    exact effect_of_quietly (f := .report) rfl (fun _ => rfl) (quietly_refresh lists s)

end Store

end Sinkhole
