import Sinkhole.Proofs.Slot.Traces
import Sinkhole.Proofs.Store.Newcomers
import Sinkhole.Store.Reports

namespace Sinkhole

namespace Deed

def query? : Deed → Option (Handle .query)
  | queryRecorded h _ _ | queryRemoved h | cnameNoted h _ => some h
  | _ => none

def client? : Deed → Option (Handle .client)
  | clientNamed h _ | clientRemoved h => some h
  | _ => none

def removedQuery? : Deed → Option (Handle .query)
  | queryRemoved h => some h
  | _ => none

def removedDomain? : Deed → Option (Handle .domain)
  | domainRemoved h => some h
  | _ => none

def removedClient? : Deed → Option (Handle .client)
  | clientRemoved h => some h
  | _ => none

def nameFor? (h : Handle .client) : Deed → Option String
  | clientNamed k name => if k = h then some name else none
  | _ => none

def targetFor? (h : Handle .query) : Deed → Option String
  | cnameNoted k target => if k = h then some target else none
  | _ => none

/-- The last name that was stored for a client. -/
def lastName (h : Handle .client) (ds : List Deed) : Option String :=
  ds.reverse.findSome? (nameFor? h)

def lastTarget (h : Handle .query) (ds : List Deed) : Option String :=
  ds.reverse.findSome? (targetFor? h)

/-- No slot of a query, a domain or a client is removed from so often that its generation wraps
round. -/
structure Unwrapped (ds : List Deed) : Prop where
  queries : SlotTable.Fits (ds.filterMap removedQuery?)
  domains : SlotTable.Fits (ds.filterMap removedDomain?)
  clients : SlotTable.Fits (ds.filterMap removedClient?)

variable {ds ds' : List Deed}

theorem Unwrapped.of_append (u : Unwrapped (ds ++ ds')) : Unwrapped ds := by
  obtain ⟨queries, domains, clients⟩ := u
  rw [List.filterMap_append] at queries domains clients
  exact ⟨queries.of_append, domains.of_append, clients.of_append⟩

theorem mem_picked_iff {K : Kind} {pick : Deed → Option (Handle K)} {deed : Handle K → Deed}
    (hpick : ∀ d h, pick d = some h ↔ d = deed h) {h : Handle K} :
    h ∈ ds.filterMap pick ↔ deed h ∈ ds := by
  simp only [List.mem_filterMap, hpick, exists_eq_right]

theorem mem_removedQuery?_iff {h : Handle .query} :
    h ∈ ds.filterMap removedQuery? ↔ queryRemoved h ∈ ds :=
  mem_picked_iff fun d _ => by cases d <;> simp [removedQuery?]

theorem mem_removedDomain?_iff {h : Handle .domain} :
    h ∈ ds.filterMap removedDomain? ↔ domainRemoved h ∈ ds :=
  mem_picked_iff fun d _ => by cases d <;> simp [removedDomain?]

theorem mem_removedClient?_iff {h : Handle .client} :
    h ∈ ds.filterMap removedClient? ↔ clientRemoved h ∈ ds :=
  mem_picked_iff fun d _ => by cases d <;> simp [removedClient?]

theorem lastName_append (h : Handle .client) (ds ds' : List Deed) :
    lastName h (ds ++ ds') = (lastName h ds').or (lastName h ds) := by
  rw [lastName, List.reverse_append, List.findSome?_append]
  rfl

theorem lastTarget_append (h : Handle .query) (ds ds' : List Deed) :
    lastTarget h (ds ++ ds') = (lastTarget h ds').or (lastTarget h ds) := by
  rw [lastTarget, List.reverse_append, List.findSome?_append]
  rfl

theorem lastName_eq_none {h : Handle .client} (hno : h ∉ ds.filterMap client?) :
    lastName h ds = none := by
  refine List.findSome?_eq_none_iff.2 fun d hd => ?_
  cases d with
  | clientNamed k name =>
    have hne : k ≠ h := by
      rintro rfl
      exact hno (List.mem_filterMap.2 ⟨_, List.mem_reverse.1 hd, rfl⟩)
    exact if_neg hne
  | _ => rfl

theorem lastTarget_eq_none {h : Handle .query} (hno : h ∉ ds.filterMap query?) :
    lastTarget h ds = none := by
  refine List.findSome?_eq_none_iff.2 fun d hd => ?_
  cases d with
  | cnameNoted k target =>
    have hne : k ≠ h := by
      rintro rfl
      exact hno (List.mem_filterMap.2 ⟨_, List.mem_reverse.1 hd, rfl⟩)
    exact if_neg hne
  | _ => rfl

end Deed

namespace Registry

open SlotTable

variable {texts : Set String} {ds ds' : List Deed} {r r' : Registry}

theorem Turn.queries_change (i : r.Sound) (t : Turn texts r ds r') :
    Change r.queries (ds.filterMap Deed.query?) (ds.filterMap Deed.removedQuery?) r'.queries := by
  cases t with
  | queryRecorded _ _ _ _ put =>
    exact .placed (placed_of_push i.queries put) fun k hk => List.mem_singleton.1 hk
  | cnameNoted live => exact .modified _ live
  | queryRemoved live => exact .vacated live
  | interned | redirected | domainAdded | clientAdded | forwarderAdded | decisionAdded | clientNamed
  | domainRemoved | clientRemoved | forwarderRemoved | decisionRemoved => exact .none

theorem Turn.domains_change (i : r.Sound) (t : Turn texts r ds r') :
    Change r.domains (ds.filterMap Deed.removedDomain?) (ds.filterMap Deed.removedDomain?)
      r'.domains := by
  cases t with
  | domainAdded _ _ _ _ _ put => exact .placed (placed_of_insert i.domains put) nofun
  | domainRemoved live => exact .vacated live
  | interned | redirected | clientAdded | forwarderAdded | decisionAdded | queryRecorded
  | clientNamed | cnameNoted | queryRemoved | clientRemoved | forwarderRemoved
  | decisionRemoved => exact .none

theorem Turn.clients_change (i : r.Sound) (t : Turn texts r ds r') :
    Change r.clients (ds.filterMap Deed.client?) (ds.filterMap Deed.removedClient?) r'.clients := by
  cases t with
  | clientAdded _ _ _ _ _ put => exact .placed (placed_of_insert i.clients put) nofun
  | clientNamed live => exact .modified _ live
  | clientRemoved live => exact .vacated live
  | interned | redirected | domainAdded | forwarderAdded | decisionAdded | queryRecorded | cnameNoted
  | queryRemoved | domainRemoved | forwarderRemoved | decisionRemoved => exact .none

/-- A domain keeps its name as long as it lives. -/
theorem Turn.namesDomain (i : r.Sound) (t : Turn texts r ds r') {h : Handle .domain}
    {name : String} (hn : r.NamesDomain h name) (hkept : .domainRemoved h ∉ ds) :
    r'.NamesDomain h name := by
  obtain ⟨d, hd, hname⟩ := hn
  cases t with
  | domainAdded _ _ _ _ _ put =>
    exact ⟨d, (placed_of_insert i.domains put).get?_of_get? hd, hname⟩
  | @domainRemoved k =>
    have hne : k ≠ h := by
      rintro rfl
      exact hkept List.mem_cons_self
    exact ⟨d, by rw [get?_vacated_eq, if_neg hne, hd], hname⟩
  | interned | redirected | clientAdded | forwarderAdded | decisionAdded | queryRecorded
  | clientNamed | cnameNoted | queryRemoved | clientRemoved | forwarderRemoved
  | decisionRemoved =>
    exact ⟨d, hd, hname⟩

theorem Turn.namesClient (i : r.Sound) (t : Turn texts r ds r') {h : Handle .client}
    {address : String} (hn : r.NamesClient h address) (hkept : .clientRemoved h ∉ ds) :
    r'.NamesClient h address := by
  obtain ⟨c, hc, haddress⟩ := hn
  cases t with
  | clientAdded _ _ _ _ _ put =>
    exact ⟨c, (placed_of_insert i.clients put).get?_of_get? hc, haddress⟩
  | @clientNamed k name placed =>
    rw [NamesClient, get?_modify, hc]
    split
    · exact ⟨_, rfl, haddress⟩
    · exact ⟨c, rfl, haddress⟩
  | @clientRemoved k =>
    have hne : k ≠ h := by
      rintro rfl
      exact hkept List.mem_cons_self
    exact ⟨c, by rw [get?_vacated_eq, if_neg hne, hc], haddress⟩
  | interned | redirected | domainAdded | forwarderAdded | decisionAdded | queryRecorded | cnameNoted
  | queryRemoved | domainRemoved | forwarderRemoved | decisionRemoved => exact ⟨c, hc, haddress⟩

/-- A domain with a name, unless it was removed. -/
def DomainWas (ds : List Deed) (r : Registry) (h : Handle .domain) (name : String) : Prop :=
  .domainRemoved h ∉ ds → r.NamesDomain h name

def ClientWas (ds : List Deed) (r : Registry) (h : Handle .client) (address : String) : Prop :=
  .clientRemoved h ∉ ds → r.NamesClient h address

/-- The card of a query agrees with what was told of it. -/
structure Tells (ds : List Deed) (r : Registry) (h : Handle .query) (new : Arrival)
    (level : Privacy) (q : Query.Card) : Prop where
  privacy_eq : q.privacy = level
  domain : DomainWas ds r q.domain (TextPool.beforeNul new.domain)
  client : ClientWas ds r q.client (TextPool.beforeNul new.client)
  cname : (Deed.lastTarget h ds = none ∧ q.cname = none) ∨
    ∃ target d, Deed.lastTarget h ds = some target ∧ q.cname = some d ∧
      DomainWas ds r d (TextPool.beforeNul target)

variable {h : Handle .query} {new : Arrival} {level : Privacy} {q : Query.Card}

theorem DomainWas.turn {d : Handle .domain} {name : String} (i : r.Sound)
    (t : Turn texts r ds' r') (hd : DomainWas ds r d name) : DomainWas (ds ++ ds') r' d name := by
  intro hkept
  rw [List.mem_append, not_or] at hkept
  exact t.namesDomain i (hd hkept.1) hkept.2

theorem ClientWas.turn {c : Handle .client} {address : String} (i : r.Sound)
    (t : Turn texts r ds' r') (hc : ClientWas ds r c address) :
    ClientWas (ds ++ ds') r' c address := by
  intro hkept
  rw [List.mem_append, not_or] at hkept
  exact t.namesClient i (hc hkept.1) hkept.2

theorem Tells.turn (i : r.Sound) (t : Turn texts r ds' r') (hsame : Deed.lastTarget h ds' = none)
    (tells : Tells ds r h new level q) : Tells (ds ++ ds') r' h new level q where
  privacy_eq := tells.privacy_eq
  domain := tells.domain.turn i t
  client := tells.client.turn i t
  cname := by
    rw [Deed.lastTarget_append, hsame, Option.none_or]
    exact tells.cname.imp_right fun ⟨target, d, htarget, hcname, hd⟩ =>
      ⟨target, d, htarget, hcname, hd.turn i t⟩

def shownName (name : Option String) : String :=
  name.elim "" TextPool.beforeNul

/-- A registry agrees with the deeds that led to it. -/
structure Narrates (ds : List Deed) (r : Registry) : Prop where
  sound : r.Sound
  queries : Traced (ds.filterMap Deed.query?) (ds.filterMap Deed.removedQuery?) r.queries
  domains : Traced (ds.filterMap Deed.removedDomain?) (ds.filterMap Deed.removedDomain?) r.domains
  clients : Traced (ds.filterMap Deed.client?) (ds.filterMap Deed.removedClient?) r.clients
  named : ∀ h c, r.clients.get? h = some c → c.name.text = shownName (Deed.lastName h ds)
  lives : ∀ h new level, .queryRecorded h new level ∈ ds → .queryRemoved h ∉ ds →
    r.queries.contains h
  tells : ∀ h new level, .queryRecorded h new level ∈ ds → ∀ q, r.queries.get? h = some q →
    Tells ds r h new level q

theorem narrates_empty (settings : Settings) (directory : Option AliasLookup) :
    Narrates [] (empty settings directory) where
  sound := sound_empty settings directory
  queries := traced_empty _ _
  domains := traced_empty _ _
  clients := traced_empty _ _
  named h c hc := by simp [empty, get?] at hc
  lives _ _ _ hr := absurd hr List.not_mem_nil
  tells _ _ _ hr := absurd hr List.not_mem_nil

namespace Narrates

theorem named_turn (n : Narrates ds r) (t : Turn texts r ds' r') :
    ∀ h c, r'.clients.get? h = some c → c.name.text = shownName (Deed.lastName h (ds ++ ds')) := by
  intro h c hc
  rw [Deed.lastName_append]
  cases t with
  | clientAdded _ _ _ _ unnamed put =>
    have hp := placed_of_insert n.sound.clients put
    rw [hp.get?_eq] at hc
    split at hc
    · rename_i heq
      subst heq
      cases hc
      -- The handle was never given out, so no deed has named it.
      have hnew : Deed.lastName _ ds = none :=
        Deed.lastName_eq_none fun hk => hp.not_issued (n.clients.issued _ hk)
      rw [hnew, unnamed]
      rfl
    · exact n.named h c hc
  | @clientNamed k name placed live held text_eq =>
    rw [get?_modify] at hc
    split at hc
    · rename_i heq
      subst heq
      obtain ⟨b, -, rfl⟩ := Option.map_eq_some_iff.1 hc
      simpa [Deed.lastName, Deed.nameFor?, shownName] using text_eq
    · rename_i hne
      simpa [Deed.lastName, Deed.nameFor?, hne] using n.named h c hc
  | clientRemoved =>
    rw [get?_vacated_eq] at hc
    split at hc
    · cases hc
    · exact n.named h c hc
  | interned | redirected | domainAdded | forwarderAdded | decisionAdded | queryRecorded | cnameNoted
  | queryRemoved | domainRemoved | forwarderRemoved | decisionRemoved => exact n.named h c hc

theorem lives_turn (n : Narrates ds r) (t : Turn texts r ds' r') :
    ∀ h new level, .queryRecorded h new level ∈ ds ++ ds' → .queryRemoved h ∉ ds ++ ds' →
      r'.queries.contains h := by
  intro h new level hr hkept
  rw [List.mem_append, not_or] at hkept
  -- A query that was recorded before lived until this turn.
  have hold : .queryRecorded h new level ∈ ds → r.queries.contains h := fun hr =>
    n.lives h new level hr hkept.1
  cases t with
  | queryRecorded _ _ _ _ put =>
    have hp := placed_of_push n.sound.queries put
    rcases List.mem_append.1 hr with hr | hr
    · exact (Extends.of_placed hp).contains h (hold hr)
    · cases List.mem_singleton.1 hr
      simp [contains, hp.get?_eq]
  | cnameNoted =>
    rw [contains_modify]
    exact hold (by simpa using hr)
  | @queryRemoved k =>
    have hne : k ≠ h := by
      rintro rfl
      exact hkept.2 List.mem_cons_self
    rw [contains, get?_vacated_eq, if_neg hne]
    exact hold (by simpa using hr)
  | interned | redirected | domainAdded | clientAdded | forwarderAdded | decisionAdded | clientNamed
  | domainRemoved | clientRemoved | forwarderRemoved | decisionRemoved =>
    exact hold (by simpa using hr)

theorem tells_turn (n : Narrates ds r) (t : Turn texts r ds' r') :
    ∀ h new level, .queryRecorded h new level ∈ ds ++ ds' → ∀ q, r'.queries.get? h = some q →
      Tells (ds ++ ds') r' h new level q := by
  intro h new level hr q hq
  have i := n.sound
  have hturn := t
  cases t with
  | @queryRecorded new' q' k t' _ hdomain hclient hcname put =>
    have hp := placed_of_push i.queries put
    -- No earlier deed names the handle that a query is recorded with.
    have hunknown : k ∉ ds.filterMap Deed.query? := fun hk => hp.not_issued (n.queries.issued k hk)
    rw [hp.get?_eq] at hq
    split at hq
    · -- The handle is new, so what is told of it is told now.
      rename_i heq
      subst heq
      cases hq
      rcases List.mem_append.1 hr with hr | hr
      · exact absurd ((List.mem_filterMap (f := Deed.query?)).2 ⟨_, hr, rfl⟩) hunknown
      · cases List.mem_singleton.1 hr
        refine ⟨rfl, fun _ => hdomain, fun _ => hclient, .inl ⟨?_, hcname⟩⟩
        rw [Deed.lastTarget_append, Deed.lastTarget_eq_none hunknown]
        rfl
    · rename_i hne
      rcases List.mem_append.1 hr with hr | hr
      · exact (n.tells h new level hr q hq).turn i hturn rfl
      · cases List.mem_singleton.1 hr
        exact absurd rfl hne
  | @cnameNoted k target domain live known =>
    have hrecorded : .queryRecorded h new level ∈ ds := by simpa using hr
    rw [get?_modify] at hq
    split at hq
    · rename_i heq
      subst heq
      obtain ⟨b, hb, rfl⟩ := Option.map_eq_some_iff.1 hq
      have htells := n.tells k new level hrecorded b hb
      refine ⟨htells.privacy_eq, htells.domain.turn i hturn, htells.client.turn i hturn,
        .inr ⟨target, domain, ?_, rfl, fun _ => known⟩⟩
      rw [Deed.lastTarget_append]
      simp [Deed.lastTarget, Deed.targetFor?]
    · rename_i hne
      refine (n.tells h new level hrecorded q hq).turn i hturn ?_
      simp [Deed.lastTarget, Deed.targetFor?, hne]
  | @queryRemoved k =>
    have hrecorded : .queryRecorded h new level ∈ ds := by simpa using hr
    rw [get?_vacated_eq] at hq
    split at hq
    · cases hq
    · exact (n.tells h new level hrecorded q hq).turn i hturn rfl
  | interned | redirected | domainAdded | clientAdded | forwarderAdded | decisionAdded | clientNamed
  | domainRemoved | clientRemoved | forwarderRemoved | decisionRemoved =>
    exact (n.tells h new level (by simpa using hr) q hq).turn i hturn rfl

theorem turn (n : Narrates ds r) (t : Turn texts r ds' r') (u : Deed.Unwrapped (ds ++ ds')) :
    Narrates (ds ++ ds') r' := by
  have i := n.sound
  obtain ⟨hqueries, hdomains, hclients⟩ := u
  rw [List.filterMap_append] at hqueries hdomains hclients
  refine ⟨t.sound i, ?_, ?_, ?_, n.named_turn t, n.lives_turn t, n.tells_turn t⟩
  · rw [List.filterMap_append, List.filterMap_append]
    exact n.queries.change (t.queries_change i) hqueries
  · rw [List.filterMap_append]
    exact n.domains.change (t.domains_change i) hdomains
  · rw [List.filterMap_append, List.filterMap_append]
    exact n.clients.change (t.clients_change i) hclients

end Narrates

theorem Course.narrates {settings : Settings} {directory : Option AliasLookup}
    (h : Course texts (empty settings directory) ds r) (u : Deed.Unwrapped ds) :
    Narrates ds r := by
  have hturn : ∀ {ds ds' r r'}, (Deed.Unwrapped ds → Narrates ds r) → Turn texts r ds' r' →
      Deed.Unwrapped (ds ++ ds') → Narrates (ds ++ ds') r' := fun n t u =>
    (n u.of_append).turn t u
  exact h.invariant (fun told r => Deed.Unwrapped told → Narrates told r) hturn
    (fun _ => narrates_empty settings directory) u

/-- A query stays with the domain and the client that it was recorded with. -/
theorem Turn.links (t : Turn texts r ds r') (i : r.Sound) (hissued : r.queries.Issued h)
    (hq : r'.queries.get? h = some q) :
    ∃ b, r.queries.get? h = some b ∧ b.domain = q.domain ∧ b.client = q.client := by
  cases t with
  | queryRecorded _ _ _ _ put =>
    have hp := placed_of_push i.queries put
    -- The slot of a query that was recorded before does not get the new one.
    rw [hp.get?_eq, if_neg (hissued.ne_of_placed hp)] at hq
    exact ⟨q, hq, rfl, rfl⟩
  | cnameNoted =>
    rw [get?_modify] at hq
    split at hq
    · obtain ⟨b, hb, rfl⟩ := Option.map_eq_some_iff.1 hq
      exact ⟨b, hb, rfl, rfl⟩
    · exact ⟨q, hq, rfl, rfl⟩
  | queryRemoved =>
    rw [get?_vacated_eq] at hq
    split at hq
    · cases hq
    · exact ⟨q, hq, rfl, rfl⟩
  | interned | redirected | domainAdded | clientAdded | forwarderAdded | decisionAdded | clientNamed
  | domainRemoved | clientRemoved | forwarderRemoved | decisionRemoved => exact ⟨q, hq, rfl, rfl⟩

theorem Course.links (c : Course texts r ds' r') (n : Narrates ds r)
    (hknown : .queryRecorded h new level ∈ ds) (u : Deed.Unwrapped (ds ++ ds'))
    (hq : r'.queries.get? h = some q) :
    ∃ b, r.queries.get? h = some b ∧ b.domain = q.domain ∧ b.client = q.client := by
  let Inv (told : List Deed) (r'' : Registry) : Prop :=
    Deed.Unwrapped told → .queryRecorded h new level ∈ told ∧ Narrates told r'' ∧
      ∀ q, r''.queries.get? h = some q →
        ∃ b, r.queries.get? h = some b ∧ b.domain = q.domain ∧ b.client = q.client
  have hturn : ∀ {told ds r₁ r₂}, Inv told r₁ → Turn texts r₁ ds r₂ → Inv (told ++ ds) r₂ := by
    intro told ds r₁ r₂ inv t u
    obtain ⟨htold, n, hlinks⟩ := inv u.of_append
    refine ⟨List.mem_append_left _ htold, n.turn t u, fun q hq => ?_⟩
    have hissued := n.queries.issued h (List.mem_filterMap.2 ⟨_, htold, rfl⟩)
    obtain ⟨b, hb, hdomain, hclient⟩ := t.links n.sound hissued hq
    obtain ⟨b₀, hb₀, hdomain₀, hclient₀⟩ := hlinks b hb
    exact ⟨b₀, hb₀, hdomain₀.trans hdomain, hclient₀.trans hclient⟩
  have hstart : Inv ds r := fun _ => ⟨hknown, n, fun q hq => ⟨q, hq, rfl, rfl⟩⟩
  exact (c.invariant Inv hturn hstart u).2.2 q hq

end Registry

namespace Store

open Registry

variable {s : Store} {ds : List Deed}

theorem domainName?_eq (n : Narrates ds s.registry) {h : Handle .domain} {name : String}
    (hd : DomainWas ds s.registry h name) :
    (s.domainName? h).getD "" = if .domainRemoved h ∈ ds then "" else name := by
  split
  · rename_i hremoved
    have hdead := (n.domains.dead h (Deed.mem_removedDomain?_iff.2 hremoved)).2
    rw [registry, SlotTable.contains_map] at hdead
    have hnone : s.domains.get? h = none := by simpa [SlotTable.contains] using hdead
    simp [domainName?, hnone]
  · rename_i hkept
    obtain ⟨card, hcard, rfl⟩ := hd hkept
    rw [registry, SlotTable.get?_map] at hcard
    obtain ⟨d, hlive, rfl⟩ := Option.map_eq_some_iff.1 hcard
    simp [domainName?, hlive, Domain.card]

theorem clientTexts_eq (n : Narrates ds s.registry) {h : Handle .client} {address : String}
    (hc : ClientWas ds s.registry h address) :
    ((s.clients.get? h).map (·.address.text)).getD "" =
        (if .clientRemoved h ∈ ds then "" else address) ∧
      ((s.clients.get? h).map (·.name.text)).getD "" =
        if .clientRemoved h ∈ ds then "" else shownName (Deed.lastName h ds) := by
  by_cases hremoved : .clientRemoved h ∈ ds
  · have hdead := (n.clients.dead h (Deed.mem_removedClient?_iff.2 hremoved)).2
    rw [registry, SlotTable.contains_map] at hdead
    have hnone : s.clients.get? h = none := by simpa [SlotTable.contains] using hdead
    simp [hremoved, hnone]
  · obtain ⟨card, hcard, rfl⟩ := hc hremoved
    have hnamed := n.named h card hcard
    rw [registry, SlotTable.get?_map] at hcard
    obtain ⟨c, hlive, rfl⟩ := Option.map_eq_some_iff.1 hcard
    rw [if_neg hremoved, if_neg hremoved, ← hnamed, hlive]
    exact ⟨rfl, rfl⟩

theorem domainText_eq (n : Narrates ds s.registry) {h : Handle .query} {new : Arrival}
    {level : Privacy} {q : Query} (hq : s.queries.get? h = some q)
    (tells : Tells ds s.registry h new level q.card) :
    s.domainText h =
      if level.hidesDomains then hiddenDomain
      else if .domainRemoved q.domain ∈ ds then "" else TextPool.beforeNul new.domain := by
  have hname := domainName?_eq n tells.domain
  have hlevel : q.privacy = level := tells.privacy_eq
  simp only [domainText, hq, shownDomain, hlevel]
  split
  · rfl
  · exact hname

/-- Without a CNAME target nothing is shown, whatever the level. -/
theorem cnameText_eq (n : Narrates ds s.registry) {h : Handle .query} {new : Arrival}
    {level : Privacy} {q : Query} (hq : s.queries.get? h = some q)
    (tells : Tells ds s.registry h new level q.card) :
    (Deed.lastTarget h ds = none → s.cnameText h = "") ∧
      ∀ target, Deed.lastTarget h ds = some target → ∃ d, q.cname = some d ∧
        s.cnameText h =
          if level.hidesDomains then hiddenDomain
          else if .domainRemoved d ∈ ds then "" else TextPool.beforeNul target := by
  have hlevel : q.privacy = level := tells.privacy_eq
  rcases tells.cname with ⟨hnone, hcname⟩ | ⟨target, d, htarget, hcname, hd⟩
  · have hq' : q.cname = none := hcname
    rw [hnone]
    exact ⟨fun _ => by simp [cnameText, hq, shownDomain, hq'], nofun⟩
  · have hq' : q.cname = some d := hcname
    have hname := domainName?_eq n hd
    rw [htarget]
    refine ⟨nofun, ?_⟩
    rintro _ ⟨⟩
    refine ⟨d, hq', ?_⟩
    simp only [cnameText, hq, shownDomain, hq', hlevel]
    split
    · rfl
    · exact hname

theorem clientText_eq (n : Narrates ds s.registry) {h : Handle .query} {new : Arrival}
    {level : Privacy} {q : Query} (hq : s.queries.get? h = some q)
    (tells : Tells ds s.registry h new level q.card) :
    s.clientAddressText h =
        (if level.hidesClients then hiddenClient
        else if .clientRemoved q.client ∈ ds then "" else TextPool.beforeNul new.client) ∧
      s.clientNameText h =
        if level.hidesClients then hiddenClient
        else if .clientRemoved q.client ∈ ds then ""
          else shownName (Deed.lastName q.client ds) := by
  have htexts := clientTexts_eq n tells.client
  have hlevel : q.privacy = level := tells.privacy_eq
  simp only [clientAddressText, clientNameText, shownClient, hq, hlevel]
  split
  · exact ⟨rfl, rfl⟩
  · exact htexts

/-- A run in which a query is recorded tells so, and the query stays with its domain and its
client. -/
theorem narrates_recorded {settings : Settings} {now : UInt64} {directory : Option AliasLookup}
    {sink : EventSink} {start : Store} (hcreate : create settings now directory sink = .ok start)
    (before after : List Command) (new : Arrival) {h : Handle .query}
    (haccepted : (Command.recordQuery new).answer (Command.runAll before start) = .ok (.query h))
    (hunwrapped :
      Deed.Unwrapped (Command.deeds (before ++ .recordQuery new :: after) start)) :
    let recorded := (Command.recordQuery new).apply (Command.runAll before start)
    let told := Command.deeds (before ++ .recordQuery new :: after) start
    let s := Command.runAll (before ++ .recordQuery new :: after) start
    ∃ q, recorded.queries.get? h = some q ∧
      .queryRecorded h new (Command.runAll before start).privacy ∈ told ∧
      Narrates told s.registry ∧
      ∀ q', s.queries.get? h = some q' → q.domain = q'.domain ∧ q.client = q'.client := by
  intro recorded told s
  have n : Narrates told s.registry := (course_univ hcreate _).narrates hunwrapped
  obtain ⟨q, hq⟩ := SlotTable.contains_iff.1
    (contains_of_recordQuery (wellFormed_of_create hcreate before) haccepted)
  -- The course of the whole run, cut where the query is recorded.
  let soFar := Command.deeds before start ++
    [.queryRecorded h new (Command.runAll before start).privacy]
  have hmem : .queryRecorded h new (Command.runAll before start).privacy ∈ soFar := by simp [soFar]
  have htold : told = soFar ++ Command.deeds after recorded := by
    have hdeeds : told = _ := Command.deeds_append _ _ _
    rw [hdeeds, Command.deeds, haccepted, List.append_assoc]
    rfl
  have hunwrapped' : Deed.Unwrapped told := hunwrapped
  rw [htold] at hunwrapped'
  have hready := ready_univ hcreate before
  have hrecord := Store.told hready (c := .recordQuery new) fun _ _ => Set.mem_univ _
  have hbefore : Course Set.univ (Registry.empty settings directory) soFar recorded.registry := by
    have hturn := hrecord
    rw [Told, haccepted] at hturn
    exact (course_univ hcreate before).trans hturn
  have hafter : Course Set.univ recorded.registry (Command.deeds after recorded) s.registry := by
    have hs : s = Command.runAll after recorded := Command.runAll_append _ _ _
    rw [hs]
    exact Command.course_runAll (hrecord.ready hready) fun _ _ _ _ => Set.mem_univ _
  refine ⟨q, hq, htold ▸ List.mem_append_left _ hmem, n, fun q' hq' => ?_⟩
  obtain ⟨b, hb, hdomain, hclient⟩ := hafter.links (hbefore.narrates hunwrapped'.of_append) hmem
    hunwrapped' (SlotTable.get?_map_of_get? Query.card hq')
  rw [registry, SlotTable.get?_map, hq] at hb
  cases hb
  exact ⟨hdomain, hclient⟩

/-- Whatever happens after a query was recorded, reports show of it what the privacy level of that
time allows, and nothing else: its domain and its CNAME target, its client's address and the last
name of that client, each as long as the record lives that the query was recorded with. What they
read is what the pool holds at the record's offset. -/
theorem shown_texts_follow_record {settings : Settings} {now : UInt64}
    {directory : Option AliasLookup} {sink : EventSink} {start : Store}
    (hcreate : create settings now directory sink = .ok start) (before after : List Command)
    (new : Arrival) {h : Handle .query}
    (haccepted : (Command.recordQuery new).answer (Command.runAll before start) = .ok (.query h))
    (hunwrapped :
      Deed.Unwrapped (Command.deeds (before ++ .recordQuery new :: after) start)) :
    let level := (Command.runAll before start).privacy
    let recorded := (Command.recordQuery new).apply (Command.runAll before start)
    let told := Command.deeds (before ++ .recordQuery new :: after) start
    let s := Command.runAll (before ++ .recordQuery new :: after) start
    ∃ q, recorded.queries.get? h = some q ∧
      (s.queries.contains h ↔ .queryRemoved h ∉ told) ∧
      (s.queries.contains h →
        s.domainText h =
          (if level.hidesDomains then "hidden"
          else if .domainRemoved q.domain ∈ told then "" else TextPool.beforeNul new.domain) ∧
        (Deed.lastTarget h told = none → s.cnameText h = "") ∧
        (∀ target, Deed.lastTarget h told = some target →
          ∃ d, (s.queries.get? h).bind (·.cname) = some d ∧
            s.cnameText h =
              if level.hidesDomains then "hidden"
              else if .domainRemoved d ∈ told then "" else TextPool.beforeNul target) ∧
        s.clientAddressText h =
          (if level.hidesClients then "0.0.0.0"
          else if .clientRemoved q.client ∈ told then "" else TextPool.beforeNul new.client) ∧
        s.clientNameText h =
          if level.hidesClients then "0.0.0.0"
          else if .clientRemoved q.client ∈ told then ""
            else shownName (Deed.lastName q.client told)) ∧
      (∀ k d, s.domains.get? k = some d → s.pool.textAt d.name.offset = d.name.text) ∧
      ∀ k c, s.clients.get? k = some c →
        s.pool.textAt c.address.offset = c.address.text ∧
          s.pool.textAt c.name.offset = c.name.text := by
  intro level recorded told s
  obtain ⟨q, hq, hmem, n, hlinks⟩ := narrates_recorded hcreate before after new haccepted hunwrapped
  refine ⟨q, hq, ⟨fun hc hremoved => ?_, fun hkept => ?_⟩, fun hc => ?_, ?_, ?_⟩
  · have hdead := (n.queries.dead h (Deed.mem_removedQuery?_iff.2 hremoved)).2
    rw [registry, SlotTable.contains_map, hc] at hdead
    cases hdead
  · have hlives := n.lives h new level hmem hkept
    rwa [registry, SlotTable.contains_map] at hlives
  · obtain ⟨q', hq'⟩ := SlotTable.contains_iff.1 hc
    have htells := n.tells h new level hmem q'.card (SlotTable.get?_map_of_get? Query.card hq')
    -- The card tells the texts, and the links say whose removal would hide them.
    obtain ⟨hdomain, hclient⟩ := hlinks q' hq'
    rw [hdomain, hclient, hq']
    have hcname := cnameText_eq n hq' htells
    exact ⟨domainText_eq n hq' htells, hcname.1, hcname.2, clientText_eq n hq' htells⟩
  · exact fun k d hd => n.sound.textAt_domain hd
  · exact fun k c hc => n.sound.textAt_client hc

theorem answer_of_queryRecorded {new : Arrival} {level : Privacy} {h : Handle .query}
    {answer : Except Fault Answer}
    (hdeed : (Command.recordQuery new).deed? level answer = some (.queryRecorded h new level)) :
    answer = .ok (.query h) := by
  unfold Command.deed? at hdeed
  split at hdeed <;> cases hdeed
  rfl

/-- The slot of the query's domain has another domain by now, whose name is not shown for it. -/
theorem shown_texts_follow_record_of_reused_slot :
    let start := empty { buckets := 3 } 5000000 none .discard (.ending 600 3 5000000)
    let new : Arrival := { id := 1, domain := "a.test", client := "10.0.0.1", wire := 1 }
    let after : List Command := [.setPrivacy .maximum, .nameClient ⟨0, 0⟩ "laptop",
      .removeDomain ⟨0, 0⟩, .enrolDomain "b.test" false]
    let commands := [] ++ .recordQuery new :: after
    let s := Command.runAll commands start
    create { buckets := 3 } 5000000 none .discard = .ok start ∧
      (Command.recordQuery new).answer start = .ok (.query ⟨0, 0⟩) ∧
      Deed.Unwrapped (Command.deeds commands start) ∧
      s.domainName? ⟨0, 1⟩ = some "b.test" ∧ s.domainText ⟨0, 0⟩ = "" ∧
      s.clientAddressText ⟨0, 0⟩ = "10.0.0.1" ∧ s.clientNameText ⟨0, 0⟩ = "laptop" := by
  intro start new after commands s
  have hcreate : create { buckets := 3 } 5000000 none .discard = .ok start :=
    create_of_made _ _ rfl (by decide +kernel)
  have haccepted : (Command.recordQuery new).answer start = .ok (.query ⟨0, 0⟩) := by
    have hdeed : (Command.recordQuery new).deed? .showAll ((Command.recordQuery new).answer start) =
        some (.queryRecorded ⟨0, 0⟩ new .showAll) := by
      decide +kernel
    exact answer_of_queryRecorded hdeed
  have htold : Command.deeds commands start = [.queryRecorded ⟨0, 0⟩ new .showAll,
      .clientNamed ⟨0, 0⟩ "laptop", .domainRemoved ⟨0, 0⟩] := by
    decide +kernel
  have hunwrapped : Deed.Unwrapped (Command.deeds commands start) := by
    rw [htold]
    exact ⟨SlotTable.fits_of_length (by decide), SlotTable.fits_of_length (by decide),
      SlotTable.fits_of_length (by decide)⟩
  have hother : s.domainName? ⟨0, 1⟩ = some "b.test" := by decide +kernel
  have hrecord : (((Command.recordQuery new).apply start).queries.get? ⟨0, 0⟩).map
      (fun q => (q.domain, q.client)) = some (⟨0, 0⟩, ⟨0, 0⟩) := by
    decide +kernel
  obtain ⟨q, hq, hlive, hshown, -⟩ :=
    shown_texts_follow_record hcreate [] after new haccepted hunwrapped
  have hlink : (q.domain, q.client) = (⟨0, 0⟩, ⟨0, 0⟩) := by
    have hq' : ((Command.recordQuery new).apply start).queries.get? ⟨0, 0⟩ = some q := hq
    rw [hq'] at hrecord
    exact Option.some_inj.1 hrecord
  obtain ⟨hdomain, hclient⟩ := Prod.mk.inj hlink
  have hkept : .queryRemoved ⟨0, 0⟩ ∉ Command.deeds commands start := by
    rw [htold]
    decide
  obtain ⟨hdomainText, -, -, haddress, hname⟩ := hshown (hlive.2 hkept)
  refine ⟨hcreate, haccepted, hunwrapped, hother, hdomainText.trans ?_, haddress.trans ?_,
    hname.trans ?_⟩
  · rw [htold, hdomain]
    decide +kernel
  · rw [htold, hclient]
    decide +kernel
  · rw [htold, hclient]
    decide +kernel

end Store

end Sinkhole
