import Sinkhole.Proofs.Store.Departures
import Sinkhole.Proofs.Store.Enrolments
import Sinkhole.Proofs.Store.Reloads

namespace Sinkhole

/-- What happens to decisions. -/
inductive Ruling where
  | opened (h : Handle .decision) (card : Decision.Card)
  | ruled (h : Handle .decision) (verdict : Verdict) (list : Option Int64)
  | closed (h : Handle .decision)
  | forgotten
  deriving DecidableEq

namespace Ruling

variable {h k : Handle .decision} {told : List Ruling}

/-- The verdict that a decision has afterwards, if this says anything of it. -/
def verdictOf? (h : Handle .decision) : Ruling → Option (Verdict × Option Int64)
  | opened k _ => if k = h then some (.unknown, none) else none
  | ruled k verdict list => if k = h then some (verdict, list) else none
  | closed _ => none
  | forgotten => some (.unknown, none)

/-- The verdict that was stored last for a decision since it was opened and all were forgotten. -/
def lastVerdict (h : Handle .decision) (told : List Ruling) : Verdict × Option Int64 :=
  (told.reverse.findSome? (verdictOf? h)).getD (.unknown, none)

theorem lastVerdict_append (h : Handle .decision) (told : List Ruling) (r : Option Ruling) :
    lastVerdict h (told ++ r.toList) = (r.bind (verdictOf? h)).getD (lastVerdict h told) := by
  cases r with
  | none => rw [Option.toList_none, List.append_nil, Option.bind_none, Option.getD_none]
  | some r =>
    rw [lastVerdict, Option.toList_some, List.reverse_append, List.reverse_singleton,
      List.singleton_append, List.findSome?_cons, Option.bind_some]
    cases r.verdictOf? h <;> rfl

end Ruling

namespace Command

/-- What a command with an answer does to decisions. -/
def ruling? (c : Command) (t : SlotTable .decision Decision) (answer : Except Fault Answer) :
    Option Ruling :=
  match c, answer with
  | enrolDecision domain client type true, .ok (.decision (some h)) =>
    if t.contains h then none else some (.opened h ⟨domain, client, type⟩)
  | noteVerdict h verdict list, .ok (.flag true) => some (.ruled h verdict list)
  | removeDecision h, .ok (.flag true) => some (.closed h)
  | forgetDecisions, _ => some .forgotten
  | reload _, .ok _ | refresh _, .ok _ => some .forgotten
  | _, _ => none

def rulings : List Command → Store → List Ruling
  | [], _ => []
  | c :: cs, s => (c.ruling? s.decisions (c.answer s)).toList ++ rulings cs (c.apply s)

theorem ruling?_of_bystander {c : Command} (hc : c.concernsLists = false)
    (t : SlotTable .decision Decision) (answer : Except Fault Answer) :
    c.ruling? t answer = none := by
  cases c <;> first | rfl | cases hc

theorem deed?_of_closed {c : Command} {t : SlotTable .decision Decision}
    {answer : Except Fault Answer} {h : Handle .decision}
    (hclosed : c.ruling? t answer = some (.closed h)) (level : Privacy) :
    c.deed? level answer = some (.decisionRemoved h) := by
  unfold ruling? at hclosed
  split at hclosed
  · split at hclosed <;> cases hclosed
  · cases hclosed
  · cases hclosed
    rfl
  · cases hclosed
  · cases hclosed
  · cases hclosed
  · cases hclosed

theorem removed_of_closed {h : Handle .decision} {commands : List Command} {s : Store}
    (hclosed : .closed h ∈ rulings commands s) : .decisionRemoved h ∈ deeds commands s := by
  induction commands generalizing s with
  | nil => cases hclosed
  | cons c cs ih =>
    rcases List.mem_append.1 hclosed with hclosed | hclosed
    · rw [Option.mem_toList] at hclosed
      refine List.mem_append_left _ ?_
      rw [deed?_of_closed hclosed s.privacy]
      exact List.mem_cons_self
    · exact List.mem_append_right _ (ih hclosed)

end Command

open SlotTable

/-- What a ruling does to the table of decisions. -/
inductive Rules (t : SlotTable .decision Decision) :
    Option Ruling → SlotTable .decision Decision → Prop where
  | untouched : Rules t none t
  | opened {d : Decision} {h : Handle .decision} {t' : SlotTable .decision Decision}
      (put : t.insert d = .ok (h, t')) (fresh : (d.verdict, d.list) = (.unknown, none)) :
      Rules t (some (.opened h d.card)) t'
  | ruled {h : Handle .decision} (live : t.contains h) (verdict : Verdict) (list : Option Int64) :
      Rules t (some (.ruled h verdict list)) (t.modify h ({ · with verdict, list }))
  | closed {h : Handle .decision} (live : t.contains h) : Rules t (some (.closed h)) (t.vacated h)
  | forgotten : Rules t (some .forgotten) (t.mapLive Decision.forget)

namespace Rules

variable {ruling : Option Ruling} {t t' : SlotTable .decision Decision} {k : Handle .decision}
  {d d' : Decision}

theorem wellFormed (w : t.WellFormed) (r : Rules t ruling t') : t'.WellFormed := by
  cases r with
  | untouched => exact w
  | opened put => exact w.insert put
  | ruled => exact w.modify _ _
  | closed => exact w.vacated _
  | forgotten => exact w.mapLive _

/-- A decision is new, or it was there and has a new verdict only if the ruling says so. -/
theorem of_get? (w : t.WellFormed) (r : Rules t ruling t') (hd : t'.get? k = some d') :
    (ruling = some (.opened k d'.card) ∧ (d'.verdict, d'.list) = (.unknown, none)) ∨
      ∃ d, t.get? k = some d ∧ d'.card = d.card ∧
        (d'.verdict, d'.list) = (ruling.bind (Ruling.verdictOf? k)).getD (d.verdict, d.list) := by
  cases r with
  | untouched => exact .inr ⟨d', hd, rfl, rfl⟩
  | @opened e h _ put fresh =>
    rw [(placed_of_insert w put).get?_eq] at hd
    split at hd
    · rename_i hk
      cases hd
      exact .inl ⟨by rw [hk], fresh⟩
    · rename_i hk
      exact .inr ⟨d', hd, rfl, by simp [Ruling.verdictOf?, hk]⟩
  | @ruled h live verdict list =>
    rw [get?_modify] at hd
    split at hd
    · rename_i hk
      obtain ⟨d, hold, rfl⟩ := Option.map_eq_some_iff.1 hd
      exact .inr ⟨d, hold, rfl, by simp [Ruling.verdictOf?, hk]⟩
    · rename_i hk
      exact .inr ⟨d', hd, rfl, by simp [Ruling.verdictOf?, hk]⟩
  | closed live =>
    rw [get?_vacated_eq] at hd
    split at hd
    · cases hd
    · exact .inr ⟨d', hd, rfl, rfl⟩
  | forgotten =>
    rw [get?_mapLive] at hd
    obtain ⟨d, hold, rfl⟩ := Option.map_eq_some_iff.1 hd
    exact .inr ⟨d, hold, rfl, rfl⟩

theorem kept (w : t.WellFormed) (r : Rules t ruling t') (hd : t.get? k = some d) :
    ruling = some (.closed k) ∨ ∃ d', t'.get? k = some d' ∧ d'.card = d.card := by
  cases r with
  | untouched => exact .inr ⟨d, hd, rfl⟩
  | opened put => exact .inr ⟨d, (placed_of_insert w put).get?_of_get? hd, rfl⟩
  | @ruled h live verdict list =>
    rw [get?_modify]
    split
    · exact .inr ⟨_, congrArg _ hd, rfl⟩
    · exact .inr ⟨d, hd, rfl⟩
  | @closed h live =>
    rw [get?_vacated_eq]
    by_cases hk : h = k
    · exact .inl (by rw [hk])
    · exact .inr ⟨d, (if_neg hk).trans hd, rfl⟩
  | forgotten =>
    rw [get?_mapLive]
    exact .inr ⟨_, congrArg _ hd, rfl⟩

theorem get?_opened (w : t.WellFormed) {card : Decision.Card}
    (r : Rules t (some (.opened k card)) t') : ∃ d, t'.get? k = some d ∧ d.card = card := by
  cases r with
  | opened put => exact ⟨_, (placed_of_insert w put).get?_self, rfl⟩

end Rules

/-- The decisions agree with what happened to them. -/
structure Upholds (told : List Ruling) (t : SlotTable .decision Decision) : Prop where
  wellFormed : t.WellFormed
  verdict_eq : ∀ h d, t.get? h = some d → (d.verdict, d.list) = Ruling.lastVerdict h told
  opened : ∀ h d, t.get? h = some d → .opened h d.card ∈ told
  kept : ∀ h card, .opened h card ∈ told →
    .closed h ∈ told ∨ ∃ d, t.get? h = some d ∧ d.card = card

namespace Upholds

variable {told : List Ruling} {ruling : Option Ruling} {t t' : SlotTable .decision Decision}

theorem empty (name : String) (capacity : Nat) :
    Upholds [] ({ name, capacity } : SlotTable .decision Decision) where
  wellFormed := wellFormed_empty name capacity
  verdict_eq h d hd := by simp [get?] at hd
  opened h d hd := by simp [get?] at hd
  kept _ _ hopened := absurd hopened List.not_mem_nil

theorem rules (u : Upholds told t) (r : Rules t ruling t') :
    Upholds (told ++ ruling.toList) t' where
  wellFormed := r.wellFormed u.wellFormed
  verdict_eq h d hd := by
    rw [Ruling.lastVerdict_append]
    rcases r.of_get? u.wellFormed hd with ⟨rfl, hfresh⟩ | ⟨e, he, -, hverdict⟩
    · rw [hfresh, Option.bind_some, Ruling.verdictOf?, if_pos rfl, Option.getD_some]
    · -- Either the ruling speaks of the decision, or what was last said still holds.
      rw [hverdict, u.verdict_eq h e he]
  opened h d hd := by
    rcases r.of_get? u.wellFormed hd with ⟨rfl, -⟩ | ⟨e, he, hcard, -⟩
    · exact List.mem_append_right _ List.mem_cons_self
    · rw [hcard]
      exact List.mem_append_left _ (u.opened h e he)
  kept h card hopened := by
    rcases List.mem_append.1 hopened with hopened | hopened
    · rcases u.kept h card hopened with hclosed | ⟨d, hd, rfl⟩
      · exact .inl (List.mem_append_left _ hclosed)
      · refine (r.kept u.wellFormed hd).imp_left fun hruling => ?_
        rw [hruling]
        exact List.mem_append_right _ List.mem_cons_self
    · rw [Option.mem_toList] at hopened
      cases hopened
      exact .inr (r.get?_opened u.wellFormed)

end Upholds

namespace Store

open Attempt StoreM

variable {lists : ListSource}

/-- A command does to the decisions what its ruling says. -/
def Obeys (s : Store) (c : Command) : Prop :=
  Rules s.decisions (c.ruling? s.decisions (c.answer s)) (c.apply s).decisions

theorem obeys_enrolDecision (domain : Handle .domain) (client : Handle .client)
    (type : RecordType) (create : Bool) (s : Store) :
    Obeys s (.enrolDecision domain client type create) := by
  refine Ensures.outcome (P := fun answer s' => Rules s.decisions
    (Command.ruling? (.enrolDecision domain client type create) s.decisions answer) s'.decisions) ?_
  refine (ensures_map Answer.decision _).2 ?_
  refine (ensures_enrolDecision domain client type create s).2 ?_
  split
  · rename_i h hf
    cases create with
    | false => exact .untouched
    | true =>
      -- A decision is opened only under a handle that had no record.
      have hlive : s.decisions.contains h = true := contains_of_find? hf
      rw [Command.ruling?, if_pos hlive]
      exact .untouched
  · cases create with
    | false => exact .untouched
    | true =>
      rw [if_pos rfl]
      split
      · rename_i h t put
        have hnew : ¬ s.decisions.contains h = true := by simp [not_contains_of_insert put]
        rw [Command.ruling?, if_neg hnew]
        exact .opened put rfl
      · exact .untouched

theorem obeys_noteVerdict (h : Handle .decision) (verdict : Verdict) (list : Option Int64)
    (s : Store) : Obeys s (.noteVerdict h verdict list) := by
  change Rules s.decisions (Command.ruling? (.noteVerdict h verdict list) s.decisions
    (.ok (.flag (s.decisions.contains h)))) (s.decisions.modify h ({ · with verdict, list }))
  cases hlive : s.decisions.contains h with
  | true => exact .ruled hlive verdict list
  | false =>
    rw [modify_of_not_contains hlive]
    exact .untouched

theorem obeys_removeDecision (h : Handle .decision) (s : Store) :
    Obeys s (.removeDecision h) := by
  rw [Obeys, answer_eq (f := .flag) rfl, apply_eq (f := .flag) rfl, removeDecision,
    value_removeFrom, store_removeFrom s (·.decisions) rfl]
  cases hlive : s.decisions.contains h with
  | true => exact .closed hlive
  | false =>
    rw [vacated_of_not_contains hlive]
    exact .untouched

theorem obeys_reload {c : Command} (hc : IsReload lists c) (s : Store) : Obeys s c := by
  have houtcome := outcome_of_reload hc s
  split at houtcome
  · rw [Obeys, houtcome.1, houtcome.2]
    cases hc <;> exact .forgotten
  · rw [Obeys, houtcome.1, houtcome.2]
    cases hc <;> exact .untouched

theorem obeys (c : Command) (s : Store) : Obeys s c := by
  cases hc : c.concernsLists with
  | false =>
    rw [Obeys, Command.ruling?_of_bystander hc, (spares_of_bystander hc s).decisions_eq]
    exact .untouched
  | true =>
    cases c with
    | enrolDecision d client type create => exact obeys_enrolDecision d client type create s
    | noteVerdict h verdict list => exact obeys_noteVerdict h verdict list s
    | removeDecision h => exact obeys_removeDecision h s
    | forgetDecisions => exact .forgotten
    | reload lists => exact obeys_reload .plain s
    | refresh lists => exact obeys_reload .onRequest s
    | _ => cases hc

theorem upholds_runAll (commands : List Command) {told : List Ruling} {s : Store}
    (u : Upholds told s.decisions) :
    Upholds (told ++ Command.rulings commands s) (Command.runAll commands s).decisions := by
  induction commands generalizing told s with
  | nil => simpa [Command.rulings, Command.runAll] using u
  | cons c cs ih =>
    have hrest := ih (u.rules (obeys c s))
    rwa [List.append_assoc] at hrest

theorem get?_of_found {domain : Handle .domain} {client : Handle .client} {type : RecordType}
    {h : Handle .decision} {s : Store} (hfound :
      (Command.enrolDecision domain client type false).answer s = .ok (.decision (some h))) :
    ∃ d, s.decisions.get? h = some d ∧ d.card = ⟨domain, client, type⟩ := by
  have hfind : s.findDecision? domain client type = some h := by
    cases hf : s.findDecision? domain client type with
    | some k =>
      rw [(enrolDecision_known hf false).1] at hfound
      cases hfound
      rfl
    | none =>
      rw [(enrolDecision_suppressed hf).1] at hfound
      cases hfound
  obtain ⟨d, hd, hkey⟩ := get?_of_find? hfind
  refine ⟨d, hd, ?_⟩
  simp only [Bool.and_eq_true, beq_iff_eq] at hkey
  obtain ⟨⟨rfl, rfl⟩, rfl⟩ := hkey
  rfl

/-- A decision that is found for a domain, a client and a record type was opened for these three and
holds the verdict that was stored last for it since then and since the verdicts were forgotten. A
decision that was made for others, or is gone, or whose domain or client is gone while that of the
found one lives, is another one. Nothing but the commands that say so changes a decision. -/
theorem found_decisions_hold_last_verdict {settings : Settings} {now : UInt64}
    {directory : Option AliasLookup} {sink : EventSink} {start : Store}
    (hcreate : create settings now directory sink = .ok start) (commands : List Command)
    (hlasting : Deed.Lasting (Command.deeds commands start)) :
    let s := Command.runAll commands start
    let told := Command.rulings commands start
    let deeds := Command.deeds commands start
    (∀ domain client type h,
      (Command.enrolDecision domain client type false).answer s = .ok (.decision (some h)) →
      ∃ d, s.decisions.get? h = some d ∧
        (d.domain, d.client, d.type) = (domain, client, type) ∧
        (d.verdict, d.list) = Ruling.lastVerdict h told ∧
        .opened h ⟨domain, client, type⟩ ∈ told ∧
        ∀ k card, .opened k card ∈ told →
          (card ≠ ⟨domain, client, type⟩ ∨ .decisionRemoved k ∈ deeds ∨
            (.domainRemoved card.domain ∈ deeds ∧ s.domains.contains domain) ∨
            (.clientRemoved card.client ∈ deeds ∧ s.clients.contains client)) → k ≠ h) ∧
    ∀ (s : Store) (c : Command), c.ruling? s.decisions (c.answer s) = none →
      (c.apply s).decisions = s.decisions := by
  intro s told deeds
  have n : Registry.NarratesAll deeds s.registry :=
    (course_univ hcreate commands).narratesAll hlasting
  have u : Upholds told s.decisions := by
    obtain ⟨window, -, rfl, -, -⟩ := create_eq_ok hcreate
    have hempty : Upholds [] (empty settings now directory sink window).decisions := .empty _ _
    exact upholds_runAll commands hempty
  have hdead : ∀ r, Deed.removed r ∈ deeds → s.holds r = true → False := by
    intro r hremoved hlive
    rw [n.not_holds hremoved] at hlive
    cases hlive
  refine ⟨fun domain client type h hfound => ?_, fun s c hsilent => ?_⟩
  · obtain ⟨d, hd, hcard⟩ := get?_of_found hfound
    have hlives : s.decisions.contains h = true := contains_iff.2 ⟨d, hd⟩
    have hopened := u.opened h d hd
    rw [hcard] at hopened
    obtain ⟨hdomain, hclient, htype⟩ := Decision.Card.mk.inj hcard
    refine ⟨d, hd, by rw [hdomain, hclient, htype], u.verdict_eq h d hd, hopened, ?_⟩
    rintro k card hk hother rfl
    -- The decision lives, so all that it was opened for is what it was made for.
    have hsame : card = ⟨domain, client, type⟩ := by
      rcases u.kept k card hk with hclosed | ⟨e, he, rfl⟩
      · exact (hdead ⟨.decision, k⟩ (Command.removed_of_closed hclosed) hlives).elim
      · rw [hd] at he
        cases he
        exact hcard
    subst hsame
    rcases hother with hne | hremoved | ⟨hremoved, hlive⟩ | ⟨hremoved, hlive⟩
    · exact hne rfl
    · exact hdead ⟨.decision, k⟩ hremoved hlives
    · exact hdead ⟨.domain, domain⟩ hremoved hlive
    · exact hdead ⟨.client, client⟩ hremoved hlive
  · have hrules := obeys c s
    rw [Obeys, hsilent] at hrules
    generalize (c.apply s).decisions = t at hrules
    cases hrules
    rfl

/-- The slots of the domain and of the decision have others by now, and the second verdict comes too
late. -/
theorem found_decisions_hold_last_verdict_of_reused_slots :
    let start := empty { buckets := 3 } 5000000 none .discard (.ending 600 3 5000000)
    let commands : List Command := [.enrolDomain "a.test" false, .enrolClient "10.0.0.1" true false,
      .enrolDecision ⟨0, 0⟩ ⟨0, 0⟩ .a true, .noteVerdict ⟨0, 0⟩ .blocked (some 7),
      .removeDomain ⟨0, 0⟩, .removeDecision ⟨0, 0⟩, .enrolDomain "b.test" false,
      .enrolDecision ⟨0, 1⟩ ⟨0, 0⟩ .a true, .noteVerdict ⟨0, 0⟩ .blocked (some 7)]
    let s := Command.runAll commands start
    create { buckets := 3 } 5000000 none .discard = .ok start ∧
      Deed.Lasting (Command.deeds commands start) ∧
      (Command.enrolDecision ⟨0, 1⟩ ⟨0, 0⟩ .a false).answer s = .ok (.decision (some ⟨0, 1⟩)) ∧
      ∃ d, s.decisions.get? ⟨0, 1⟩ = some d ∧ (d.verdict, d.list) = (.unknown, none) := by
  intro start commands s
  have hcreate : create { buckets := 3 } 5000000 none .discard = .ok start :=
    create_of_made _ _ rfl (by decide +kernel)
  have htold : Command.deeds commands start = [.domainRemoved ⟨0, 0⟩, .decisionRemoved ⟨0, 0⟩] := by
    decide +kernel
  have hlasting : Deed.Lasting (Command.deeds commands start) := by
    rw [htold]
    exact ⟨⟨fits_of_length (by decide), fits_of_length (by decide), fits_of_length (by decide)⟩,
      fits_of_length (by decide), fits_of_length (by decide)⟩
  have hfind : s.findDecision? ⟨0, 1⟩ ⟨0, 0⟩ .a = some ⟨0, 1⟩ := by decide +kernel
  have hfound := (enrolDecision_known hfind false).1
  have hlast : Ruling.lastVerdict ⟨0, 1⟩ (Command.rulings commands start) = (.unknown, none) := by
    decide +kernel
  obtain ⟨hholds, -⟩ := found_decisions_hold_last_verdict hcreate commands hlasting
  obtain ⟨d, hd, -, hverdict, -⟩ := hholds ⟨0, 1⟩ ⟨0, 0⟩ .a ⟨0, 1⟩ hfound
  exact ⟨hcreate, hlasting, hfound, d, hd, hverdict.trans hlast⟩

end Store

end Sinkhole
