import Sinkhole.Proofs.Store.Departures

namespace Sinkhole

namespace Command

/-- The handles of the records that a command changes or refers to. -/
def targets : Command → List Reference
  | reclassify q _ _ | reclassifyCode q _ _ | noteReply q _ | attachCname q _ | noteValidation q _
  | noteResponseTime q _ | removeQuery q => [⟨.query, q⟩]
  | attachForwarder q u => [⟨.query, q⟩, ⟨.forwarder, u⟩]
  | attachDecision q d => [⟨.query, q⟩, ⟨.decision, d⟩]
  | nameClient c _ | assignGroups c _ | assignHardware c _ _ | adjustClient c _ | release c
  | followDirectory c | removeClient c => [⟨.client, c⟩]
  | manage c m => [⟨.client, c⟩, ⟨.client, m⟩]
  | nameForwarder u _ | noteResponse u _ | noteFailure u | removeForwarder u => [⟨.forwarder, u⟩]
  | noteVerdict d _ _ | removeDecision d => [⟨.decision, d⟩]
  | removeDomain d => [⟨.domain, d⟩]
  | _ => []

def missed : Command → Answer
  | followDirectory _ => .done
  | _ => .flag false

def remove : Reference → Command
  | ⟨.query, h⟩ => removeQuery h
  | ⟨.domain, h⟩ => removeDomain h
  | ⟨.client, h⟩ => removeClient h
  | ⟨.forwarder, h⟩ => removeForwarder h
  | ⟨.decision, h⟩ => removeDecision h

theorem deed?_remove (r : Reference) (level : Privacy) :
    (remove r).deed? level (.ok (.flag true)) = some (Deed.removed r) := by
  obtain ⟨K, h⟩ := r
  cases K <;> rfl

end Command

namespace Store

open Attempt StoreM SlotTable

variable {s : Store}

/-- An action answers no and leaves the store as it was. -/
def Idle (x : StoreM Bool) (s : Store) : Prop :=
  (x.run s).value = false ∧ (x.run s).store = s

section
variable {q : Handle .query}

theorem idle_reclassify (hdead : s.queries.contains q = false) (new : Status) (first : Bool) :
    Idle (reclassify q new first) s := by
  have hq := get?_of_not_contains hdead
  simp [Idle, reclassify, hq]

theorem idle_reclassifyCode (hdead : s.queries.contains q = false) (code : Nat) (first : Bool) :
    Idle (reclassifyCode q code first) s := by
  unfold reclassifyCode
  split
  · exact idle_reclassify hdead _ first
  · exact ⟨rfl, rfl⟩

theorem idle_noteReply (hdead : s.queries.contains q = false) (reply : ReplyKind) :
    Idle (noteReply q reply) s := by
  have hq := get?_of_not_contains hdead
  simp [Idle, noteReply, hq]

theorem idle_modifyQuery (hdead : s.queries.contains q = false) (f : Query → Query) :
    Idle (modifyQuery q f) s := by
  simp [Idle, modifyQuery, hdead, modify_of_not_contains hdead]

theorem idle_attachForwarder {u : Handle .forwarder}
    (hdead : s.queries.contains q = false ∨ s.forwarders.contains u = false) :
    Idle (attachForwarder q u) s := by
  rcases hdead with hdead | hdead <;> simp [Idle, attachForwarder, hdead]

theorem idle_attachDecision {d : Handle .decision}
    (hdead : s.queries.contains q = false ∨ s.decisions.contains d = false) :
    Idle (attachDecision q d) s := by
  simp only [Idle, attachDecision, run_bind, StoreM.run_get]
  split
  · rename_i hlive
    rcases hdead with hdead | hdead
    · exact idle_modifyQuery hdead _
    · rw [hlive] at hdead
      cases hdead
  · exact ⟨rfl, rfl⟩

theorem idle_removeQuery (hdead : s.queries.contains q = false) : Idle (removeQuery q) s := by
  refine ⟨(value_removeQuery q s).trans hdead, store_removeQuery_of_none s ?_⟩
  exact vacate?_eq_none_iff.2 (get?_of_not_contains hdead)

end

section
variable {c m : Handle .client}

theorem idle_adjustClient (hdead : s.clients.contains c = false) (δ : CountChange) :
    Idle (adjustClient c δ) s := by
  have hc := get?_of_not_contains hdead
  simp [Idle, adjustClient, hc]

theorem idle_release (hdead : s.clients.contains c = false) : Idle (release c) s := by
  have hc := get?_of_not_contains hdead
  simp [Idle, release, hc]

theorem idle_manage (hdead : s.clients.contains c = false ∨ s.clients.contains m = false) :
    Idle (manage c m) s := by
  rcases hdead with hdead | hdead
  · have hc := get?_of_not_contains hdead
    simp [Idle, manage, hc]
  · have hm := get?_of_not_contains hdead
    cases hc : s.clients.get? c <;> simp [Idle, manage, hc, hm]

theorem idle_removeClient (hdead : s.clients.contains c = false) : Idle (removeClient c) s := by
  have hc := get?_of_not_contains hdead
  simp [Idle, removeClient, hc]

end

theorem idle_modifyForwarder {u : Handle .forwarder} (hdead : s.forwarders.contains u = false)
    (f : Store → Forwarder → Forwarder) : Idle (modifyForwarder u f) s := by
  simp [Idle, modifyForwarder, hdead, modify_of_not_contains hdead]

theorem idle_noteVerdict {d : Handle .decision} (hdead : s.decisions.contains d = false)
    (verdict : Verdict) (list : Option Int64) : Idle (noteVerdict d verdict list) s := by
  simp [Idle, noteVerdict, hdead, modify_of_not_contains hdead]

theorem idle_removeFrom {K : Kind} {α : Type} {table : Store → SlotTable K α} {h : Handle K}
    (hdead : (table s).contains h = false) {put : SlotTable K α → Store → Store}
    (hput : put (table s) s = s) : Idle (removeFrom table put h) s := by
  refine ⟨(value_removeFrom s table put h).trans hdead, ?_⟩
  rw [store_removeFrom s table hput, vacated_of_not_contains hdead, hput]

/-- A command says that it found nothing and leaves the store as it was. -/
def Misses (s : Store) (c : Command) : Prop :=
  c.answer s = .ok c.missed ∧ c.apply s = s

theorem misses_of_idle {c : Command} {x : StoreM Bool}
    (hc : c.perform = .flag <$> (liftM x : Attempt Bool)) (hmissed : c.missed = .flag false)
    (hidle : Idle x s) : Misses s c := by
  rw [Misses, answer_eq hc, apply_eq hc, hmissed, hidle.1]
  exact ⟨rfl, hidle.2⟩

theorem misses_attachCname {q : Handle .query} (hdead : s.queries.contains q = false)
    (target : String) : Misses s (.attachCname q target) := by
  simp [Misses, Command.answer, Command.apply, Command.perform, Command.missed, attachCname, hdead]

section
variable {c : Handle .client} (hdead : s.clients.contains c = false)
include hdead

theorem misses_nameClient (name : String) : Misses s (.nameClient c name) := by
  simp [Misses, Command.answer, Command.apply, Command.perform, Command.missed, nameClient, hdead]

theorem misses_assignGroups (groups : String) : Misses s (.assignGroups c groups) := by
  simp [Misses, Command.answer, Command.apply, Command.perform, Command.missed, assignGroups, hdead]

theorem misses_assignHardware (hardware : HardwareAddress) (interface : String) :
    Misses s (.assignHardware c hardware interface) := by
  simp [Misses, Command.answer, Command.apply, Command.perform, Command.missed, assignHardware,
    hdead]

theorem misses_followDirectory : Misses s (.followDirectory c) := by
  have hc := get?_of_not_contains hdead
  cases hdirectory : s.directory <;>
    simp [Misses, Command.answer, Command.apply, Command.perform, Command.missed, followDirectory,
      hdirectory, hc]

end

theorem misses_nameForwarder {u : Handle .forwarder} (hdead : s.forwarders.contains u = false)
    (name : String) : Misses s (.nameForwarder u name) := by
  simp [Misses, Command.answer, Command.apply, Command.perform, Command.missed, nameForwarder,
    hdead]

theorem misses_of_dead {c : Command} {r : Reference} (hr : r ∈ c.targets)
    (hdead : s.holds r = false) : Misses s c := by
  cases c with
  | reclassify q new first =>
    cases List.mem_singleton.1 hr
    exact misses_of_idle rfl rfl (idle_reclassify hdead new first)
  | reclassifyCode q code first =>
    cases List.mem_singleton.1 hr
    exact misses_of_idle rfl rfl (idle_reclassifyCode hdead code first)
  | noteReply q reply =>
    cases List.mem_singleton.1 hr
    exact misses_of_idle rfl rfl (idle_noteReply hdead reply)
  | attachForwarder q u =>
    refine misses_of_idle rfl rfl (idle_attachForwarder ?_)
    -- Either handle may be the dead one.
    rcases List.mem_pair.1 hr with rfl | rfl
    · exact .inl hdead
    · exact .inr hdead
  | attachDecision q d =>
    refine misses_of_idle rfl rfl (idle_attachDecision ?_)
    rcases List.mem_pair.1 hr with rfl | rfl
    · exact .inl hdead
    · exact .inr hdead
  | attachCname q target =>
    cases List.mem_singleton.1 hr
    exact misses_attachCname hdead target
  | noteValidation q validation =>
    cases List.mem_singleton.1 hr
    exact misses_of_idle rfl rfl (idle_modifyQuery hdead _)
  | noteResponseTime q ms =>
    cases List.mem_singleton.1 hr
    exact misses_of_idle rfl rfl (idle_modifyQuery hdead _)
  | nameClient c name =>
    cases List.mem_singleton.1 hr
    exact misses_nameClient hdead name
  | assignGroups c groups =>
    cases List.mem_singleton.1 hr
    exact misses_assignGroups hdead groups
  | assignHardware c hardware interface =>
    cases List.mem_singleton.1 hr
    exact misses_assignHardware hdead hardware interface
  | adjustClient c δ =>
    cases List.mem_singleton.1 hr
    exact misses_of_idle rfl rfl (idle_adjustClient hdead δ)
  | manage c m =>
    refine misses_of_idle rfl rfl (idle_manage ?_)
    rcases List.mem_pair.1 hr with rfl | rfl
    · exact .inl hdead
    · exact .inr hdead
  | release c =>
    cases List.mem_singleton.1 hr
    exact misses_of_idle rfl rfl (idle_release hdead)
  | followDirectory c =>
    cases List.mem_singleton.1 hr
    exact misses_followDirectory hdead
  | nameForwarder u name =>
    cases List.mem_singleton.1 hr
    exact misses_nameForwarder hdead name
  | noteResponse u ms =>
    cases List.mem_singleton.1 hr
    exact misses_of_idle rfl rfl (idle_modifyForwarder hdead _)
  | noteFailure u =>
    cases List.mem_singleton.1 hr
    exact misses_of_idle rfl rfl (idle_modifyForwarder hdead _)
  | noteVerdict d verdict list =>
    cases List.mem_singleton.1 hr
    exact misses_of_idle rfl rfl (idle_noteVerdict hdead verdict list)
  | removeQuery q =>
    cases List.mem_singleton.1 hr
    exact misses_of_idle rfl rfl (idle_removeQuery hdead)
  | removeDomain d =>
    cases List.mem_singleton.1 hr
    exact misses_of_idle rfl rfl (idle_removeFrom hdead rfl)
  | removeClient c =>
    cases List.mem_singleton.1 hr
    exact misses_of_idle rfl rfl (idle_removeClient hdead)
  | removeForwarder u =>
    cases List.mem_singleton.1 hr
    exact misses_of_idle rfl rfl (idle_removeFrom hdead rfl)
  | removeDecision d =>
    cases List.mem_singleton.1 hr
    exact misses_of_idle rfl rfl (idle_removeFrom hdead rfl)
  | setClock | moveClock | setPrivacy | setStarting | setDirectory | slideTo | enrolDomain
  | enrolClient | enrolForwarder | enrolDecision | recordQuery | forgetDecisions | reload
  | refresh => cases hr

/-- Once a record was removed, every command that names it misses for good: it answers that there is
no such record, whatever lives in the slot by then, and leaves the whole store as it was. -/
theorem removed_records_stay_dead {settings : Settings} {now : UInt64}
    {directory : Option AliasLookup} {sink : EventSink} {start : Store}
    (hcreate : create settings now directory sink = .ok start) (before after : List Command)
    (r : Reference)
    (hremoved : (Command.remove r).answer (Command.runAll before start) = .ok (.flag true))
    (hlasting : Deed.Lasting (Command.deeds (before ++ .remove r :: after) start)) :
    let s := Command.runAll (before ++ .remove r :: after) start
    ∀ c : Command, r ∈ c.targets → c.answer s = .ok c.missed ∧ c.apply s = s := by
  intro s c hr
  have n : Registry.NarratesAll (Command.deeds (before ++ .remove r :: after) start) s.registry :=
    (course_univ hcreate _).narratesAll hlasting
  -- The removal is among the deeds, and no later one brings the handle back.
  refine misses_of_dead hr (n.not_holds ?_)
  rw [Command.deeds_append, Command.deeds, hremoved, Command.deed?_remove]
  simp

/-- Another forwarder has the slot by now, and the query lives. -/
theorem removed_records_stay_dead_of_reused_slot :
    let start := empty { buckets := 3 } 5000000 none .keep (.ending 600 3 5000000)
    let new : Arrival := { id := 1, domain := "a.test", client := "10.0.0.1", wire := 1 }
    let before : List Command := [.recordQuery new, .enrolForwarder "1.1.1.1" 53]
    let commands := before ++ .removeForwarder ⟨0, 0⟩ :: [.enrolForwarder "9.9.9.9" 53]
    let s := Command.runAll commands start
    create { buckets := 3 } 5000000 none .keep = .ok start ∧
      (Command.removeForwarder ⟨0, 0⟩).answer (Command.runAll before start) = .ok (.flag true) ∧
      Deed.Lasting (Command.deeds commands start) ∧
      s.queries.contains ⟨0, 0⟩ = true ∧ s.forwarders.contains ⟨0, 1⟩ = true ∧
      (Command.attachForwarder ⟨0, 0⟩ ⟨0, 0⟩).answer s = .ok (.flag false) ∧
      (Command.attachForwarder ⟨0, 0⟩ ⟨0, 0⟩).apply s = s := by
  intro start new before commands s
  have hcreate : create { buckets := 3 } 5000000 none .keep = .ok start :=
    create_of_made _ _ rfl (by decide +kernel)
  have hlives : (Command.runAll before start).forwarders.contains ⟨0, 0⟩ = true := by
    decide +kernel
  have hremoved : (Command.removeForwarder ⟨0, 0⟩).answer (Command.runAll before start) =
      .ok (.flag true) := by
    rw [answer_eq (f := .flag) rfl, removeForwarder, value_removeFrom, hlives]
  have htold : Command.deeds commands start = [.queryRecorded ⟨0, 0⟩ new .showAll,
      .forwarderRemoved ⟨0, 0⟩] := by
    decide +kernel
  have hlasting : Deed.Lasting (Command.deeds commands start) := by
    rw [htold]
    exact ⟨⟨SlotTable.fits_of_length (by decide), SlotTable.fits_of_length (by decide),
      SlotTable.fits_of_length (by decide)⟩, SlotTable.fits_of_length (by decide),
      SlotTable.fits_of_length (by decide)⟩
  refine ⟨hcreate, hremoved, hlasting, by decide +kernel, by decide +kernel, ?_⟩
  exact removed_records_stay_dead hcreate before [.enrolForwarder "9.9.9.9" 53]
    ⟨.forwarder, ⟨0, 0⟩⟩ hremoved hlasting (.attachForwarder ⟨0, 0⟩ ⟨0, 0⟩)
    (by simp [Command.targets])

end Store

end Sinkhole
