import Sinkhole.Proofs.Store.Leniency

namespace Sinkhole.Store

open Attempt StoreM

variable {α : Type} {s s' s'' : Store}

/-- Two stores with the same decisions and the same row counts of the lists. -/
structure Spares (s s' : Store) : Prop where
  decisions_eq : s'.decisions = s.decisions
  lists_eq : s'.ledger.tally.lists = s.ledger.tally.lists

theorem Spares.trans (h : Spares s s') (h' : Spares s' s'') : Spares s s'' :=
  ⟨h'.decisions_eq.trans h.decisions_eq, h'.lists_eq.trans h.lists_eq⟩

instance : Lenient Spares where
  of_eq decisions_eq lists_eq _ := ⟨decisions_eq, lists_eq⟩
  newcomer decisions_eq lists_eq _ := ⟨decisions_eq, lists_eq⟩
  trans := Spares.trans

/-- An action that leaves decisions and row counts alone, from whatever store. -/
def Sparing (x : StoreM α) : Prop :=
  ∀ s, Spares s (x.run s).store

def SparingAttempt (x : Attempt α) : Prop :=
  ∀ s, Ensures x s (fun _ => Spares s) fun _ => Spares s

theorem sparing_countArrival (client : Handle .client) (type : RecordType) (time : UInt64)
    (added : Bool) : Sparing (countArrival client type time added) := by
  intro s
  rw [store_countArrival]
  exact ⟨rfl, rfl⟩

theorem sparing_removeClient (client : Handle .client) : Sparing (removeClient client) := by
  intro s
  rw [(run_removeClient s client).2]
  exact ⟨rfl, rfl⟩

theorem sparing_addRecord (address : String) (isAlias counted : Bool) :
    SparingAttempt (addRecord address isAlias counted) := by
  intro s
  refine (seated_addRecord address isAlias counted s).mono ?_ ?_
  · rintro fault s' ⟨-, pool, rfl⟩
    exact ⟨rfl, rfl⟩
  · rintro h s' ⟨-, put⟩
    exact ⟨rfl, rfl⟩

theorem sparing_enrolClient (address : String) (counted isAlias : Bool) :
    SparingAttempt (enrolClient address counted isAlias) :=
  keeping_enrolClient_of fun _ _ => sparing_addRecord address false true

theorem sparing_assignHardware (client : Handle .client) (hardware : HardwareAddress)
    (interface : String) : SparingAttempt (assignHardware client hardware interface) := by
  refine KeepingAttempt.bind (R := Spares) .get fun s => ?_
  split
  · refine .bind (.intern interface) fun placed => .bind (.modify ?_) fun _ => ?_
    · exact fun _ => ⟨rfl, rfl⟩
    · exact .bind (keeping_followDirectory client) fun _ => .pure true
  · exact .pure false

theorem sparing_recordQuery (new : Arrival) : SparingAttempt (recordQuery new) := by
  refine KeepingAttempt.bind (R := Spares) .get fun s => ?_
  split
  · refine .bind (keeping_clientFor new.client) fun c => ?_
    refine .bind (keeping_domainFor new.domain) fun d => .bind .get fun s => ?_
    refine .bind (.ofTable ?_ _) fun h => ?_
    · exact fun _ _ => ⟨rfl, rfl⟩
    · refine .bind (.discard (.liftM (keeping_slideTo _))) fun _ => ?_
      refine .bind (.liftM (keeping_countDomain _ _)) fun _ => ?_
      refine .bind (.liftM (sparing_countArrival _ _ _ _)) fun _ => ?_
      exact .bind (.discard (.liftM (keeping_reclassify _ _ _))) fun _ => .pure h
  · exact .bind (.notify _) fun _ => .throw _

/-- Only the commands on decisions and on lists may change a decision or a row count. -/
theorem spares_of_bystander {c : Command} (hc : c.concernsLists = false) (s : Store) :
    Spares s (c.apply s) := by
  cases hscans : c.concernsScans with
  | false => exact keeps_of_unconcerned hc hscans s
  | true =>
    cases c with
    | enrolClient address counted isAlias =>
      exact keeps_of_attempt (f := .client) rfl (sparing_enrolClient address counted isAlias) s
    | recordQuery new => exact keeps_of_attempt (f := .query) rfl (sparing_recordQuery new) s
    | assignHardware c hardware interface =>
      exact keeps_of_attempt (f := .flag) rfl (sparing_assignHardware c hardware interface) s
    | removeClient c => exact keeps_of_action (f := .flag) rfl (sparing_removeClient c) s
    | _ => cases hscans

end Sinkhole.Store
