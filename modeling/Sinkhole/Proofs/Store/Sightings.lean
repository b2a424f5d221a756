import Sinkhole.Proofs.Store.Associations

namespace Sinkhole

namespace Client

/-- A record as it reads: of its interface only the text, wherever the pool holds it. -/
def reading (c : Client) : Client :=
  { c with interface := { text := c.interface.text } }

/-- What is counted for a client, and whom it is under. -/
def standing (c : Client) : Int64 × Int64 × List Int64 × Option (Handle .client) :=
  (c.count, c.blocked, c.history, c.manager)

theorem reading_sighted_iff {c : Client} {hardware : HardwareAddress} {interface : PooledText} :
    (c.sighted hardware interface).reading = c.reading ↔
      c.hardware = some hardware ∧ c.interface.text = interface.text ∧ c.sinceScan = 0 := by
  constructor
  · intro hsame
    have hhardware := congrArg Client.hardware hsame
    have hinterface := congrArg (fun c => c.interface.text) hsame
    have hscan := congrArg Client.sinceScan hsame
    exact ⟨hhardware.symm, hinterface.symm, hscan.symm⟩
  · rintro ⟨hhardware, hinterface, hscan⟩
    simp only [reading, sighted, hhardware, hinterface, hscan]

end Client

namespace Store

open Attempt StoreM

variable {s s' : Store} {h : Handle .client} {hardware : HardwareAddress} {interface : String}

/-- A fault on the way to the directory's alias-client leaves no more than a text in the pool. -/
theorem spared_followDirectory (h : Handle .client) (s : Store) :
    Ensures (followDirectory h) s (fun _ s' => ∃ pool, s' = { s with pool }) fun _ _ => True := by
  cases hg : s.clients.get? h with
  | none =>
    simp only [followDirectory, ensures_bind, ensures_get, hg]
    split
    · rename_i hno
      cases hno
    · trivial
  | some c =>
    cases hregular : c.isAlias with
    | true =>
      simp only [followDirectory, ensures_bind, ensures_get, hg]
      split
      · rename_i hsome
        cases hsome
        -- An alias-client does not follow the directory.
        rw [if_pos hregular]
        trivial
      · trivial
    | false =>
      exact (directed_followDirectory hg hregular).mono (fun _ _ f => f.2) fun _ _ _ => trivial

/-- How a sighting ends with a fault. -/
inductive Interrupted (s : Store) (h : Handle .client) (hardware : HardwareAddress)
    (interface : String) : Store → Prop where
  | unplaced {full : TextPool.Exhausted} (refused : s.pool.intern interface = .error full) :
      Interrupted s h hardware interface s
  | noted {placed : PooledText} {p : TextPool} (pool : TextPool)
      (known : s.clients.contains h) (text : s.pool.intern interface = .ok (placed, p)) :
      Interrupted s h hardware interface
        { s with pool, clients := s.clients.modify h (Client.sighted hardware placed) }

theorem interrupted_assignHardware (h : Handle .client) (hardware : HardwareAddress)
    (interface : String) (s : Store) :
    Ensures (assignHardware h hardware interface) s (fun _ => Interrupted s h hardware interface)
      fun _ _ => True := by
  cases hc : s.clients.contains h with
  | false => simp [assignHardware, hc]
  | true =>
    rw [ensures_assignHardware_iff hc]
    split
    -- The sighting is noted by now, and only the alias-client can still fail.
    · rename_i placed p hplaced
      refine (spared_followDirectory h _).mono ?_ fun _ _ _ => trivial
      rintro _ s' ⟨pool, rfl⟩
      exact .noted pool hc hplaced
    · rename_i full hfull
      exact .unplaced hfull

def ClientsAsBefore (s s' : Store) : Prop :=
  ∀ k, (s'.clients.get? k).map Client.reading = (s.clients.get? k).map Client.reading

theorem Interrupted.clientsAsBefore_iff (i : Interrupted s h hardware interface s') :
    ClientsAsBefore s s' ↔ (∃ full, s.pool.intern interface = .error full) ∨
      ∃ c, s.clients.get? h = some c ∧ c.hardware = some hardware ∧
        c.interface.text = TextPool.beforeNul interface ∧ c.sinceScan = 0 := by
  cases i with
  | @unplaced full refused => exact iff_of_true (fun _ => rfl) (.inl ⟨full, refused⟩)
  | @noted placed p pool known text =>
    obtain ⟨c, hc⟩ := SlotTable.contains_iff.1 known
    have htext := TextPool.text_of_intern text
    have hself := SlotTable.get?_modify s.clients h h (Client.sighted hardware placed)
    rw [if_pos rfl, hc] at hself
    -- Only the reported client could read otherwise.
    have hreads : ClientsAsBefore s
        { s with pool, clients := s.clients.modify h (Client.sighted hardware placed) } ↔
          (c.sighted hardware placed).reading = c.reading := by
      constructor
      · intro hsame
        have hsame := hsame h
        rw [hself, hc] at hsame
        exact Option.some_inj.1 hsame
      · intro hsame k
        dsimp only
        rw [SlotTable.get?_modify]
        split
        · rename_i hk
          rw [← hk, hc]
          exact congrArg some hsame
        · rfl
    rw [hreads, Client.reading_sighted_iff, htext, text]
    constructor
    · intro hnoted
      exact .inr ⟨c, hc, hnoted⟩
    · rintro (⟨full, hfull⟩ | ⟨c', hc', hnoted⟩)
      · cases hfull
      · cases hc.symm.trans hc'
        exact hnoted

theorem Interrupted.standing_eq (i : Interrupted s h hardware interface s') (k : Handle .client) :
    (s'.clients.get? k).map Client.standing = (s.clients.get? k).map Client.standing := by
  cases i with
  | unplaced => rfl
  | @noted placed =>
    have hsighted : ∀ c : Client, (c.sighted hardware placed).standing = c.standing := fun _ => rfl
    rw [← SlotTable.get?_map, SlotTable.map_modify_eq _ hsighted, SlotTable.get?_map]

/-- A sighting that ends with a fault leaves every client's record as it was exactly if the
interface found no room or there was nothing new to note. No count and no alias-client changes. -/
theorem interrupted_sighting_stays_noted (s : Store) (h : Handle .client)
    (hardware : HardwareAddress) (interface : String) {fault : Fault}
    (hfault : (Command.assignHardware h hardware interface).answer s = .error fault) :
    let s' := (Command.assignHardware h hardware interface).apply s
    Interrupted s h hardware interface s' ∧
      (∀ k, (s'.clients.get? k).map Client.standing = (s.clients.get? k).map Client.standing) ∧
      (ClientsAsBefore s s' ↔ (∃ full, s.pool.intern interface = .error full) ∨
        ∃ c, s.clients.get? h = some c ∧ c.hardware = some hardware ∧
          c.interface.text = TextPool.beforeNul interface ∧ c.sinceScan = 0) := by
  intro s'
  have hensures : Ensures (Command.assignHardware h hardware interface).perform s
      (fun _ => Interrupted s h hardware interface) fun _ _ => True := by
    simp only [Command.perform, ensures_bind]
    exact interrupted_assignHardware h hardware interface s
  have hinterrupted : Interrupted s h hardware interface s' := hensures.of_error hfault
  exact ⟨hinterrupted, hinterrupted.standing_eq, hinterrupted.clientsAsBefore_iff⟩

/-- The pool has room for the interface, but not for the alias-client's address. -/
theorem interrupted_sighting_stays_noted_of_full_pool :
    let start := empty { textBytes := 16 } 5000000 (some fun _ hardware =>
      hardware.map fun _ => "group") .discard (.ending 600 150 5000000)
    let s := Command.runAll [.enrolClient "10.0.0.1" true false] start
    let hardware : HardwareAddress := ⟨[0, 1, 2], by decide, by decide⟩
    let sight := Command.assignHardware ⟨0, 0⟩ hardware "eth0"
    sight.answer s = .error (.exhausted "string pool" 16) ∧
      Interrupted s ⟨0, 0⟩ hardware "eth0" (sight.apply s) ∧
      ¬ ClientsAsBefore s (sight.apply s) := by
  intro start s hardware sight
  have hfault : sight.answer s = .error (.exhausted "string pool" 16) := by decide +kernel
  obtain ⟨hinterrupted, -, hsame⟩ := interrupted_sighting_stays_noted s ⟨0, 0⟩ hardware "eth0" hfault
  refine ⟨hfault, hinterrupted, fun hkept => ?_⟩
  have hroom : (s.pool.intern "eth0").isOk := by decide +kernel
  have hunknown : (s.clients.get? ⟨0, 0⟩).map (·.hardware) = some none := by decide +kernel
  rcases hsame.1 hkept with ⟨full, hfull⟩ | ⟨c, hc, hknown, -⟩
  · rw [hfull] at hroom
    cases hroom
  · rw [hc, Option.map_some, hknown] at hunknown
    cases hunknown

/-- A client reads as sighted after a call that failed because its alias-client found no room. -/
theorem sighting_noted_without_room_for_group :
    let hardware : HardwareAddress := ⟨[0, 1, 2, 3, 4, 5], by decide, by decide⟩
    let book := ({} : AliasBook).addHardware hardware "group"
    let start := empty { textBytes := 16 } 5000000 (some book.key?) .discard
      (.ending 600 150 5000000)
    let s := Command.runAll [.enrolClient "10.0.0.1" true false] start
    let sight := Command.assignHardware ⟨0, 0⟩ hardware "eth0"
    let noted (s : Store) := (s.clients.get? ⟨0, 0⟩).map fun c =>
      (c.hardware, c.interface.text, c.sinceScan)
    create { textBytes := 16 } 5000000 (some book.key?) .discard = .ok start ∧
      sight.answer s = .error (.exhausted "string pool" 16) ∧
      noted s = some (none, "", 1) ∧ noted (sight.apply s) = some (some hardware, "eth0", 0) := by
  refine ⟨create_of_made _ _ rfl (by decide +kernel), ?_⟩
  decide +kernel

end Store

end Sinkhole
