import Sinkhole.Proofs.Store.Repeats

namespace Sinkhole

/-- A client after the neighbour table reported it. -/
def Client.sighted (hardware : HardwareAddress) (interface : PooledText) (c : Client) : Client :=
  { c with hardware := some hardware, interface, sinceScan := 0 }

theorem Client.eq_of_bare {c c' : Client} (hbare : c'.bare = c.bare) :
    c'.address = c.address ∧ c'.hardware = c.hardware ∧ c'.isAlias = c.isAlias := by
  have haddress := congrArg Client.address hbare
  have hhardware := congrArg Client.hardware hbare
  have hkind := congrArg Client.isAlias hbare
  exact ⟨haddress, hhardware, hkind⟩

namespace SlotTable

variable {t t' : SlotTable .client Client} {h m : Handle .client} {c a : Client}

theorem get?_of_bare (hbare : t'.map Client.bare = t.map Client.bare) (hg : t.get? h = some c) :
    ∃ c', t'.get? h = some c' ∧ c'.bare = c.bare := by
  have hmap : (t'.map Client.bare).get? h = some c.bare := by
    rw [hbare, get?_map_of_get? Client.bare hg]
  rw [get?_map] at hmap
  exact Option.map_eq_some_iff.1 hmap

theorem get?_released_of_get? (hg : t.get? h = some c) :
    ∃ c', (t.released h).get? h = some c' ∧ c'.bare = c.bare ∧ c'.manager = none := by
  obtain ⟨c', hg', hbare⟩ := get?_of_bare (bare_released t h) hg
  refine ⟨c', hg', hbare, ?_⟩
  unfold released at hg'
  simp only [hg] at hg'
  split at hg'
  · rw [get?_modify, if_pos rfl] at hg'
    obtain ⟨b, -, rfl⟩ := Option.map_eq_some_iff.1 hg'
    rfl
  · rename_i hfree
    rw [hg] at hg'
    cases hg'
    exact hfree

theorem get?_managed_of_get? (hg : t.get? h = some c) (hregular : c.isAlias = false)
    (ha : t.get? m = some a) (halias : a.isAlias) :
    ∃ c', (t.managed h m).get? h = some c' ∧ c'.bare = c.bare ∧ c'.manager = some m := by
  obtain ⟨c', hg', hbare⟩ := get?_of_bare (bare_managed t h m) hg
  refine ⟨c', hg', hbare, ?_⟩
  unfold managed at hg'
  simp only [hg, ha, hregular, halias, Bool.not_true, Bool.or_self, Bool.false_or] at hg'
  split at hg'
  · rename_i hkept
    rw [hg] at hg'
    cases hg'
    exact beq_iff_eq.1 hkept
  · rw [get?_modify, if_pos rfl] at hg'
    obtain ⟨b, -, rfl⟩ := Option.map_eq_some_iff.1 hg'
    rfl

end SlotTable

namespace Store

open Attempt StoreM Registry

variable {s s' : Store} {h m : Handle .client} {c c' : Client} {keyOf : AliasLookup}

/-- The address of the alias-client that the directory answers for a client. -/
def presenterOf? (s : Store) (c : Client) : Option String :=
  s.directory.bind fun keyOf => keyOf (s.pool.textAt c.address.offset) c.hardware

/-- A client is under the live alias-client that the directory names for it, and under none where
the directory names none or a regular client. -/
def FollowsDirectory (s : Store) (h : Handle .client) : Prop :=
  ∃ c, s.clients.get? h = some c ∧
    match s.presenterOf? c with
    | none => c.manager = none
    | some key => ∃ m a, s.findClient? key = some m ∧ s.clients.get? m = some a ∧
        s.pool.textAt a.address.offset = key ∧ c.manager = if a.isAlias then some m else none

/-- The directory names a live regular client as the alias-client of a client. -/
def NamesRegular (s : Store) (c : Client) : Prop :=
  ∃ key m a, s.presenterOf? c = some key ∧ s.findClient? key = some m ∧
    s.clients.get? m = some a ∧ a.isAlias = false

theorem presenterOf?_eq (sound : s.registry.Sound) (hdirectory : s.directory = some keyOf)
    (hg : s.clients.get? h = some c) : s.presenterOf? c = keyOf c.address.text c.hardware := by
  rw [presenterOf?, hdirectory, Option.bind_some, (sound.textAt_client hg).1]

theorem presenterOf?_of_bare (sound : s.registry.Sound) (hdirectory : s.directory = some keyOf)
    (hg : s.clients.get? h = some c') (hbare : c'.bare = c.bare) :
    s.presenterOf? c' = keyOf c.address.text c.hardware := by
  obtain ⟨haddress, hhardware, -⟩ := Client.eq_of_bare hbare
  rw [presenterOf?_eq sound hdirectory hg, haddress, hhardware]

theorem textAt_of_findClient? (sound : s.registry.Sound) {key : String} {a : Client}
    (found : s.findClient? key = some m) (ha : s.clients.get? m = some a) :
    s.pool.textAt a.address.offset = key := by
  obtain ⟨b, hb, hspells⟩ := SlotTable.get?_of_find? found
  cases ha.symm.trans hb
  rw [(sound.textAt_client ha).1, PooledText.spells_iff.1 hspells]

theorem not_namesRegular_of_unnamed (hkey : s.presenterOf? c = none) : ¬ s.NamesRegular c := by
  rintro ⟨key, m, a, hkey', -⟩
  cases hkey.symm.trans hkey'

theorem namesRegular_iff {key : String} (hkey : s.presenterOf? c = some key) :
    s.NamesRegular c ↔
      ∃ m a, s.findClient? key = some m ∧ s.clients.get? m = some a ∧ a.isAlias = false := by
  constructor
  · rintro ⟨key', m, a, hkey', hfound⟩
    cases hkey.symm.trans hkey'
    exact ⟨m, a, hfound⟩
  · rintro ⟨m, a, hfound⟩
    exact ⟨key, m, a, hkey, hfound⟩

theorem followsDirectory_released (hdirectory : s.directory = some keyOf)
    (sound : { s with clients := s.clients.released h }.registry.Sound)
    (hg : s.clients.get? h = some c) (unnamed : keyOf c.address.text c.hardware = none) :
    { s with clients := s.clients.released h }.FollowsDirectory h := by
  obtain ⟨c', hg', hbare, free⟩ := SlotTable.get?_released_of_get? hg
  refine ⟨c', hg', ?_⟩
  rw [presenterOf?_of_bare sound hdirectory hg' hbare, unnamed]
  exact free

theorem followsDirectory_managed {a : Client} {key : String} (hdirectory : s.directory = some keyOf)
    (sound : { s with clients := s.clients.managed h m }.registry.Sound)
    (hg : s.clients.get? h = some c) (hregular : c.isAlias = false)
    (named : keyOf c.address.text c.hardware = some key) (found : s.findClient? key = some m)
    (ha : s.clients.get? m = some a) (halias : a.isAlias) :
    { s with clients := s.clients.managed h m }.FollowsDirectory h := by
  have found' : { s with clients := s.clients.managed h m }.findClient? key = some m := by
    rw [findClient?_of_registry (registry_of_clients (SlotTable.map_managed _ _ _)), found]
  obtain ⟨c', hg', hbare, under⟩ := SlotTable.get?_managed_of_get? hg hregular ha halias
  obtain ⟨a', ha', hbare'⟩ := SlotTable.get?_of_bare (SlotTable.bare_managed s.clients h m) ha
  obtain ⟨-, -, hkind⟩ := Client.eq_of_bare hbare'
  refine ⟨c', hg', ?_⟩
  rw [presenterOf?_of_bare sound hdirectory hg' hbare, named]
  refine ⟨m, a', found', ha', textAt_of_findClient? sound found' ha', ?_⟩
  rw [if_pos (hkind.trans halias)]
  exact under

/-- Where the directory names a regular client, to follow it is to have no alias-client. -/
theorem followsDirectory_iff_free (sound : s.registry.Sound) (hg : s.clients.get? h = some c)
    (hnames : s.NamesRegular c) : s.FollowsDirectory h ↔ c.manager = none := by
  obtain ⟨key, m, a, hkey, found, ha, hregular⟩ := hnames
  constructor
  · rintro ⟨c', hg', hfollows⟩
    cases hg.symm.trans hg'
    rw [hkey] at hfollows
    obtain ⟨m', a', found', ha', -, hmanager⟩ := hfollows
    cases found.symm.trans found'
    cases ha.symm.trans ha'
    rwa [hregular] at hmanager
  · intro free
    refine ⟨c, hg, ?_⟩
    rw [hkey]
    refine ⟨m, a, found, ha, textAt_of_findClient? sound found ha, ?_⟩
    rw [hregular]
    exact free

/-- The ways to end: the client follows the directory, or all stays as it was because the directory
names a regular client. -/
theorem Directed.follows_or_stays (i : Ready Set.univ s) (hkeys : DirectoryIn plainTexts s.directory)
    (sound : s'.registry.Sound) (hdirectory : s.directory = some keyOf)
    (hg : s.clients.get? h = some c) (hregular : c.isAlias = false) (d : Directed s h c s') :
    s'.FollowsDirectory h ∧ ¬ s.NamesRegular c ∨ s' = s ∧ s.NamesRegular c := by
  have hkey : s.presenterOf? c = keyOf c.address.text c.hardware :=
    presenterOf?_eq i.sound hdirectory hg
  have hsame : ∀ {keyOf'}, s.directory = some keyOf' → keyOf' = keyOf := fun hdirectory' =>
    Option.some_inj.1 (hdirectory'.symm.trans hdirectory)
  cases d with
  | undirected hno => cases hno.symm.trans hdirectory
  | released directory unnamed =>
    cases hsame directory
    have hnot := not_namesRegular_of_unnamed (hkey.trans unnamed)
    exact .inl ⟨followsDirectory_released directory sound hg unnamed, hnot⟩
  | @known _ key m directory named found =>
    cases hsame directory
    have hnames := namesRegular_iff (hkey.trans named)
    obtain ⟨a, ha, -⟩ := SlotTable.get?_of_find? found
    cases halias : a.isAlias with
    | true =>
      have hfollows := followsDirectory_managed directory sound hg hregular named found ha halias
      refine .inl ⟨hfollows, fun h => ?_⟩
      obtain ⟨m', a', found', ha', hregular'⟩ := hnames.1 h
      cases found.symm.trans found'
      cases ha.symm.trans ha'
      cases halias.symm.trans hregular'
    | false =>
      -- Nothing is done, not even to the association that the client had.
      rw [SlotTable.managed_of_regular ha halias]
      exact .inr ⟨rfl, hnames.2 ⟨m, a, found, ha, halias⟩⟩
  | @added _ key m s₁ directory named unknown added =>
    cases hsame directory
    -- A key without a NUL is found again by the record that was added for it.
    have given : TextPool.Plain key := hkeys keyOf directory _ _ key named
    have w := (SlotTable.wellFormed_map Client.card).1 i.sound.clients
    obtain ⟨events, text_eq, put⟩ := added
    rename_i pool t
    have hp := SlotTable.placed_of_insert w put
    rw [TextPool.beforeNul_eq_self_iff.2 given] at text_eq
    have found := hp.addsOne.find?_of_none unknown hp.get?_self (PooledText.spells_iff.2 text_eq)
    have hfollows := followsDirectory_managed (s := { s with pool, clients := t, events }) directory
      sound (hp.get?_of_get? hg) hregular named found hp.get?_self rfl
    refine .inl ⟨hfollows, fun h => ?_⟩
    obtain ⟨m', -, found', -⟩ := (namesRegular_iff (hkey.trans named)).1 h
    cases unknown.symm.trans found'

/-- A regular client follows the directory afterwards unless it had an alias-client and the
directory names a regular client. -/
theorem Directed.followsDirectory_iff (i : Ready Set.univ s)
    (hkeys : DirectoryIn plainTexts s.directory) (sound : s'.registry.Sound)
    (hdirectory : s.directory = some keyOf) (hg : s.clients.get? h = some c)
    (hregular : c.isAlias = false) (d : Directed s h c s') :
    s'.FollowsDirectory h ↔ c.manager = none ∨ ¬ s.NamesRegular c := by
  rcases d.follows_or_stays i hkeys sound hdirectory hg hregular with
    ⟨hfollows, hnot⟩ | ⟨rfl, hnames⟩
  · exact iff_of_true hfollows (.inr hnot)
  · rw [followsDirectory_iff_free i.sound hg hnames]
    exact ⟨.inl, fun h => h.resolve_right fun hnot => hnot hnames⟩

theorem ensures_followDirectory (i : Ready Set.univ s) (hkeys : DirectoryIn plainTexts s.directory)
    (hdirectory : s.directory = some keyOf) (hg : s.clients.get? h = some c)
    (hregular : c.isAlias = false) :
    Ensures (followDirectory h) s (fun _ _ => True) fun _ s' =>
      (s'.FollowsDirectory h ↔ c.manager = none ∨ ¬ s.NamesRegular c) := by
  have hgrows := grows_followDirectory i h
  refine ((directed_followDirectory hg hregular).and hgrows).mono (fun _ _ _ => trivial) ?_
  rintro _ s' ⟨directed, g, -⟩
  exact directed.followsDirectory_iff i hkeys (g.ready i).sound hdirectory hg hregular

/-- A client that is known is noted as sighted once its interface has found room, and follows the
directory then. -/
theorem ensures_assignHardware_iff (hc : s.clients.contains h) {hardware : HardwareAddress}
    {interface : String} {failed : Fault → Store → Prop} {done : Bool → Store → Prop} :
    Ensures (assignHardware h hardware interface) s failed done ↔
      match s.pool.intern interface with
      | .ok (placed, pool) => Ensures (followDirectory h)
          { s with pool, clients := s.clients.modify h (Client.sighted hardware placed) } failed
          fun _ => done true
      | .error full => failed (.ofFullPool full) s := by
  simp only [assignHardware, ensures_bind, ensures_get, hc, if_true, ensures_intern, ensures_modify,
    ensures_pure]
  rfl

theorem NamesRegular.of_cards (hcards : s'.clients.map Client.card = s.clients.map Client.card)
    (hkey : s'.presenterOf? c' = s.presenterOf? c) (hnames : s'.NamesRegular c') :
    s.NamesRegular c := by
  obtain ⟨key, m, a', hkey', found, ha', hregular⟩ := hnames
  have hscan : ∀ s : Store, s.findClient? key =
      (s.clients.map Client.card).find? fun c => c.address.spells key := fun s =>
    (SlotTable.find?_map Client.card s.clients (·.address.spells key)).symm
  have hcard : (s.clients.map Client.card).get? m = some a'.card := by
    rw [← hcards, SlotTable.get?_map_of_get? Client.card ha']
  rw [SlotTable.get?_map] at hcard
  obtain ⟨a, ha, heq⟩ := Option.map_eq_some_iff.1 hcard
  have hkind := congrArg Client.Card.isAlias heq
  rw [hscan, hcards, ← hscan] at found
  exact ⟨key, m, a, hkey.symm.trans hkey', found, ha, hkind.trans hregular⟩

theorem ensures_assignHardware (i : Ready Set.univ s) (hkeys : DirectoryIn plainTexts s.directory)
    (hdirectory : s.directory = some keyOf) (hg : s.clients.get? h = some c)
    (hregular : c.isAlias = false) (hardware : HardwareAddress) (interface : String) :
    Ensures (assignHardware h hardware interface) s (fun _ _ => True) fun _ s' =>
      (s'.FollowsDirectory h ↔
        c.manager = none ∨ ¬ s.NamesRegular { c with hardware := some hardware }) := by
  rw [ensures_assignHardware_iff (SlotTable.contains_iff.2 ⟨c, hg⟩)]
  split
  · rename_i placed pool hplaced
    -- The report is noted before the directory is asked, but no card shows it.
    have hcard : ∀ c : Client, (c.sighted hardware placed).card = c.card := fun _ => rfl
    let s₁ : Store :=
      { s with pool, clients := s.clients.modify h (Client.sighted hardware placed) }
    have hinterned : Grown Set.univ s { s with pool } := .turn (.interned hplaced) rfl
    have i₁ : Ready Set.univ s₁ := (hinterned.trans (grown_describe h hcard _)).ready i
    have hg₁ : s₁.clients.get? h = some (c.sighted hardware placed) := by
      rw [SlotTable.get?_modify, if_pos rfl, hg]
      rfl
    have hcards : s₁.clients.map Client.card = s.clients.map Client.card :=
      SlotTable.map_modify_eq _ hcard s.clients h
    have hkey : s₁.presenterOf? (c.sighted hardware placed) =
        s.presenterOf? { c with hardware := some hardware } := by
      rw [presenterOf?_eq i₁.sound hdirectory hg₁, presenterOf?, hdirectory, Option.bind_some,
        (i.sound.textAt_client hg).1]
      rfl
    -- So the directory names a regular client before and after, or not at all.
    have hnames : s₁.NamesRegular (c.sighted hardware placed) ↔
        s.NamesRegular { c with hardware := some hardware } :=
      ⟨.of_cards hcards hkey, .of_cards hcards.symm hkey.symm⟩
    refine (ensures_followDirectory i₁ hkeys hdirectory hg₁ hregular).mono
      (fun _ _ _ => trivial) ?_
    intro _ s' hfollows
    rw [hfollows, hnames]
    exact Iff.rfl
  · trivial

theorem run_followDirectory (h : Handle .client) (s : Store) :
    (Command.followDirectory h).apply s = ((followDirectory h).run.run s).store ∧
      ((Command.followDirectory h).answer s = .ok .done ↔
        ((followDirectory h).run.run s).value = .ok ()) := by
  have hperform : (Command.followDirectory h).perform = (fun _ => .done) <$> followDirectory h := rfl
  simp only [Command.apply, Command.answer, hperform, ExceptT.run_map, run_map]
  cases ((followDirectory h).run.run s).value <;> simp

/-- A client that is added has no alias-client yet where it follows the directory. -/
theorem ensures_addClient_follows (i : Ready Set.univ s)
    (hkeys : DirectoryIn plainTexts s.directory) (hdirectory : s.directory = some keyOf)
    {address : String} (unknown : s.findClient? address = none) (counted : Bool) :
    Ensures (addClient address counted) s (fun _ _ => True) fun h s' => ∃ s₁ c,
      s₁.clients.get? h = some c ∧ c.isAlias = false ∧ c.manager = none ∧
      s' = (Command.followDirectory h).apply s₁ ∧
      ((Command.followDirectory h).answer s₁ = .ok .done → s'.FollowsDirectory h) := by
  have w := (SlotTable.wellFormed_map Client.card).1 i.sound.clients
  have hadded := (grows_addRecord i (Set.mem_univ address) unknown false counted).and
    (enrolled_addRecord address false counted s)
  refine (ensures_addClient_iff address counted).2 (hadded.mono (fun _ _ _ => trivial) ?_)
  rintro h s' ⟨⟨g, -⟩, events, text_eq, put⟩
  rename_i placed pool t
  let s₁ : Store := { s with pool, clients := t, events }
  let s₂ : Store := { s₁ with events := s₁.eventsFiltering h }
  have hrecord : s₂.clients.get? h = some (s.newcomer placed false (if counted then 1 else 0)) :=
    (SlotTable.placed_of_insert w put).get?_self
  -- Between the insertion and the directory only an event is raised.
  have hasked : Grown Set.univ s₁ s₂ := .of_eq rfl rfl
  obtain ⟨happly, hanswer⟩ := run_followDirectory h s₂
  have hfollows :=
    ensures_followDirectory ((g.trans hasked).ready i) hkeys hdirectory hrecord rfl
  refine ((ensures_run (followDirectory h) s₂).and hfollows).mono ?_ ?_
  · rintro fault s' ⟨⟨hvalue, rfl⟩, -⟩
    refine ⟨s₂, _, hrecord, rfl, rfl, happly.symm, fun hdone => ?_⟩
    rw [hanswer, hvalue] at hdone
    cases hdone
  · rintro _ s' ⟨⟨-, rfl⟩, hfollows⟩
    exact ⟨s₂, _, hrecord, rfl, rfl, happly.symm, fun _ => hfollows.2 (.inl rfl)⟩

/-- A regular client follows the directory exactly if it had no alias-client before or the directory
does not name a regular client; one that is added always does. -/
theorem follows_directory_unless_kept {settings : Settings} {now : UInt64}
    {directory : Option AliasLookup} {keyOf : AliasLookup} {sink : EventSink} {start : Store}
    (hcreate : create settings now directory sink = .ok start) (commands : List Command)
    (hset : Command.lastDirectory commands directory = some keyOf)
    (hkeys : DirectoryIn plainTexts (some keyOf)) :
    let s := Command.runAll commands start
    (∀ h c, s.clients.get? h = some c → c.isAlias = false →
      ((Command.followDirectory h).answer s = .ok .done →
        (((Command.followDirectory h).apply s).FollowsDirectory h ↔
          c.manager = none ∨ ¬ s.NamesRegular c)) ∧
      ∀ hardware interface b,
        (Command.assignHardware h hardware interface).answer s = .ok (.flag b) →
        (((Command.assignHardware h hardware interface).apply s).FollowsDirectory h ↔
          c.manager = none ∨ ¬ s.NamesRegular { c with hardware := some hardware })) ∧
    ∀ address counted h, s.findClient? address = none →
      ((addClient address counted).run.run s).value = .ok h → ∃ s₁ c,
        s₁.clients.get? h = some c ∧ c.isAlias = false ∧ c.manager = none ∧
        ((addClient address counted).run.run s).store = (Command.followDirectory h).apply s₁ ∧
        ((Command.followDirectory h).answer s₁ = .ok .done →
          ((addClient address counted).run.run s).store.FollowsDirectory h) := by
  intro s
  have i : Ready Set.univ s := ready_univ hcreate commands
  have hdirectory : s.directory = some keyOf := (directory_of_create hcreate commands).trans hset
  rw [← hdirectory] at hkeys
  refine ⟨fun h c hg hregular => ⟨fun hanswer => ?_, fun hardware interface b hanswer => ?_⟩,
    fun address counted h unknown hvalue => ?_⟩
  · obtain ⟨happly, hdone⟩ := run_followDirectory h s
    rw [happly]
    exact (ensures_followDirectory i hkeys hdirectory hg hregular).of_ok (hdone.1 hanswer)
  · have hfollows : Ensures (Command.assignHardware h hardware interface).perform s
        (fun _ _ => True) fun _ s' => (s'.FollowsDirectory h ↔
          c.manager = none ∨ ¬ s.NamesRegular { c with hardware := some hardware }) := by
      simp only [Command.perform, ensures_bind]
      exact ensures_assignHardware i hkeys hdirectory hg hregular hardware interface
    exact hfollows.of_ok hanswer
  · exact (ensures_addClient_follows i hkeys hdirectory unknown counted).of_ok hvalue

/-- A client under one alias-client is put under another when its hardware address is known. -/
theorem follows_directory_unless_kept_of_moved_client :
    let keyOf : AliasLookup := fun _ hardware => some (if hardware.isSome then "by-mac" else "by-ip")
    let start := empty { buckets := 3 } 5000000 none .discard (.ending 600 3 5000000)
    let before : List Command := [.setDirectory keyOf, .enrolClient "10.0.0.5" true false]
    let s := Command.runAll before start
    let sight := Command.assignHardware ⟨0, 0⟩ ⟨[0, 1, 2], by decide, by decide⟩ "eth0"
    create { buckets := 3 } 5000000 none .discard = .ok start ∧
      Command.lastDirectory before none = some keyOf ∧ DirectoryIn plainTexts (some keyOf) ∧
      (∃ c, s.clients.get? ⟨0, 0⟩ = some c ∧ c.isAlias = false ∧ c.manager = some ⟨1, 0⟩) ∧
      sight.answer s = .ok (.flag true) ∧ (sight.apply s).FollowsDirectory ⟨0, 0⟩ := by
  intro keyOf start before s sight
  have hset : Command.lastDirectory before none = some keyOf := rfl
  have hcreate : create { buckets := 3 } 5000000 none .discard = .ok start :=
    create_of_made _ _ rfl (by decide +kernel)
  have hkeys : DirectoryIn plainTexts (some keyOf) := by
    intro keyOf' hkeyOf address hardware key hkey
    have hboth : TextPool.Plain "by-mac" ∧ TextPool.Plain "by-ip" := by decide
    cases hkeyOf
    cases hkey
    cases hardware with
    | none => exact hboth.2
    | some _ => exact hboth.1
  have hclient : (s.clients.get? ⟨0, 0⟩).map (fun c => (c.isAlias, c.manager)) =
      some (false, some ⟨1, 0⟩) := by
    decide +kernel
  obtain ⟨c, hg, hc⟩ := Option.map_eq_some_iff.1 hclient
  obtain ⟨hregular, hmanager⟩ := Prod.mk.inj hc
  have hanswer : sight.answer s = .ok (.flag true) := by decide +kernel
  have hunknown : s.findClient? "by-mac" = none := by decide +kernel
  have hfollows := ((follows_directory_unless_kept hcreate before hset hkeys).1 ⟨0, 0⟩ c hg
    hregular).2 _ _ _ hanswer
  refine ⟨hcreate, hset, hkeys, ⟨c, hg, hregular, hmanager⟩, hanswer, hfollows.2 (.inr ?_)⟩
  rintro ⟨key, m, a, hkey, found, -⟩
  have hdirectory : s.directory = some keyOf := directory_of_create hcreate before
  rw [presenterOf?, hdirectory] at hkey
  have hmac : "by-mac" = key := Option.some_inj.1 hkey
  rw [← hmac, hunknown] at found
  cases found

/-- A client whose hardware address leads to the address of a regular client stays under the
alias-client that it had. -/
theorem client_keeps_group_where_address_is_taken :
    let hardware : HardwareAddress := ⟨[0, 1, 2, 3, 4, 5], by decide, by decide⟩
    let book := (({} : AliasBook).addAddress "10.0.0.9" "group").addHardware hardware "10.0.0.8"
    let start := empty {} 5000000 (some book.key?) .discard (.ending 600 150 5000000)
    let s := Command.runAll
      [.enrolClient "10.0.0.8" true false, .enrolClient "10.0.0.9" true false] start
    let sight := Command.assignHardware ⟨1, 0⟩ hardware "eth0"
    create {} 5000000 (some book.key?) .discard = .ok start ∧
      sight.answer s = .ok (.flag true) ∧
      ((sight.apply s).clients.get? ⟨1, 0⟩).map (fun c => (c.address.text, c.hardware)) =
        some ("10.0.0.9", some hardware) ∧
      book.key? "10.0.0.9" (some hardware) = some "10.0.0.8" ∧
      ((sight.apply s).clients.get? ⟨0, 0⟩).map (fun c => (c.address.text, c.isAlias)) =
        some ("10.0.0.8", false) ∧
      ((sight.apply s).clients.get? ⟨1, 0⟩).map (·.manager) = some (some ⟨2, 0⟩) ∧
      ((sight.apply s).clients.get? ⟨2, 0⟩).map (fun a => (a.address.text, a.isAlias, a.count)) =
        some ("group", true, 1) := by
  refine ⟨create_of_made _ _ rfl (by decide +kernel), ?_⟩
  decide +kernel

end Store

end Sinkhole
