import Mathlib.Data.List.Induction
import Sinkhole.Net
import Sinkhole.Proofs.Net.HardwareKeys

namespace Sinkhole

inductive AliasEntry where
  | address (address key : String)
  | hardware (hardware : HardwareAddress) (key : String)
  deriving DecidableEq

namespace AliasEntry

def byAddress? : AliasEntry → Option (String × String)
  | address a key => some (a, key)
  | hardware .. => none

def byHardware? : AliasEntry → Option (HardwareAddress × String)
  | address .. => none
  | hardware h key => some (h, key)

def forAddress? (asked : String) : AliasEntry → Option String
  | address a key => if asked = a then some key else none
  | hardware .. => none

/-- The key that an entry has for a hardware address with these bytes. -/
def forBytes? (asked : List UInt8) : AliasEntry → Option String
  | address .. => none
  | hardware h key => if asked = h.bytes then some key else none

/-- The latest entry that has a key at all has this one. -/
def Latest (key? : AliasEntry → Option String) (entries : List AliasEntry) (key : String) : Prop :=
  ∃ earlier e later, entries = earlier ++ e :: later ∧ key? e = some key ∧
    ∀ e' ∈ later, key? e' = none

variable {key? : AliasEntry → Option String} {entries : List AliasEntry} {key : String}

theorem findSome?_reverse_eq_some_iff :
    entries.reverse.findSome? key? = some key ↔ Latest key? entries key := by
  rw [List.findSome?_eq_some_iff]
  constructor
  · rintro ⟨later, e, earlier, heq, hkey, hlater⟩
    refine ⟨earlier.reverse, e, later.reverse, ?_, hkey, fun e' he' => ?_⟩
    · simpa using congrArg List.reverse heq
    · exact hlater e' (List.mem_reverse.1 he')
  · rintro ⟨earlier, e, later, rfl, hkey, hlater⟩
    refine ⟨later.reverse, e, earlier.reverse, by simp, hkey, fun e' he' => ?_⟩
    exact hlater e' (List.mem_reverse.1 he')

theorem findSome?_reverse_eq_none_iff :
    entries.reverse.findSome? key? = none ↔ ∀ e ∈ entries, key? e = none := by
  simp only [List.findSome?_eq_none_iff, List.mem_reverse]

end AliasEntry

namespace AliasBook

open AliasEntry

def add (book : AliasBook) : AliasEntry → AliasBook
  | .address a key => book.addAddress a key
  | .hardware h key => book.addHardware h key

def ofEntries (entries : List AliasEntry) : AliasBook :=
  entries.foldl add {}

variable (entries : List AliasEntry)

theorem ofEntries_eq : ofEntries entries =
    ⟨entries.reverse.filterMap byAddress?, entries.reverse.filterMap byHardware?⟩ := by
  induction entries using List.reverseRecOn with
  | nil => rfl
  | append_singleton entries e ih =>
    have hadded : ofEntries (entries ++ [e]) = (ofEntries entries).add e := by
      rw [ofEntries, ofEntries, List.foldl_append, List.foldl_cons, List.foldl_nil]
    rw [hadded, ih, List.reverse_append, List.reverse_singleton, List.singleton_append]
    cases e with
    | address => rfl
    | hardware => rfl

theorem lookup_byAddress (asked : String) :
    (ofEntries entries).byAddress.lookup asked =
      entries.reverse.findSome? (forAddress? asked) := by
  rw [ofEntries_eq, List.lookup_eq_findSome?, ← List.head?_filterMap, List.filterMap_filterMap,
    List.head?_filterMap]
  congr 1
  funext e
  cases e with
  | address a key => simp [byAddress?, forAddress?]
  | hardware => rfl

theorem lookup_byHardware (asked : HardwareAddress) :
    (ofEntries entries).byHardware.lookup asked =
      entries.reverse.findSome? (forBytes? asked.bytes) := by
  rw [ofEntries_eq, List.lookup_eq_findSome?, ← List.head?_filterMap, List.filterMap_filterMap,
    List.head?_filterMap]
  congr 1
  funext e
  cases e with
  | address => rfl
  | hardware h key => simp [byHardware?, forBytes?, HardwareAddress.bytes_inj]

/-- A book that keeps its hardware addresses filled up with zeros finds the same keys. -/
theorem lookup_padded (book : AliasBook) (asked : HardwareAddress) :
    (book.byHardware.map fun e => (e.1.padded, e.2)).lookup asked.padded =
      book.byHardware.lookup asked := by
  rw [List.lookup_eq_findSome?, List.lookup_eq_findSome?, List.findSome?_map]
  congr 1
  funext e
  simp [HardwareAddress.padded_inj]

/-- An alias book answers the key of the latest entry for the bytes of the hardware address, or else
of the latest entry for the network address. Hardware addresses are told apart by their bytes, also
filled up with zeros and written out. -/
theorem alias_book_answers_latest_entry (entries : List AliasEntry) (address : String)
    (hardware : Option HardwareAddress) :
    let book := ofEntries entries
    let unlisted := ∀ asked ∈ hardware, ∀ e ∈ entries, forBytes? asked.bytes e = none
    (∀ key, book.key? address hardware = some key ↔
      (∃ asked ∈ hardware, Latest (forBytes? asked.bytes) entries key) ∨
        unlisted ∧ Latest (forAddress? address) entries key) ∧
    (book.key? address hardware = none ↔
      unlisted ∧ ∀ e ∈ entries, forAddress? address e = none) ∧
    (∀ asked : HardwareAddress,
      (book.byHardware.map fun e => (e.1.padded, e.2)).lookup asked.padded =
        book.byHardware.lookup asked) ∧
    ∀ a b : List UInt8, a ≠ [] → a.length ≤ 16 → b ≠ [] → b.length ≤ 16 →
      ∃ x y, HardwareAddress.ofBytes? a = some x ∧ HardwareAddress.ofBytes? b = some y ∧
        x.padded.bytes = a ∧ y.padded.bytes = b ∧ (x.padded = y.padded ↔ a = b) ∧
        (x = y ↔ a = b) ∧ (x.text = y.text ↔ a = b) := by
  intro book unlisted
  have hkey : book.key? address hardware =
      (hardware.bind fun asked => entries.reverse.findSome? (forBytes? asked.bytes)).or
        (entries.reverse.findSome? (forAddress? address)) := by
    simp only [book, key?, lookup_byAddress, lookup_byHardware]
  -- The network address is looked up only where no entry has the bytes.
  have hunlisted : unlisted ↔
      (hardware.bind fun asked => entries.reverse.findSome? (forBytes? asked.bytes)) = none := by
    simp only [unlisted, Option.bind_eq_none_iff, findSome?_reverse_eq_none_iff, Option.mem_def]
  have hlisted : ∀ key,
      (hardware.bind fun asked => entries.reverse.findSome? (forBytes? asked.bytes)) = some key ↔
        ∃ asked ∈ hardware, Latest (forBytes? asked.bytes) entries key := by
    intro key
    simp only [Option.bind_eq_some_iff, findSome?_reverse_eq_some_iff, Option.mem_def]
  refine ⟨fun key => ?_, ?_, book.lookup_padded, fun a b ha ha' hb hb' => ?_⟩
  · rw [hkey, Option.or_eq_some_iff, hlisted, findSome?_reverse_eq_some_iff, hunlisted]
  · rw [hkey, Option.or_eq_none_iff, findSome?_reverse_eq_none_iff, hunlisted]
  · let x : HardwareAddress := ⟨a, ha, ha'⟩
    let y : HardwareAddress := ⟨b, hb, hb'⟩
    have hsame : x = y ↔ a = b := HardwareAddress.bytes_inj.symm
    exact ⟨x, y, dif_pos ⟨ha, ha'⟩, dif_pos ⟨hb, hb'⟩, x.bytes_padded, y.bytes_padded,
      HardwareAddress.padded_inj.trans hsame, hsame, HardwareAddress.text_inj.trans hsame⟩

/-- A later entry for the same address goes before an earlier one, and a hardware address is not
taken for one that goes on with a zero. -/
theorem alias_book_answers_latest_entry_of_short_address :
    let short : HardwareAddress := ⟨[0, 1], by decide, by decide⟩
    let long : HardwareAddress := ⟨[0, 1, 0], by decide, by decide⟩
    let book := ofEntries [.hardware short "a", .address "10.0.0.1" "b", .hardware long "c",
      .hardware short "d"]
    book.key? "10.0.0.1" (some short) = some "d" ∧ book.key? "10.0.0.1" (some long) = some "c" ∧
      book.key? "10.0.0.1" none = some "b" ∧ book.key? "10.0.0.2" none = none ∧
      short.padded ≠ long.padded ∧ short.text ≠ long.text := by
  intro short long book
  have hbook := fun address hardware => alias_book_answers_latest_entry
    [.hardware short "a", .address "10.0.0.1" "b", .hardware long "c", .hardware short "d"]
    address hardware
  have hshort : book.key? "10.0.0.1" (some short) = some "d" :=
    ((hbook "10.0.0.1" (some short)).1 "d").2 (.inl ⟨short, rfl,
      [.hardware short "a", .address "10.0.0.1" "b", .hardware long "c"], .hardware short "d", [],
      rfl, rfl, nofun⟩)
  have hlong : book.key? "10.0.0.1" (some long) = some "c" :=
    ((hbook "10.0.0.1" (some long)).1 "c").2 (.inl ⟨long, rfl,
      [.hardware short "a", .address "10.0.0.1" "b"], .hardware long "c", [.hardware short "d"],
      rfl, rfl, by decide⟩)
  have hbare : book.key? "10.0.0.1" none = some "b" :=
    ((hbook "10.0.0.1" none).1 "b").2 (.inr ⟨nofun, [.hardware short "a"],
      .address "10.0.0.1" "b", [.hardware long "c", .hardware short "d"], rfl, rfl, by decide⟩)
  have hnone : book.key? "10.0.0.2" none = none :=
    (hbook "10.0.0.2" none).2.1.2 ⟨nofun, by decide⟩
  obtain ⟨x, y, hx, hy, -, -, hpadded, -, htext⟩ := (hbook "10.0.0.1" none).2.2.2 [0, 1] [0, 1, 0]
    (by decide) (by decide) (by decide) (by decide)
  cases hx
  cases hy
  exact ⟨hshort, hlong, hbare, hnone, fun h => absurd (hpadded.1 h) (by decide),
    fun h => absurd (htext.1 h) (by decide)⟩

end AliasBook

end Sinkhole
