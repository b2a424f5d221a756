namespace Sinkhole

/-- The kinds of record that a store keeps. A handle of one kind is no handle of another. -/
inductive Kind where
  | domain
  | client
  | forwarder
  | decision
  | query
  deriving DecidableEq, Repr

structure Handle (K : Kind) where
  index : Nat
  generation : UInt32
  deriving DecidableEq, Repr

namespace Handle

def tag {K : Kind} (h : Handle K) : String :=
  s!"#{h.index}g{h.generation}"

end Handle

structure Slot (α : Type) where
  generation : UInt32 := 0
  value : Option α := none
  deriving DecidableEq, Repr

/-- `cursor` is the slot that the next `push` writes to. -/
structure SlotTable (K : Kind) (α : Type) where
  name : String
  capacity : Nat
  slots : Array (Slot α) := #[]
  live : Nat := 0
  cursor : Nat := 0

structure TableFull where
  name : String
  capacity : Nat
  deriving DecidableEq, Repr

/-- The size of a table. `highWater` counts the slots that were ever used. -/
structure Occupancy where
  name : String
  capacity : Nat
  highWater : Nat
  live : Nat
  deriving DecidableEq, Repr

def Occupancy.free (s : Occupancy) : Nat :=
  s.highWater - s.live

namespace SlotTable

variable {K : Kind} {α : Type}

/-- Slot numbers are 32-bit words, of which the last is never used. -/
def maxIndex : Nat := 4294967295

def highWater (t : SlotTable K α) : Nat :=
  t.slots.size

def occupancy (t : SlotTable K α) : Occupancy :=
  ⟨t.name, t.capacity, t.highWater, t.live⟩

/-- The record that a handle names, unless it is gone. -/
def get? (t : SlotTable K α) (h : Handle K) : Option α :=
  match t.slots[h.index]? with
  | some slot => if slot.generation = h.generation then slot.value else none
  | none => none

def contains (t : SlotTable K α) (h : Handle K) : Bool :=
  (t.get? h).isSome

/-- Changes the record that a handle names; a handle that names none changes nothing. -/
def modify (t : SlotTable K α) (h : Handle K) (f : α → α) : SlotTable K α :=
  { t with slots := t.slots.modify h.index fun slot =>
      if slot.generation = h.generation then { slot with value := slot.value.map f } else slot }

def mapLive (t : SlotTable K α) (f : α → α) : SlotTable K α :=
  { t with slots := t.slots.map fun slot => { slot with value := slot.value.map f } }

def occupant? (t : SlotTable K α) (index : Nat) : Option (Handle K) :=
  match t.slots[index]? with
  | some ⟨generation, some _⟩ => some ⟨index, generation⟩
  | _ => none

def entries (t : SlotTable K α) : List (Handle K × α) :=
  t.slots.toList.zipIdx.filterMap fun (slot, index) =>
    slot.value.map fun value => (⟨index, slot.generation⟩, value)

def find? (t : SlotTable K α) (p : α → Bool) : Option (Handle K) :=
  (t.slots.findIdx? fun slot => slot.value.any p).bind t.occupant?

/-- The slot `back` writes before the cursor, going round the ring. -/
def slotBefore (t : SlotTable K α) (back : Nat) : Nat :=
  (t.cursor + t.slots.size - back) % t.slots.size

def handleIf? (t : SlotTable K α) (p : α → Bool) (index : Nat) : Option (Handle K) :=
  match t.slots[index]? with
  | some ⟨generation, some value⟩ => if p value then some ⟨index, generation⟩ else none
  | _ => none

/-- The most recently pushed live record that satisfies `p`, among the last `window` slots written.
-/
def findRecent? (t : SlotTable K α) (window : Nat) (p : α → Bool) : Option (Handle K) :=
  (List.range (min window t.slots.size)).findSome? fun i => t.handleIf? p (t.slotBefore (i + 1))

/-- Whether `push` has a slot to write to. Once round the ring, the slot at the cursor must have
been vacated, whatever room there is elsewhere. -/
def hasRoom (t : SlotTable K α) : Bool :=
  match t.slots[t.cursor]? with
  | some slot => slot.value.isNone
  | none => t.cursor < t.capacity && t.cursor < maxIndex

def full (t : SlotTable K α) : TableFull :=
  ⟨t.name, t.capacity⟩

def nextCursor (t : SlotTable K α) (index : Nat) : Nat :=
  if index + 1 ≥ t.capacity then 0 else index + 1

/-- Writes a record at the cursor and moves the cursor on. The allocation of a new slot is assumed
to succeed. -/
def push (t : SlotTable K α) (value : α) : Except TableFull (Handle K × SlotTable K α) :=
  if t.hasRoom then
    let index := t.cursor
    let generation := (t.slots[index]?.map (·.generation)).getD 0
    let slots :=
      if index < t.slots.size then t.slots.modify index ({ · with value := some value })
      else t.slots.push ⟨0, some value⟩
    .ok (⟨index, generation⟩,
      { t with slots, live := t.live + 1, cursor := t.nextCursor index })
  else
    .error t.full

/-- Puts a record into the lowest vacated slot, or into a new one if there is none. -/
def insert (t : SlotTable K α) (value : α) : Except TableFull (Handle K × SlotTable K α) :=
  match t.slots.findIdx? (·.value.isNone) with
  | some index =>
    let generation := (t.slots[index]?.map (·.generation)).getD 0
    .ok (⟨index, generation⟩,
      { t with
        slots := t.slots.modify index ({ · with value := some value })
        live := t.live + 1 })
  | none => t.push value

/-- Vacates the slot of a live record and hands the record out. -/
def vacate? (t : SlotTable K α) (h : Handle K) : Option (α × SlotTable K α) :=
  (t.get? h).map fun value =>
    (value,
      { t with
        slots := t.slots.modify h.index fun slot => ⟨slot.generation + 1, none⟩
        live := t.live - 1 })

end SlotTable

end Sinkhole
