import Sinkhole.Lists
import Sinkhole.Notice
import Sinkhole.Store.Basic

namespace Sinkhole

/-- `notices` are in the order in which they were written. -/
structure Outcome (α : Type) where
  value : α
  store : Store
  notices : List Notice := []

structure StoreM (α : Type) where
  run : Store → Outcome α

/-- An action that may end with a fault. -/
abbrev Attempt (α : Type) : Type :=
  ExceptT Fault StoreM α

namespace StoreM

instance : Monad StoreM where
  pure a := ⟨fun s => ⟨a, s, []⟩⟩
  bind x f := ⟨fun s =>
    let first := x.run s
    let second := (f first.value).run first.store
    ⟨second.value, second.store, first.notices ++ second.notices⟩⟩

instance : LawfulMonad StoreM :=
  LawfulMonad.mk' StoreM
    (fun x => by
      change StoreM.mk (fun s => ⟨(x.run s).value, (x.run s).store, (x.run s).notices ++ []⟩) = x
      simp only [List.append_nil])
    (fun a f => by simp [bind, pure])
    (fun x f g => by simp [bind])

instance : MonadStateOf Store StoreM where
  get := ⟨fun s => ⟨s, s, []⟩⟩
  set s := ⟨fun _ => ⟨(), s, []⟩⟩
  modifyGet f := ⟨fun s => ⟨(f s).1, (f s).2, []⟩⟩

def notify (n : Notice) : StoreM Unit :=
  ⟨fun s => ⟨(), s, [n]⟩⟩

def notifyIf (condition : Bool) (n : Notice) : StoreM Unit :=
  if condition then notify n else pure ()

def raise (e : Event) : StoreM Unit :=
  ⟨fun s =>
    match s.sink with
    | .keep => ⟨(), { s with events := s.events.push e }, []⟩
    | .closed => ⟨(), s, [.eventDropped e]⟩
    | .discard => ⟨(), s, []⟩⟩

variable {α β : Type}

@[simp] theorem run_pure (a : α) (s : Store) : (pure a : StoreM α).run s = ⟨a, s, []⟩ := rfl

@[simp] theorem run_bind (x : StoreM α) (f : α → StoreM β) (s : Store) :
    (x >>= f).run s =
      ⟨((f (x.run s).value).run (x.run s).store).value,
        ((f (x.run s).value).run (x.run s).store).store,
        (x.run s).notices ++ ((f (x.run s).value).run (x.run s).store).notices⟩ := rfl

@[simp] theorem run_map (f : α → β) (x : StoreM α) (s : Store) :
    (f <$> x).run s = ⟨f (x.run s).value, (x.run s).store, (x.run s).notices⟩ := by
  rw [map_eq_pure_bind, run_bind]
  simp only [run_pure, List.append_nil]

@[simp] theorem run_get (s : Store) : (get : StoreM Store).run s = ⟨s, s, []⟩ := rfl

@[simp] theorem run_modify (f : Store → Store) (s : Store) :
    (modify f : StoreM Unit).run s = ⟨(), f s, []⟩ := rfl

@[simp] theorem run_notify (n : Notice) (s : Store) : (notify n).run s = ⟨(), s, [n]⟩ := rfl

end StoreM

namespace Attempt

open StoreM

def intern (text : String) : Attempt PooledText := do
  match (← get).pool.intern text with
  | .ok (placed, pool) =>
    modify ({ · with pool })
    return placed
  | .error full =>
    notify (.poolFull full)
    throw (.ofFullPool full)

/-- Goes on with a record's handle, or reports that its table is full. -/
def ofTable {K : Kind} {α : Type} (put : SlotTable K α → Store → Store)
    (result : Except TableFull (Handle K × SlotTable K α)) : Attempt (Handle K) := do
  match result with
  | .ok (h, table) =>
    modify (put table)
    return h
  | .error full =>
    notify (.tableFull full)
    throw (.ofFullTable full)

/-- Takes an answer over, with the notices that came with it. -/
def consult {α : Type} (r : Reading α) : Attempt α :=
  ExceptT.mk ⟨fun s =>
    match r.result with
    | .ok a => ⟨.ok a, s, r.notices⟩
    | .error fault => ⟨.error (.lists fault), s, r.notices⟩⟩

attribute [simp] ExceptT.run_bind ExceptT.run_tryCatch

@[simp] theorem map_ok {α β : Type} (f : α → β) (a : α) :
    Except.map f (.ok a : Except Fault α) = .ok (f a) := rfl

@[simp] theorem map_error {α β : Type} (f : α → β) (fault : Fault) :
    Except.map f (.error fault : Except Fault α) = .error fault := rfl

@[simp] theorem run_get : (get : Attempt Store).run = Except.ok <$> (get : StoreM Store) := rfl

@[simp] theorem run_modify (f : Store → Store) :
    (modify f : Attempt Unit).run = Except.ok <$> (modify f : StoreM Unit) := rfl

@[simp] theorem run_liftM {α : Type} (x : StoreM α) :
    (liftM x : Attempt α).run = Except.ok <$> x := rfl

end Attempt

end Sinkhole
