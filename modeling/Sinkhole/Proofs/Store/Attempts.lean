import Sinkhole.Store.Monad

namespace Sinkhole.Attempt

open StoreM

variable {α β : Type} {s : Store} {failed : Fault → Store → Prop} {done : α → Store → Prop}
  {done' : β → Store → Prop}

/-- From `s` an attempt ends with a fault and a store that satisfy `failed`, or with a value and a
store that satisfy `done`. -/
def Ensures (x : Attempt α) (s : Store) (failed : Fault → Store → Prop)
    (done : α → Store → Prop) : Prop :=
  match (x.run.run s).value with
  | .ok a => done a (x.run.run s).store
  | .error fault => failed fault (x.run.run s).store

theorem Ensures.mono {x : Attempt α} {failed' : Fault → Store → Prop} {done' : α → Store → Prop}
    (h : Ensures x s failed done) (hfailed : ∀ fault s', failed fault s' → failed' fault s')
    (hdone : ∀ a s', done a s' → done' a s') : Ensures x s failed' done' := by
  unfold Ensures at h ⊢
  split at h
  · exact hdone _ _ h
  · exact hfailed _ _ h

theorem ensures_congr {x : Attempt α} {failed' : Fault → Store → Prop}
    {done' : α → Store → Prop} (hfailed : ∀ fault s', failed fault s' ↔ failed' fault s')
    (hdone : ∀ a s', done a s' ↔ done' a s') :
    Ensures x s failed done ↔ Ensures x s failed' done' := by
  unfold Ensures
  split
  · exact hdone _ _
  · exact hfailed _ _

theorem Ensures.store {x : Attempt α} {P : Store → Prop} (h : Ensures x s (fun _ => P) fun _ => P) :
    P (x.run.run s).store := by
  unfold Ensures at h
  split at h <;> exact h

theorem Ensures.of_ok {x : Attempt α} {a : α} (h : Ensures x s failed done)
    (hvalue : (x.run.run s).value = .ok a) : done a (x.run.run s).store := by
  unfold Ensures at h
  rwa [hvalue] at h

theorem Ensures.of_error {x : Attempt α} {fault : Fault} (h : Ensures x s failed done)
    (hvalue : (x.run.run s).value = .error fault) : failed fault (x.run.run s).store := by
  unfold Ensures at h
  rwa [hvalue] at h

theorem ensures_run (x : Attempt α) (s : Store) :
    Ensures x s (fun fault s' => (x.run.run s).value = .error fault ∧ s' = (x.run.run s).store)
      fun a s' => (x.run.run s).value = .ok a ∧ s' = (x.run.run s).store := by
  unfold Ensures
  split
  · rename_i hvalue
    exact ⟨hvalue, rfl⟩
  · rename_i hvalue
    exact ⟨hvalue, rfl⟩

theorem Ensures.and {x : Attempt α} {failed' : Fault → Store → Prop} {done' : α → Store → Prop}
    (h : Ensures x s failed done) (h' : Ensures x s failed' done') :
    Ensures x s (fun fault s' => failed fault s' ∧ failed' fault s')
      fun a s' => done a s' ∧ done' a s' := by
  unfold Ensures at h h' ⊢
  split at h
  · rename_i hvalue
    rw [hvalue] at h'
    exact ⟨h, h'⟩
  · rename_i hvalue
    rw [hvalue] at h'
    exact ⟨h, h'⟩

theorem Ensures.outcome {x : Attempt α} {P : Except Fault α → Store → Prop}
    (h : Ensures x s (fun fault => P (.error fault)) fun a => P (.ok a)) :
    P (x.run.run s).value (x.run.run s).store := by
  unfold Ensures at h
  split at h
  · rename_i hvalue
    rwa [hvalue]
  · rename_i hvalue
    rwa [hvalue]

theorem Ensures.ends {x : Attempt α} {a : α} {s' : Store}
    (h : Ensures x s (fun _ _ => False) fun b s'' => b = a ∧ s'' = s') :
    (x.run.run s).value = .ok a ∧ (x.run.run s).store = s' := by
  unfold Ensures at h
  split at h
  · rename_i b hvalue
    exact ⟨hvalue.trans (congrArg _ h.1), h.2⟩
  · exact h.elim

@[simp] theorem ensures_pure (a : α) : Ensures (pure a) s failed done ↔ done a s := Iff.rfl

@[simp] theorem ensures_bind (x : Attempt α) (f : α → Attempt β) :
    Ensures (x >>= f) s failed done' ↔
      Ensures x s failed fun a s' => Ensures (f a) s' failed done' := by
  simp only [Ensures, ExceptT.run_bind, run_bind]
  cases (x.run.run s).value <;> rfl

@[simp] theorem ensures_map (f : α → β) (x : Attempt α) :
    Ensures (f <$> x) s failed done' ↔ Ensures x s failed fun a s' => done' (f a) s' := by
  rw [map_eq_pure_bind, ensures_bind]
  rfl

@[simp] theorem ensures_discard (x : Attempt α) {done : Unit → Store → Prop} :
    Ensures (discard x) s failed done ↔ Ensures x s failed fun _ s' => done () s' := by
  simp only [discard, Functor.discard, Functor.mapConst, Function.comp_apply]
  exact ensures_map (Function.const α ()) x

@[simp] theorem ensures_get {done : Store → Store → Prop} :
    Ensures (get : Attempt Store) s failed done ↔ done s s := Iff.rfl

@[simp] theorem ensures_modify {done : Unit → Store → Prop} (f : Store → Store) :
    Ensures (modify f : Attempt Unit) s failed done ↔ done () (f s) := Iff.rfl

@[simp] theorem ensures_liftM (x : StoreM α) :
    Ensures (liftM x) s failed done ↔ done (x.run s).value (x.run s).store := by
  simp only [Ensures, run_liftM, run_map]

@[simp] theorem ensures_throw (fault : Fault) :
    Ensures (throw fault) s failed done ↔ failed fault s := Iff.rfl

@[simp] theorem ensures_tryCatch (x : Attempt α) (f : Fault → Attempt α) :
    Ensures (tryCatch x f) s failed done ↔
      Ensures x s (fun fault s' => Ensures (f fault) s' failed done) done := by
  simp only [Ensures, ExceptT.run_tryCatch, run_bind]
  cases (x.run.run s).value <;> rfl

@[simp] theorem ensures_intern (text : String) {done : PooledText → Store → Prop} :
    Ensures (intern text) s failed done ↔
      match s.pool.intern text with
      | .ok (placed, pool) => done placed { s with pool }
      | .error full => failed (.ofFullPool full) s := by
  simp only [intern, ensures_bind, ensures_get]
  cases s.pool.intern text with
  | ok r => rfl
  | error full => rfl

@[simp] theorem ensures_ofTable {K : Kind} (put : SlotTable K α → Store → Store)
    (result : Except TableFull (Handle K × SlotTable K α)) {done : Handle K → Store → Prop} :
    Ensures (ofTable put result) s failed done ↔
      match result with
      | .ok (h, t) => done h (put t s)
      | .error full => failed (.ofFullTable full) s := by
  cases result with
  | ok r => rfl
  | error full => rfl

theorem store_consult (r : Reading α) (s : Store) : ((consult r).run.run s).store = s := by
  obtain ⟨result, notices⟩ := r
  cases result <;> rfl

@[simp] theorem ensures_consult (r : Reading α) :
    Ensures (consult r) s failed done ↔
      match r.result with
      | .ok a => done a s
      | .error fault => failed (.lists fault) s := by
  obtain ⟨result, notices⟩ := r
  cases result <;> rfl

end Sinkhole.Attempt
