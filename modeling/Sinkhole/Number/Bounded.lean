namespace Sinkhole

/-- The sum, or the largest word if it does not fit. -/
def satAdd (a b : UInt64) : UInt64 :=
  if a + b < a then 18446744073709551615 else a + b

def satSub (a b : UInt64) : UInt64 :=
  if a < b then 0 else a - b

/-- The product with a natural, or the largest word if it does not fit. -/
def satMul (n : Nat) (a : UInt64) : UInt64 :=
  if n * a.toNat < 18446744073709551616 then UInt64.ofNat (n * a.toNat) else 18446744073709551615

/-- The word with a value. Where a program is told to check its arithmetic, it stops at a value that
is no word. -/
def word? (n : Nat) : Option UInt64 :=
  if n < 18446744073709551616 then some (UInt64.ofNat n) else none

def add? (a b : UInt64) : Option UInt64 :=
  word? (a.toNat + b.toNat)

def sub? (a b : UInt64) : Option UInt64 :=
  if b ≤ a then some (a - b) else none

def times? (n : Nat) (a : UInt64) : Option UInt64 :=
  word? (n * a.toNat)

theorem toNat_satAdd (a b : UInt64) :
    (satAdd a b).toNat = min (a.toNat + b.toNat) 18446744073709551615 := by
  have ha := a.toNat_lt
  have hb := b.toNat_lt
  unfold satAdd
  split
  · rename_i h
    rw [UInt64.lt_iff_toNat_lt, UInt64.toNat_add] at h
    change 18446744073709551615 = _
    omega
  · rename_i h
    rw [UInt64.lt_iff_toNat_lt, UInt64.toNat_add] at h
    rw [UInt64.toNat_add]
    omega

theorem toNat_satSub (a b : UInt64) : (satSub a b).toNat = a.toNat - b.toNat := by
  have ha := a.toNat_lt
  unfold satSub
  split
  · rename_i h
    rw [UInt64.lt_iff_toNat_lt] at h
    change 0 = _
    omega
  · rename_i h
    rw [UInt64.lt_iff_toNat_lt] at h
    exact UInt64.toNat_sub_of_le _ _ (UInt64.le_iff_toNat_le.2 (Nat.le_of_not_lt h))

theorem toNat_satMul (n : Nat) (a : UInt64) :
    (satMul n a).toNat = min (n * a.toNat) 18446744073709551615 := by
  unfold satMul
  split
  · rename_i h
    rw [UInt64.toNat_ofNat_of_lt' h]
    omega
  · change 18446744073709551615 = _
    omega

theorem word?_eq_some_iff {n : Nat} {a : UInt64} : word? n = some a ↔ n = a.toNat := by
  have hlt := a.toNat_lt
  unfold word?
  split
  · rename_i hn
    rw [Option.some_inj, ← UInt64.toNat_inj, UInt64.toNat_ofNat_of_lt' hn]
  · simp only [reduceCtorEq, false_iff]
    omega

theorem add?_eq_some_iff {a b c : UInt64} : add? a b = some c ↔ a.toNat + b.toNat = c.toNat :=
  word?_eq_some_iff

theorem times?_eq_some_iff {n : Nat} {a c : UInt64} :
    times? n a = some c ↔ n * a.toNat = c.toNat :=
  word?_eq_some_iff

theorem sub?_eq_some_iff {a b c : UInt64} : sub? a b = some c ↔ a.toNat = b.toNat + c.toNat := by
  unfold sub?
  split
  · rename_i hle
    have hsub := UInt64.toNat_sub_of_le _ _ hle
    rw [UInt64.le_iff_toNat_le] at hle
    rw [Option.some_inj, ← UInt64.toNat_inj, hsub]
    omega
  · rename_i hlt
    rw [UInt64.le_iff_toNat_le] at hlt
    simp only [reduceCtorEq, false_iff]
    omega

end Sinkhole
