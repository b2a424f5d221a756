import Mathlib.Data.List.Basic
import Sinkhole.Net

namespace Sinkhole.HardwareAddress

theorem bytes_inj {a b : HardwareAddress} : a.bytes = b.bytes ↔ a = b := by
  rw [← HardwareAddress.mk.injEq]

/-! ### Filled up with zeros -/

/-- Sixteen bytes, of which the first `length` are an address. -/
structure Padded where
  buffer : Vector UInt8 16
  length : UInt8
  deriving DecidableEq

def Padded.bytes (p : Padded) : List UInt8 :=
  p.buffer.toList.take p.length.toNat

def padded (a : HardwareAddress) : Padded where
  buffer := ⟨(a.bytes ++ List.replicate (16 - a.bytes.length) 0).toArray, by
    have hle := a.length_le
    simp only [List.size_toArray, List.length_append, List.length_replicate]
    omega⟩
  length := UInt8.ofNat a.bytes.length

theorem bytes_padded (a : HardwareAddress) : a.padded.bytes = a.bytes := by
  have hlength : (UInt8.ofNat a.bytes.length).toNat = a.bytes.length := by
    have hle := a.length_le
    rw [UInt8.toNat_ofNat', Nat.mod_eq_of_lt (by omega)]
  simp only [Padded.bytes, padded, hlength, Vector.toList, List.take_left]

theorem padded_inj {a b : HardwareAddress} : a.padded = b.padded ↔ a = b := by
  constructor
  · intro hpadded
    have hbytes := congrArg Padded.bytes hpadded
    rwa [bytes_padded, bytes_padded, bytes_inj] at hbytes
  · rintro rfl
    rfl

/-! ### Written out -/

theorem digitChar_inj {m n : ℕ} (hm : m < 16) (hn : n < 16) (h : m.digitChar = n.digitChar) :
    m = n := by
  have hall : ∀ i j : Fin 16, i.val.digitChar = j.val.digitChar → i = j := by decide
  exact congrArg Fin.val (hall ⟨m, hm⟩ ⟨n, hn⟩ h)

theorem digitChar_ne_colon {n : ℕ} (hn : n < 16) : n.digitChar ≠ ':' := by
  have hall : ∀ i : Fin 16, i.val.digitChar ≠ ':' := by decide
  exact hall ⟨n, hn⟩

theorem toList_byteText (b : UInt8) :
    (byteText b).toList = [(b.toNat / 16).digitChar, (b.toNat % 16).digitChar] := by
  have hb := b.toNat_lt
  rw [byteText, String.toList_ofList]
  by_cases hsmall : b.toNat < 16
  · rw [Nat.toDigits_of_lt_base hsmall, Nat.div_eq_of_lt hsmall, Nat.mod_eq_of_lt hsmall]
    rfl
  · rw [Nat.toDigits_of_base_le (by decide) (Nat.le_of_not_lt hsmall),
      Nat.toDigits_of_lt_base (by omega : b.toNat / 16 < 16)]
    rfl

theorem byteText_inj {b c : UInt8} : byteText b = byteText c ↔ b = c := by
  constructor
  · intro h
    have hdigits := congrArg String.toList h
    rw [toList_byteText, toList_byteText, List.cons.injEq, List.cons.injEq] at hdigits
    have hb := b.toNat_lt
    have hc := c.toNat_lt
    have hhigh := digitChar_inj (by omega) (by omega) hdigits.1
    have hlow := digitChar_inj (by omega) (by omega) hdigits.2.1
    exact UInt8.toNat_inj.1 (by omega)
  · rintro rfl
    rfl

theorem colon_not_mem_byteText (b : UInt8) : ':' ∉ (byteText b).toList := by
  have hb := b.toNat_lt
  have hhigh := digitChar_ne_colon (by omega : b.toNat / 16 < 16)
  have hlow := digitChar_ne_colon (by omega : b.toNat % 16 < 16)
  simp [toList_byteText, hhigh.symm, hlow.symm]

/-- No byte is written with a colon, so a text parts at its colons into the texts of its bytes. -/
theorem split_text (a : HardwareAddress) :
    (a.text.split ':').toList.map (·.copy) = a.bytes.map byteText := by
  have hplain : ∀ s ∈ a.bytes.map byteText, ':' ∉ s.toList := by
    intro s hs
    obtain ⟨b, -, rfl⟩ := List.mem_map.1 hs
    exact colon_not_mem_byteText b
  have hne : a.bytes.map byteText ≠ [] := by simp [a.nonempty]
  have hsplit := String.toList_split_intercalate hplain
  rwa [if_neg hne] at hsplit

theorem text_inj {a b : HardwareAddress} : a.text = b.text ↔ a = b := by
  constructor
  · intro htext
    have hsplit := split_text a
    rw [htext, split_text b] at hsplit
    have hbytes := (List.map_injective_iff.2 fun _ _ => byteText_inj.1) hsplit
    exact bytes_inj.1 hbytes.symm
  · rintro rfl
    rfl

end Sinkhole.HardwareAddress
