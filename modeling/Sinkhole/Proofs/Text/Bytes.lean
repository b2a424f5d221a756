import Mathlib.Algebra.GroupWithZero.Nat
import Sinkhole.Proofs.Text.Arena

namespace Sinkhole.Text

def encode (cs : List Char) : List UInt8 :=
  cs.flatMap String.utf8EncodeChar

/-- The text that some bytes spell, if they are UTF-8. -/
def decode? (bytes : List UInt8) : Option String :=
  String.fromUTF8? bytes.toByteArray

theorem encode_cons (c : Char) (cs : List Char) :
    encode (c :: cs) = String.utf8EncodeChar c ++ encode cs :=
  List.flatMap_cons

theorem length_encode (s : String) : (encode s.toList).length = s.utf8ByteSize := by
  rw [← String.size_toByteArray, ← String.utf8Encode_toList, List.utf8Encode, List.size_toByteArray]
  rfl

theorem decode?_encode (cs : List Char) : decode? (encode cs) = some (String.ofList cs) :=
  dif_pos ByteArray.isValidUTF8_utf8Encode

/-- Bytes that start with one of the later bytes of a character are no UTF-8. -/
theorem decode?_eq_none_of_inside {c : Char} {n : Nat} (hpos : n ≠ 0) (hlt : n < c.utf8Size)
    (rest : List UInt8) : decode? ((String.utf8EncodeChar c ++ rest).drop n) = none := by
  have hn : n < (String.utf8EncodeChar c).length := by rwa [String.length_utf8EncodeChar]
  rw [List.drop_append_of_le_length hn.le, List.drop_eq_getElem_cons hn, List.cons_append]
  refine dif_neg fun hvalid => hpos ?_
  have hfirst := hvalid.isUTF8FirstByte_getElem_zero (by simp)
  rw [List.getElem_toByteArray, List.getElem_cons_zero] at hfirst
  exact UInt8.isUTF8FirstByte_getElem_utf8EncodeChar.1 hfirst

/-- What is left of a text's bytes spells what is left of the text, if they are cut between two
characters, and else nothing. -/
theorem decode?_drop_encode {n : Nat} {cs : List Char} (hn : n ≤ (encode cs).length) :
    decode? ((encode cs).drop n) = (TextPool.dropBytes n cs).map String.ofList := by
  fun_induction TextPool.dropBytes n cs with
  | case1 cs => exact decode?_encode cs
  | case2 n => simp [encode] at hn
  | case3 n c cs hsize ih =>
    have hlength := String.length_utf8EncodeChar c
    rw [encode_cons, List.length_append, hlength] at hn
    have hskip : (String.utf8EncodeChar c ++ encode cs).drop (n + 1) =
        (String.utf8EncodeChar c).drop (n + 1) ++
          (encode cs).drop (n + 1 - (String.utf8EncodeChar c).length) := List.drop_append
    rw [hlength, List.drop_of_length_le (hlength.trans_le hsize), List.nil_append] at hskip
    rw [encode_cons, hskip]
    exact ih (by omega)
  | case4 n c cs hsize =>
    rw [encode_cons]
    exact decode?_eq_none_of_inside (Nat.succ_ne_zero n) (Nat.lt_of_not_le hsize) (encode cs)

theorem ofNat_ne_zero {n : Nat} (hpos : 0 < n) (hlt : n < 256) : 0 ≠ UInt8.ofNat n := by
  intro h
  have htoNat := congrArg UInt8.toNat h
  rw [UInt8.toNat_ofNat_of_lt' hlt] at htoNat
  exact hpos.ne htoNat

theorem eq_nul_of_zero_mem {c : Char} (h : 0 ∈ String.utf8EncodeChar c) : c = '\x00' := by
  by_contra hc
  have hval : c.val.toNat ≠ 0 := fun hzero => hc (Char.ext (UInt32.toNat_inj.1 hzero))
  unfold String.utf8EncodeChar at h
  dsimp only at h
  split at h
  · exact ofNat_ne_zero (by omega) (by omega) (List.mem_singleton.1 h)
  -- In a character of several bytes each of them has its high bit set.
  · split at h
    · simp only [List.mem_cons, List.not_mem_nil, or_false] at h
      rcases h with h | h <;> exact ofNat_ne_zero (by omega) (by omega) h
    · split at h
      · simp only [List.mem_cons, List.not_mem_nil, or_false] at h
        rcases h with h | h | h <;> exact ofNat_ne_zero (by omega) (by omega) h
      · simp only [List.mem_cons, List.not_mem_nil, or_false] at h
        rcases h with h | h | h | h <;> exact ofNat_ne_zero (by omega) (by omega) h

theorem zero_not_mem_encode {s : String} (plain : TextPool.Plain s) : 0 ∉ encode s.toList := by
  intro h
  obtain ⟨c, hc, hzero⟩ := List.mem_flatMap.1 h
  rw [eq_nul_of_zero_mem hzero] at hc
  exact plain hc

/-- Reads some bytes from an offset to the next NUL. What is no UTF-8 reads as the empty text. -/
def readAt (bytes : List UInt8) (offset : Nat) : String :=
  (decode? ((bytes.drop offset).takeWhile (· ≠ 0))).getD ""

theorem readAt_of_length_le {bytes : List UInt8} {offset : Nat} (h : bytes.length ≤ offset) :
    readAt bytes offset = "" := by
  rw [readAt, List.drop_of_length_le h]
  exact congrArg (Option.getD · "") (decode?_encode [])

/-- Reading ends with the NUL, so it does not depend on what comes behind. -/
theorem readAt_append {bytes rest : List UInt8} {offset : Nat} (h : offset ≤ bytes.length) :
    readAt (bytes ++ 0 :: rest) offset = readAt (bytes ++ [0]) offset := by
  have htake : ∀ tail : List UInt8,
      (bytes.drop offset ++ 0 :: tail).takeWhile (· ≠ 0) =
        (bytes.drop offset).takeWhile (· ≠ 0) := by
    intro tail
    rw [List.takeWhile_append]
    split
    · rename_i hall
      rw [List.takeWhile_cons_of_neg (by simp), List.append_nil]
      exact (List.IsPrefix.eq_of_length (List.takeWhile_prefix _) hall).symm
    · rfl
  rw [readAt, readAt, List.drop_append_of_le_length h, List.drop_append_of_le_length h, htake,
    htake]

theorem readAt_encode (bytes : List UInt8) {s : String} (plain : TextPool.Plain s) {n : Nat}
    (hn : n ≤ s.utf8ByteSize) :
    readAt (bytes ++ (encode s.toList ++ [0])) (bytes.length + n) =
      String.ofList ((TextPool.dropBytes n s.toList).getD []) := by
  have hlength : n ≤ (encode s.toList).length := by rwa [length_encode]
  have hall : ∀ b ∈ (encode s.toList).drop n, decide (b ≠ 0) = true := by
    intro b hb
    rw [decide_eq_true_eq]
    rintro rfl
    exact zero_not_mem_encode plain (List.mem_of_mem_drop hb)
  rw [readAt, List.drop_length_add_append, List.drop_append_of_le_length hlength,
    List.takeWhile_append_of_pos hall, List.takeWhile_cons_of_neg (by simp), List.append_nil,
    decode?_drop_encode hlength]
  cases TextPool.dropBytes n s.toList <;> rfl

end Sinkhole.Text

namespace Sinkhole.TextPool

variable {p p' : TextPool} {s : String} {t : PooledText} {used : Nat}

/-- The bytes of some texts, the newest first, behind the NUL that the arena opens with. -/
def laidOut : List PooledText → List UInt8
  | [] => [0]
  | t :: rest => laidOut rest ++ (Text.encode t.text.toList ++ [0])

def bytes (p : TextPool) : List UInt8 :=
  laidOut p.placed

/-- Each text lies right behind the NUL of the one before. -/
inductive Packed : List PooledText → Nat → Prop where
  | nil : Packed [] 1
  | cons {t : PooledText} {rest : List PooledText} (before : Packed rest t.offset)
      (plain : Plain t.text) (nonempty : t.text ≠ "") :
      Packed (t :: rest) (t.offset + (t.text.utf8ByteSize + 1))

namespace Packed

variable {ts : List PooledText}

theorem length_laidOut (h : Packed ts used) : (laidOut ts).length = used := by
  induction h with
  | nil => rfl
  | cons before plain nonempty ih =>
    rw [laidOut, List.length_append, List.length_append, ih, Text.length_encode]
    rfl

theorem laidOut_eq (h : Packed ts used) : ∃ before, laidOut ts = before ++ [0] := by
  cases h with
  | nil => exact ⟨[], rfl⟩
  | cons => exact ⟨_, (List.append_assoc _ _ _).symm⟩

/-- The newest text that does not lie past an offset is the one that is read there. -/
theorem readAt_laidOut (h : Packed ts used) {offset : Nat} (hlt : offset < used) :
    Text.readAt (laidOut ts) offset =
      match ts.find? (·.offset ≤ offset) with
      | none => ""
      | some t => String.ofList ((dropBytes (offset - t.offset) t.text.toList).getD []) := by
  induction h with
  | nil =>
    have hzero : offset = 0 := by omega
    subst hzero
    exact congrArg (Option.getD · "") (Text.decode?_encode [])
  | @cons t rest before plain nonempty ih =>
    by_cases hoffset : t.offset ≤ offset
    · have hfirst : (t :: rest).find? (·.offset ≤ offset) = some t :=
        List.find?_cons_of_pos (decide_eq_true hoffset)
      rw [hfirst]
      have hread := Text.readAt_encode (laidOut rest) plain (n := offset - t.offset) (by omega)
      rwa [before.length_laidOut, Nat.add_sub_cancel' hoffset] at hread
    · have hskip : (t :: rest).find? (·.offset ≤ offset) = rest.find? (·.offset ≤ offset) :=
        List.find?_cons_of_neg (by simpa using hoffset)
      rw [hskip, ← ih (by omega)]
      -- The NUL that ends the older texts ends the reading too.
      obtain ⟨older, holder⟩ := before.laidOut_eq
      have hlength := before.length_laidOut
      rw [holder, List.length_append, List.length_singleton] at hlength
      rw [laidOut, holder, List.append_assoc, List.singleton_append]
      exact Text.readAt_append (by omega)

theorem used_eq (h : Packed ts used) :
    used = 1 + (ts.map fun t => t.text.utf8ByteSize + 1).sum := by
  induction h with
  | nil => rfl
  | cons before plain nonempty ih =>
    rw [List.map_cons, List.sum_cons]
    omega

end Packed

/-- The pool tells of any offset what the bytes of the arena tell. -/
theorem textAt_eq_readAt (h : Packed p.placed p.used) (offset : Nat) :
    p.textAt offset = Text.readAt p.bytes offset := by
  unfold textAt
  split
  · rename_i hle
    exact (Text.readAt_of_length_le (h.length_laidOut.trans_le hle)).symm
  · rename_i hlt
    exact (h.readAt_laidOut (Nat.lt_of_not_le hlt)).symm

end Sinkhole.TextPool
